import SclNarrator.Proofs.Except
import SclNarrator.Proofs.Expr.Rules

/-!
The tokens of a text, and what lies between them. The scan goes from left to right: at every position
it reaches, the first rule that fits takes as much as it can (`Scanned`).

What is proved:
  1. each step adds at most one token and leaves nothing out but blanks and lone `#`
     (`Covered.step`);
  2. the tokens of a text are slices of it, in order and apart, and nothing else is lost. The scan
     stops with a fault at the first position where no rule fits, and only there (`scan_lossless`).

Correspondence (analyzer ↔ here):
  `tokenize` ↔ `Token.scan`
-/

namespace SclNarrator.Token

open Lexeme

/-- What a rule makes of the text that it takes at a position: one token or none. -/
def made (a : Rule) (x : Text) (position : Nat) : List Token :=
  (a.kind?.map fun kind => ⟨kind, x, position⟩).toList

/-- Whether the scan of a text reaches a position, with the tokens that it has found before it. -/
inductive Scanned (t : Text) : Nat → List Token → Prop where
  | start : Scanned t 0 []
  | step {position : Nat} {tokens : List Token} {a : Rule} {x : Text} (before : Scanned t position tokens)
      (here : a.Takes (t.drop position) x) : Scanned t (position + x.length) (tokens ++ made a x position)

variable {t x : Text} {position : Nat} {tokens : List Token}

/-! ## The scan and its steps -/

theorem next?_of_takes {a : Rule} {u : Text} (h : a.Takes u x) :
    next? u = some (a.kind?, x, u.drop x.length) := by
  obtain ⟨rest, rfl⟩ := h.front
  rw [List.drop_left]
  exact next?_eq_some_iff.mpr ⟨rfl, a, rfl, h⟩

theorem Scanned.scan_eq (h : Scanned t position tokens) :
    scan t = (scanFrom position 0 (t.drop position)).map (tokens ++ ·) := by
  induction h with
  | start =>
    rw [scan, List.drop_zero]
    cases scanFrom 0 0 t <;> rfl
  | @step position tokens a x before here ih =>
    rw [ih, scanFrom_of_next? (next?_of_takes here), List.drop_drop]
    cases scanFrom (position + x.length) 0 (t.drop (position + x.length)) with
    | error fault => rfl
    | ok later =>
      simp only [Except.map, Except.ok.injEq, List.append_assoc]
      rfl

theorem Scanned.le_length (h : Scanned t position tokens) : position ≤ t.length := by
  induction h with
  | start => exact Nat.zero_le _
  | @step position tokens a x before here ih =>
    have fits := here.front.length_le
    rw [List.length_drop] at fits
    omega

theorem exists_end (t : Text) : ∃ position tokens, Scanned t position tokens ∧
    (position = t.length ∨ (position < t.length ∧ ∀ a : Rule, ¬a.Fits (t.drop position))) := by
  -- by induction on the length of what is left to read
  have general : ∀ (left position : Nat) (tokens : List Token), t.length - position ≤ left →
      Scanned t position tokens → ∃ position tokens, Scanned t position tokens ∧
        (position = t.length ∨ (position < t.length ∧ ∀ a : Rule, ¬a.Fits (t.drop position))) := by
    intro left
    induction left with
    | zero =>
      intro position tokens few here
      have bound := here.le_length
      exact ⟨position, tokens, here, .inl (by omega)⟩
    | succ left ih =>
      intro position tokens few here
      rcases Nat.eq_or_lt_of_le here.le_length with same | less
      · exact ⟨position, tokens, here, .inl same⟩
      · cases found : next? (t.drop position) with
        | none => exact ⟨position, tokens, here, .inr ⟨less, next?_eq_none_iff.mp found⟩⟩
        | some taken =>
          obtain ⟨kind?, x, rest⟩ := taken
          obtain ⟨-, a, -, takes⟩ := next?_eq_some_iff.mp found
          have nonempty := List.length_pos_iff.mpr (Rule.ne_nil_of_admits takes.admits)
          exact ih _ _ (by omega) (here.step takes)
  exact general t.length 0 [] (by omega) .start

theorem Scanned.scan_eq_ok (h : Scanned t t.length tokens) : scan t = .ok tokens := by
  rw [h.scan_eq, List.drop_length]
  simp [scanFrom, Except.map]

theorem Scanned.scan_eq_error {c : CodePoint} (h : Scanned t position tokens) (here : t[position]? = some c)
    (stuck : ∀ a : Rule, ¬a.Fits (t.drop position)) : scan t = .error (.strayChar c position) := by
  have split : t.drop position = c :: t.drop (position + 1) := by
    obtain ⟨bound, same⟩ := List.getElem?_eq_some_iff.mp here
    rw [List.drop_eq_getElem_cons bound, same]
  rw [split, ← next?_eq_none_iff] at stuck
  rw [h.scan_eq, split, scanFrom_of_none stuck]
  rfl

theorem scanned_of_scan (h : scan t = .ok tokens) : Scanned t t.length tokens := by
  obtain ⟨position, found, here, rfl | ⟨less, stuck⟩⟩ := exists_end t
  · rw [here.scan_eq_ok] at h
    cases h
    exact here
  · rw [here.scan_eq_error (List.getElem?_eq_getElem less) stuck] at h
    cases h

/-! ## What the tokens cover -/

def Covers (k : Token) (i : Nat) : Prop := k.position ≤ i ∧ i < k.position + k.text.length

/-- What is known of the tokens that the scan has found before a position. -/
structure Covered (t : Text) (position : Nat) (tokens : List Token) : Prop where
  before : ∀ k ∈ tokens, k.position + k.text.length ≤ position
  apart : tokens.Pairwise fun k l => k.position + k.text.length ≤ l.position
  slice : ∀ k ∈ tokens, k.text ≠ [] ∧ (t.drop k.position).take k.text.length = k.text
  gaps : ∀ i c, i < position → t[i]? = some c → (∀ k ∈ tokens, ¬k.Covers i) → isBlank c = true ∨ c = '#'

/-- What makes no token is blank or a lone `#`. -/
theorem blank_of_made {a : Rule} (admits : a.Admits x) (empty : made a x position = []) :
    ∀ c ∈ x, isBlank c = true ∨ c = '#' := by
  intro c mem
  cases a with
  | blanks => exact .inl (admits.2 c mem)
  | hash =>
    obtain rfl : x = [.char '#'] := admits
    exact .inr (List.mem_singleton.mp mem)
  | time | based | number | string | name | op => cases empty

theorem eq_of_mem_made {a : Rule} {k : Token} (h : k ∈ made a x position) :
    k.text = x ∧ k.position = position := by
  obtain ⟨kind, -, rfl⟩ := Option.map_eq_some_iff.mp (Option.mem_toList.mp h)
  exact ⟨rfl, rfl⟩

/-- A step of the scan keeps what is known of the tokens. -/
theorem Covered.step {a : Rule} (h : Covered t position tokens) (here : a.Takes (t.drop position) x) :
    Covered t (position + x.length) (tokens ++ made a x position) where
  before k mem := by
    rcases List.mem_append.mp mem with mem | mem
    · have := h.before k mem
      omega
    · obtain ⟨rfl, rfl⟩ := eq_of_mem_made mem
      exact Nat.le_refl _
  apart := by
    refine List.pairwise_append.mpr ⟨h.apart, ?_, fun k old l new => ?_⟩
    · unfold made
      cases a.kind? with
      | none => exact .nil
      | some kind => exact List.pairwise_singleton ..
    · obtain ⟨-, rfl⟩ := eq_of_mem_made new
      exact h.before k old
  slice k mem := by
    rcases List.mem_append.mp mem with mem | mem
    · exact h.slice k mem
    · obtain ⟨rfl, rfl⟩ := eq_of_mem_made mem
      refine ⟨Rule.ne_nil_of_admits here.admits, ?_⟩
      exact (List.prefix_iff_eq_take.mp here.front).symm
  gaps i c less stands uncovered := by
    rw [List.forall_mem_append] at uncovered
    by_cases old : i < position
    · exact h.gaps i c old stands uncovered.1
    · -- the position lies in what is taken now, which makes no token
      have inside : c ∈ x := by
        obtain ⟨rest, split⟩ := here.front
        have place : (x ++ rest)[i - position]? = some c := by
          rw [split, List.getElem?_drop, ← stands]
          congr 1
          omega
        rw [List.getElem?_append_left (by omega)] at place
        exact List.mem_of_getElem? place
      have nothing : made a x position = [] := by
        refine List.eq_nil_iff_forall_not_mem.mpr fun k mem => uncovered.2 k mem ?_
        obtain ⟨rfl, rfl⟩ := eq_of_mem_made mem
        exact ⟨by omega, less⟩
      exact blank_of_made here.admits nothing c inside

theorem Scanned.covered (h : Scanned t position tokens) : Covered t position tokens := by
  induction h with
  | start => exact ⟨by simp, .nil, by simp, fun i c less => absurd less (Nat.not_lt_zero i)⟩
  | step _ here ih => exact ih.step here

/-- **Scanning loses nothing.** The tokens of a text are parts of it that are not empty, in order
and apart, and outside of them there are only blanks and `#`. There are no tokens if and only if the
scan reaches a position at which no rule fits, and the fault names the first such position and its
character. -/
theorem scan_lossless (t : Text) :
    (∀ tokens, scan t = .ok tokens →
      (∀ k ∈ tokens, k.text ≠ [] ∧ (t.drop k.position).take k.text.length = k.text) ∧
      tokens.Pairwise (fun k l => k.position < l.position ∧ k.position + k.text.length ≤ l.position) ∧
      ∀ i c, t[i]? = some c → (∀ k ∈ tokens, ¬k.Covers i) → isBlank c = true ∨ c = '#') ∧
    ∀ fault, scan t = .error fault ↔ ∃ position tokens c, Scanned t position tokens ∧ t[position]? = some c ∧
      (∀ a : Rule, ¬a.Fits (t.drop position)) ∧ fault = .strayChar c position := by
  constructor
  · intro tokens scanned
    have covered := (scanned_of_scan scanned).covered
    refine ⟨covered.slice, ?_, fun i c here => ?_⟩
    · refine covered.apart.imp_of_mem fun {k l} mem _ apart => ⟨?_, apart⟩
      have nonempty := List.length_pos_iff.mpr (covered.slice k mem).1
      omega
    · exact covered.gaps i c (List.getElem?_eq_some_iff.mp here).1 here
  · intro fault
    constructor
    · intro failed
      obtain ⟨position, tokens, here, rfl | ⟨less, stuck⟩⟩ := exists_end t
      · rw [here.scan_eq_ok] at failed
        cases failed
      · have read := List.getElem?_eq_getElem less
        rw [here.scan_eq_error read stuck] at failed
        exact ⟨position, tokens, _, here, read, stuck, (Except.error.inj failed).symm⟩
    · rintro ⟨position, tokens, c, here, read, stuck, rfl⟩
      exact here.scan_eq_error read stuck

/-- The mark of a local variable whose value stands in its place makes no token, and a sign that
belongs to no rule stops the scan. -/
theorem scan_lossless_marks :
    scan "#3 a".toText = .ok [⟨.number, "3".toText, 1⟩, ⟨.name, "a".toText, 3⟩] ∧
    (∀ i c, "#3 a".toText[i]? = some c → ¬(1 ≤ i ∧ i < 2) → ¬(3 ≤ i ∧ i < 4) → isBlank c = true ∨ c = '#') ∧
    scan "a$".toText = .error (.strayChar '$' 1) ∧
    ∃ tokens, Scanned "a$".toText 1 tokens ∧ ∀ a : Rule, ¬a.Fits ("a$".toText.drop 1) := by
  have scanned : scan "#3 a".toText = .ok [⟨.number, "3".toText, 1⟩, ⟨.name, "a".toText, 3⟩] := by rfl
  have failed : scan "a$".toText = .error (.strayChar '$' 1) := by rfl
  refine ⟨scanned, fun i c here number name => ?_, failed, ?_⟩
  · refine ((scan_lossless _).1 _ scanned).2.2 i c here ?_
    simp only [List.mem_cons, List.not_mem_nil, or_false, forall_eq_or_imp, forall_eq]
    exact ⟨number, name⟩
  · obtain ⟨position, tokens, c, reached, -, stuck, same⟩ := ((scan_lossless _).2 _).mp failed
    cases same
    exact ⟨tokens, reached, stuck⟩

end SclNarrator.Token
