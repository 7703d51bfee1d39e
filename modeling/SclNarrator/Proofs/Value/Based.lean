import Mathlib.Data.Nat.Digits.Defs
import SclNarrator.Proofs.Number.Numeral
import SclNarrator.Value.Decode

/-!
Numerals with a base, such as `16#FF`.

What is proved:
  1. an expression and the text of a tag read them alike: both take the digits behind the number sign,
     leave out underscores, and read what is left in the base (`based_numeral`,
     `leadingInt_numeral`);
  2. a text of digits may announce its own base again, and of the announcements only `0b` is written
     in hexadecimal digits. So a numeral is read exactly if its digits belong to its base, as their
     positional value, or if its base is two and binary digits stand behind `0b`
     (`based_eq_ok_iff`).

Correspondence (analyzer ↔ here):
  `parse_based_int`, `parse_leading_int` ↔ `Literal.based`, `Literal.leadingInt`
-/

namespace SclNarrator

open CodePoint (char)

namespace Numeral

theorem ofDigits_eq (base : Nat) (digits : List Nat) :
    ofDigits base digits = Nat.ofDigits base digits.reverse := by
  induction digits using List.reverseRecOn with
  | nil => rfl
  | append_singleton digits d ih =>
    rw [List.reverse_append, List.reverse_singleton, List.singleton_append, Nat.ofDigits_cons, ← ih,
      Nat.add_comm]
    simp [ofDigits]

/-! ## Hexadecimal digits -/

def values (t : Text) : List Nat := t.filterMap alnumValue?

variable {t : Text} {base : Nat}

theorem exists_alnumValue? {c : CodePoint} (hex : isHex c = true) : ∃ v, alnumValue? c = some v :=
  Option.isSome_iff_exists.mp (forall_hex (P := fun c => (alnumValue? c).isSome) (by decide) hex)

theorem isMargin_of_isHex {c : CodePoint} (hex : isHex c = true) : isMargin c = false := by
  have := forall_hex (P := fun c => !isMargin c) (by decide) hex
  simpa using this

theorem takeSign_of_isHex (hex : ∀ c ∈ t, isHex c = true) : takeSign t = (false, t) := by
  unfold takeSign
  split
  · exact absurd (hex _ List.mem_cons_self) (by decide)
  · exact absurd (hex _ List.mem_cons_self) (by decide)
  · rfl

theorem not_mem_of_isHex (hex : ∀ c ∈ t, isHex c = true) : char '_' ∉ t :=
  fun mem => absurd (hex _ mem) (by decide)

theorem values_cons {c : CodePoint} {v : Nat} (value : alnumValue? c = some v) (t : Text) :
    values (c :: t) = v :: values t :=
  List.filterMap_cons_some value

theorem values_eq_nil_iff (hex : ∀ c ∈ t, isHex c = true) : values t = [] ↔ t = [] := by
  cases t with
  | nil => simp [values]
  | cons c t =>
    obtain ⟨v, value⟩ := exists_alnumValue? (hex c List.mem_cons_self)
    simp [values_cons value]

/-- The digits of a text belong to a base if and only if each of its characters is one of that base. -/
theorem forall_values_iff (hex : ∀ c ∈ t, isHex c = true) :
    (∀ v ∈ values t, v < base) ↔ ∀ c ∈ t, isGrouped base c = true := by
  have one (c : CodePoint) (mem : c ∈ t) : isGrouped base c = true ↔ ∀ v, alnumValue? c = some v →
      v < base := by
    obtain ⟨v, value⟩ := exists_alnumValue? (hex c mem)
    have bar : (c == char '_') = false := beq_eq_false_iff_ne.mpr fun same =>
      not_mem_of_isHex hex (same ▸ mem)
    simp [isGrouped, value, bar]
  constructor
  · intro small c mem
    exact (one c mem).mpr fun v value => small v (List.mem_filterMap.mpr ⟨c, mem, value⟩)
  · intro grouped v mem
    obtain ⟨c, among, value⟩ := List.mem_filterMap.mp mem
    exact (one c among).mp (grouped c among) v value

/-- What digits denote in a base: there is one at least, each belongs to the base, and the number is
their positional value. -/
structure Denotes (base : Nat) (digits : List Nat) (n : Nat) : Prop where
  nonempty : digits ≠ []
  belong : ∀ v ∈ digits, v < base
  value : n = Nat.ofDigits base digits.reverse

theorem all_isMargin_dropWhile (hex : ∀ c ∈ t, isHex c = true) (p : CodePoint → Bool) :
    (t.dropWhile p).all isMargin = true ↔ ∀ c ∈ t, p c = true := by
  rw [← List.dropWhile_eq_nil_iff]
  cases left : t.dropWhile p with
  | nil => simp
  | cons c rest =>
    have among : c ∈ t := (List.dropWhile_sublist p).mem (by rw [left]; exact List.mem_cons_self)
    simp [isMargin_of_isHex (hex c among)]

/-- Hexadecimal digits are read in a base as what they denote, behind a mark of the base if there is one. -/
theorem read_eq_ok_iff (known : base ∈ [2, 8, 16]) (hex : ∀ c ∈ t, isHex c = true) {body : Text}
    (resolved : resolveBase base t = (base, body, false)) (inner : ∀ c ∈ body, isHex c = true) (n : Int) :
    read base t = .ok n ↔ ∃ m : Nat, n = m ∧ Denotes base (values body) m := by
  have range : ¬(base = 1 ∨ 36 < base) ∧ isLimited base = false := by
    simp only [List.mem_cons, List.not_mem_nil, or_false] at known
    obtain rfl | rfl | rfl := known <;> decide
  have start : t.dropWhile isMargin = t :=
    dropWhile_of_stops fun c mem => isMargin_of_isHex (hex c (List.mem_of_mem_head? mem))
  have margin := all_isMargin_dropWhile inner (isGrouped base)
  simp only [read, if_neg range.1, start, takeSign_of_isHex hex, resolved, range.2, Bool.and_false,
    Bool.false_and, Bool.or_false]
  by_cases grouped : ∀ c ∈ body, isGrouped base c = true
  · rw [margin.mpr grouped, List.takeWhile_eq_self_iff.mpr grouped]
    by_cases empty : body = []
    · subst empty
      refine iff_of_false (by simp [ungroup?]) ?_
      rintro ⟨_, -, denotes⟩
      exact denotes.nonempty rfl
    · have alnum (c : CodePoint) (mem : c ∈ body) : (alnumValue? c).isSome = true :=
        Option.isSome_iff_exists.mpr (exists_alnumValue? (inner c mem))
      rw [ungroup?_of_alnum empty (not_mem_of_isHex inner) alnum]
      constructor
      · intro same
        refine ⟨ofDigits base (values body), (Except.ok.inj same).symm, ?_, ?_, ofDigits_eq ..⟩
        · exact fun nil => empty ((values_eq_nil_iff inner).mp nil)
        · exact (forall_values_iff inner).mpr grouped
      · rintro ⟨m, same, denotes⟩
        rw [same, denotes.value, ← ofDigits_eq]
        rfl
  · have stuck : (body.dropWhile (isGrouped base)).all isMargin = false :=
      Bool.eq_false_iff.mpr (grouped ∘ margin.mp)
    rw [stuck]
    apply iff_of_false
    · cases ungroup? (body.takeWhile (isGrouped base)) <;> simp
    · rintro ⟨_, -, denotes⟩
      exact grouped ((forall_values_iff inner).mp denotes.belong)

/-! ## Marks of a base -/

/-- Whether digits announce the base two before other digits. -/
def Announces (t rest : Text) : Prop :=
  ∃ mark, t = char '0' :: mark :: rest ∧ (mark = char 'b' ∨ mark = char 'B')

theorem digitValue?_eq_zero_iff {c : CodePoint} (hex : isHex c = true) :
    digitValue? c = some 0 ↔ c = char '0' :=
  of_decide_eq_true (forall_hex (P := fun c => decide (digitValue? c = some 0 ↔ c = char '0'))
    (by decide) hex)

theorem baseOfMark?_eq_some_iff {c : CodePoint} (hex : isHex c = true) {b : Nat} :
    baseOfMark? c = some b ↔ b = 2 ∧ (c = char 'b' ∨ c = char 'B') := by
  have marks : baseOfMark? c = if c = char 'b' ∨ c = char 'B' then some 2 else none :=
    of_decide_eq_true (forall_hex
      (P := fun c => decide (baseOfMark? c = if c = char 'b' ∨ c = char 'B' then some 2 else none))
        (by decide) hex)
  rw [marks]
  split
  · next mark => simp [mark, eq_comm]
  · next other => simp [other]

theorem resolveBase_of_isHex (known : base ∈ [2, 8, 16]) (hex : ∀ c ∈ t, isHex c = true)
    (silent : base = 2 → ∀ rest, ¬Announces t rest) : resolveBase base t = (base, t, false) := by
  have positive : base ≠ 0 := by
    intro zero
    rw [zero] at known
    exact absurd known (by decide)
  cases t with
  | nil => rw [resolveBase, if_neg positive]
  | cons c rest =>
    rw [resolveBase]
    split
    · next zero =>
      split
      · next b announced =>
        obtain ⟨d, head, mark⟩ := Option.bind_eq_some_iff.mp announced
        obtain ⟨rest, rfl⟩ := List.head?_eq_some_iff.mp head
        rw [List.forall_mem_cons, List.forall_mem_cons] at hex
        obtain ⟨rfl, letter⟩ := (baseOfMark?_eq_some_iff hex.2.1).mp mark
        have other : ¬(base = 2 ∨ base = 0) := by
          intro same
          refine silent (same.resolve_right positive) rest ⟨d, ?_, letter⟩
          rw [(digitValue?_eq_zero_iff hex.1).mp zero]
        rw [if_neg other]
      · rfl
    · rfl

theorem resolveBase_of_announces {rest : Text} (bare : char '_' ∉ rest) (mark : Announces t rest) :
    resolveBase 2 t = (2, rest, false) := by
  have dropped : dropUnderscore rest = rest := by
    unfold dropUnderscore
    split
    · exact absurd List.mem_cons_self bare
    · rfl
  obtain ⟨_, rfl, rfl | rfl⟩ := mark
  · exact congrArg (fun u => (2, u, false)) dropped
  · exact congrArg (fun u => (2, u, false)) dropped

theorem not_denotes_of_announces {rest : Text} {n : Nat} (mark : Announces t rest) :
    ¬Denotes 2 (values t) n := by
  intro denotes
  have letter : 11 ∈ values t := by
    obtain ⟨_, rfl, rfl | rfl⟩ := mark
    · exact List.mem_filterMap.mpr ⟨char 'b', by simp, by decide⟩
    · exact List.mem_filterMap.mpr ⟨char 'B', by simp, by decide⟩
  exact absurd (denotes.belong 11 letter) (by decide)

/-- Hexadecimal digits are read in a base exactly if they denote a number in it, or if the base is
two and they do so behind a mark. -/
theorem read_hex_eq_ok_iff (known : base ∈ [2, 8, 16]) (hex : ∀ c ∈ t, isHex c = true) (n : Int) :
    read base t = .ok n ↔ ∃ m : Nat, n = m ∧
      (Denotes base (values t) m ∨ base = 2 ∧ ∃ rest, Announces t rest ∧ Denotes 2 (values rest) m) := by
  by_cases marked : base = 2 ∧ ∃ rest, Announces t rest
  · obtain ⟨rfl, rest, mark⟩ := marked
    have inner : ∀ c ∈ rest, isHex c = true := by
      obtain ⟨d, rfl, -⟩ := mark
      exact fun c mem => hex c (by simp [mem])
    rw [read_eq_ok_iff known hex (resolveBase_of_announces (not_mem_of_isHex inner) mark) inner]
    refine exists_congr fun m => and_congr_right fun _ => ?_
    constructor
    · exact fun denotes => .inr ⟨rfl, rest, mark, denotes⟩
    · intro either
      obtain denotes | ⟨-, rest', mark', denotes⟩ := either
      · exact absurd denotes (not_denotes_of_announces mark)
      · obtain ⟨_, rfl, -⟩ := mark
        obtain ⟨_, same, -⟩ := mark'
        cases same
        exact denotes
  · have silent : base = 2 → ∀ rest, ¬Announces t rest := fun two rest mark => marked ⟨two, rest, mark⟩
    rw [read_eq_ok_iff known hex (resolveBase_of_isHex known hex silent) hex]
    refine exists_congr fun m => and_congr_right fun _ => ?_
    constructor
    · exact .inl
    · intro either
      obtain denotes | ⟨two, rest, mark, -⟩ := either
      · exact denotes
      · exact absurd mark (silent two rest)

end Numeral

namespace Literal

open Numeral

def numeral (base : Nat) (digits : Text) : Text := natText base ++ char '#' :: digits

variable {base : Nat} {digits : Text}

theorem lt_of_known (known : base ∈ [2, 8, 16]) : base < 10 ^ digitLimit := by
  have small : base < 10 ^ 2 := by
    simp only [List.mem_cons, List.not_mem_nil, or_false] at known
    omega
  exact Nat.lt_of_lt_of_le small (Nat.pow_le_pow_right (by decide) (by decide))

/-- In an expression a numeral is read by its digits without underscores. -/
theorem based_numeral (known : base ∈ [2, 8, 16]) (digits : Text) :
    based (numeral base digits) =
      (read base (digits.without '_')).mapError fun _ => .badBased (numeral base digits) := by
  have front : ∀ c ∈ natText base, (c != char '#') = true := fun c mem =>
    forall_digit (P := fun c => c != char '#') (by decide) (isDigit_natText mem)
  have stop : Stops (· != char '#') (char '#' :: digits) := stops_cons.mpr (by decide)
  have taken : (numeral base digits).takeWhile (· != char '#') = natText base :=
    takeWhile_append_of_stops front stop
  have left : (numeral base digits).dropWhile (· != char '#') = char '#' :: digits :=
    dropWhile_append_of_stops front stop
  simp only [based, taken, left, read_natText (lt_of_known known), List.drop_succ_cons, List.drop_zero]
  cases read base (digits.without '_') <;> rfl

theorem behind?_append {ok : CodePoint → Bool} (mark : Text) (ne : digits ≠ [])
    (all : ∀ c ∈ digits, ok c = true) :
    behind? mark ok (mark ++ digits) = some digits := by
  rw [behind?, dropPart?_append]
  simp [List.takeWhile_eq_self_iff.mpr all, ne]

theorem behind?_of_ne {c d : CodePoint} (other : c ≠ d) (mark : Text) (ok : CodePoint → Bool) (t : Text) :
    behind? (c :: mark) ok (d :: t) = none := by
  rw [behind?, Text.dropPart?, if_neg other]

theorem leading?_numeral (known : base ∈ [2, 8, 16]) (ne : digits ≠ [])
    (hex : ∀ c ∈ digits, (isHex c || c == char '_') = true) :
    leading? (numeral base digits) = some (.inBase base (digits.without '_')) := by
  simp only [List.mem_cons, List.not_mem_nil, or_false] at known
  obtain rfl | rfl | rfl := known
  · have found := behind?_append [char '2', char '#'] ne hex
    have start : numeral 2 digits = [char '2', char '#'] ++ digits := rfl
    rw [leading?, start, found, List.cons_append, behind?_of_ne (by decide), behind?_of_ne (by decide)]
  · have found := behind?_append [char '8', char '#'] ne hex
    have start : numeral 8 digits = [char '8', char '#'] ++ digits := rfl
    rw [leading?, start, found, List.cons_append, behind?_of_ne (by decide), behind?_of_ne (by decide),
      behind?_of_ne (by decide)]
  · have found := behind?_append [char '1', char '6', char '#'] ne hex
    have start : numeral 16 digits = [char '1', char '6', char '#'] ++ digits := rfl
    rw [leading?, start, found, List.cons_append, behind?_of_ne (by decide), behind?_of_ne (by decide),
      behind?_of_ne (by decide), behind?_of_ne (by decide)]

/-- In the text of a tag a numeral is read by its digits without underscores, too. -/
theorem leadingInt_numeral (known : base ∈ [2, 8, 16]) (ne : digits ≠ [])
    (hex : ∀ c ∈ digits, isHex c = true ∨ c = char '_') :
    leadingInt (numeral base digits) = .ok (read base (digits.without '_')).toOption := by
  have visible : ∀ c ∈ numeral base digits, isBlank c = false := by
    intro c mem
    rw [numeral, List.mem_append, List.mem_cons] at mem
    obtain digit | rfl | mem := mem
    · exact isBlank_of_isDecimal (isDecimal_of_isDigit (isDigit_natText digit))
    · decide
    · obtain hex | rfl := hex c mem
      · exact isBlank_of_isWord (isWord_of_isHex hex)
      · decide
  have unsigned : takeSign (numeral base digits) = (false, numeral base digits) := by
    simp only [List.mem_cons, List.not_mem_nil, or_false] at known
    obtain rfl | rfl | rfl := known <;> rfl
  have found := leading?_numeral known ne fun c mem => by simpa using hex c mem
  simp only [leadingInt, Text.trim_of_visible visible, unsigned, found]
  cases read base (digits.without '_') <;> rfl

/-- **Numerals with a base.** In an expression, a numeral of hexadecimal digits and underscores in
the base two, eight or sixteen is read as a number exactly if its digits denote the number in that
base, or if the base is two and they do so behind `0b`; any other is refused by name. The text of a
tag gives the same number, and none where an expression refuses the numeral. -/
theorem based_eq_ok_iff (known : base ∈ [2, 8, 16]) (ne : digits ≠ [])
    (hex : ∀ c ∈ digits, isHex c = true ∨ c = char '_') :
    (∀ n, based (numeral base digits) = .ok n ↔ ∃ m : Nat, n = m ∧
      (Denotes base (values (digits.without '_')) m ∨
        base = 2 ∧ ∃ rest, Announces (digits.without '_') rest ∧ Denotes 2 (values rest) m)) ∧
    (∀ fault, based (numeral base digits) = .error fault → fault = .badBased (numeral base digits)) ∧
    leadingInt (numeral base digits) = .ok (based (numeral base digits)).toOption := by
  have bare : ∀ c ∈ digits.without '_', isHex c = true := by
    intro c mem
    obtain ⟨among, other⟩ := List.mem_filter.mp mem
    exact (hex c among).resolve_right (bne_iff_ne.mp other)
  have outcome := based_numeral known digits
  refine ⟨fun n => ?_, ?_, ?_⟩
  · rw [← read_hex_eq_ok_iff known bare, outcome]
    cases read base (digits.without '_') <;> simp [Except.mapError]
  · intro fault refused
    rw [outcome] at refused
    cases found : read base (digits.without '_') with
    | ok n =>
      rw [found] at refused
      cases refused
    | error cause =>
      rw [found] at refused
      exact (Except.error.inj refused).symm
  · rw [leadingInt_numeral known ne hex, outcome]
    cases read base (digits.without '_') <;> rfl

/-- A binary numeral with an underscore. -/
theorem based_eq_ok_iff_octets :
    2 ∈ [2, 8, 16] ∧ "1010_0001".toText ≠ [] ∧ (∀ c ∈ "1010_0001".toText, isHex c = true ∨ c = char '_') ∧
      based (numeral 2 "1010_0001".toText) = .ok 161 ∧
      leadingInt (numeral 2 "1010_0001".toText) = .ok (some 161) := by
  have known : 2 ∈ [2, 8, 16] := by decide
  have ne : "1010_0001".toText ≠ [] := by decide
  have hex : ∀ c ∈ "1010_0001".toText, isHex c = true ∨ c = char '_' := by decide
  have denotes : Denotes 2 (values ("1010_0001".toText.without '_')) 161 := ⟨by decide, by decide, by decide⟩
  obtain ⟨read, -, alike⟩ := based_eq_ok_iff known ne hex
  have found := (read 161).mpr ⟨161, rfl, .inl denotes⟩
  refine ⟨known, ne, hex, found, ?_⟩
  rw [alike, found]
  rfl

/-- A binary numeral is read although the letter behind its first digit is none of its base. -/
theorem announced_numeral_is_read :
    ¬(∀ v ∈ values "0b1".toText, v < 2) ∧ (based "2#0b1".toText).toOption = some 1 ∧
      (leadingInt "2#0b1".toText).toOption = some (some 1) := by
  decide +kernel

end Literal
end SclNarrator
