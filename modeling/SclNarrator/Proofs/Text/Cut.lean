import SclNarrator.Proofs.Text.Stretch
import SclNarrator.Text.Basic

/-!
How a scan goes over a text that is put together from stretches. Over a stretch that a pattern matches
as a whole it makes one piece (`cutFrom_found`); over a stretch in which the pattern matches nowhere it
makes single characters (`cutFrom_misses`). Both say it of a stretch with any text behind it, so that
the pieces of a long text follow stretch by stretch.
-/

namespace SclNarrator.Text

variable {α : Type} {p : Pattern α} {back a b : Text}

/-- The characters that belong to the match before make no pieces. -/
theorem cutFrom_skip (p : Pattern α) (back a b : Text) :
    cutFrom p a.length back (a ++ b) = cutFrom p 0 (a.reverse ++ back) b := by
  induction a generalizing back with
  | nil => rfl
  | cons c rest ih =>
    rw [List.cons_append, List.length_cons, cutFrom, ih]
    simp

/-- A stretch that is matched as a whole is one piece. -/
theorem cutFrom_found {v : α} (ne : a ≠ []) (h : p back (a ++ b) = some (v, b)) :
    cutFrom p 0 back (a ++ b) = .found a v :: cutFrom p 0 (a.reverse ++ back) b := by
  obtain ⟨c, rest, rfl⟩ := List.exists_cons_of_ne_nil ne
  rw [List.cons_append] at h ⊢
  have fits : b.length ≤ (rest ++ b).length := by simp
  have size : (rest ++ b).length - b.length = rest.length := by simp
  rw [cutFrom, h]
  simp only [if_pos fits, size, List.take_left]
  rw [cutFrom_skip]
  simp

theorem cutFrom_whole {v : α} (ne : a ≠ []) (h : p back a = some (v, [])) :
    cutFrom p 0 back a = [.found a v] := by
  rw [← List.append_nil a] at h
  have whole := cutFrom_found ne h
  rwa [List.append_nil, cutFrom] at whole

/-- Whether a pattern matches at no point of a stretch. `back` is the text before it, reversed, and
`after` is the text behind it. -/
def Misses (p : Pattern α) (back : Text) : (stretch after : Text) → Prop
  | [], _ => True
  | c :: rest, after => p back (c :: rest ++ after) = none ∧ Misses p (c :: back) rest after

/-- A stretch without a match falls into its characters. -/
theorem cutFrom_misses (h : Misses p back a b) :
    cutFrom p 0 back (a ++ b) = a.map .plain ++ cutFrom p 0 (a.reverse ++ back) b := by
  induction a generalizing back with
  | nil => rfl
  | cons c rest ih =>
    obtain ⟨here, later⟩ := h
    rw [List.cons_append] at here ⊢
    rw [cutFrom, here]
    simp [ih later]

theorem Misses.append {after : Text} (first : Misses p back a (b ++ after))
    (second : Misses p (a.reverse ++ back) b after) : Misses p back (a ++ b) after := by
  induction a generalizing back with
  | nil => exact second
  | cons c rest ih =>
    obtain ⟨here, later⟩ := first
    refine ⟨by simpa using here, ih later (by simpa using second)⟩

theorem Misses.of_append {after : Text} (h : Misses p back (a ++ b) after) :
    Misses p (a.reverse ++ back) b after := by
  induction a generalizing back with
  | nil => exact h
  | cons c rest ih => simpa using ih h.2

theorem misses_of_ends (h : ∀ x y, a = x ++ y → y ≠ [] → p (x.reverse ++ back) (y ++ b) = none) :
    Misses p back a b := by
  induction a generalizing back with
  | nil => trivial
  | cons c rest ih =>
    refine ⟨h [] (c :: rest) rfl (by simp), ih fun x y same ne => ?_⟩
    simpa using h (c :: x) y (by simp [same]) ne

/-- Nothing is found in a text without a match. -/
theorem findAll_of_misses (h : Misses p [] a []) : findAll p a = [] := by
  have pieces := cutFrom_misses h
  rw [List.append_nil] at pieces
  rw [findAll, cut, pieces]
  simp [cutFrom, Piece.value?]

theorem flatMap_text_plain (a : Text) (f : Piece α → Text) (h : ∀ c, f (.plain c) = [c]) :
    (a.map Piece.plain).flatMap f = a := by
  induction a with
  | nil => rfl
  | cons c rest ih => simp [h, ih]

theorem replaceAll_of_none {p : Pattern Text} (h : ∀ x y, a = x ++ y → y ≠ [] → p x.reverse y = none) :
    replaceAll p a = a := by
  have misses : Misses p [] a [] := misses_of_ends fun x y same ne => by simpa using h x y same ne
  have pieces := cutFrom_misses misses
  rw [List.append_nil] at pieces
  rw [replaceAll, cut, pieces, cutFrom, List.append_nil]
  exact flatMap_text_plain a _ fun c => rfl

/-! ## Stretches that a pattern sees on their own -/

/-- Whether a pattern matches at the points of a stretch as it would if there were nothing around the
stretch. -/
def LocalOn (p : Pattern α) (back stretch after : Text) : Prop :=
  ∀ x y, stretch = x ++ y → y ≠ [] →
    p (x.reverse ++ back) (y ++ after) = (p x.reverse y).map fun (v, rest) => (v, rest ++ after)

theorem cutFrom_local {u after : Text} (h : LocalOn p back u after) :
    cutFrom p 0 back (u ++ after) = cut p u ++ cutFrom p 0 (u.reverse ++ back) after := by
  -- The stretch is read up to `y`, and `skip` of what is left belongs to the last match.
  have general : ∀ y x skip, u = x ++ y → skip ≤ y.length →
      cutFrom p skip (x.reverse ++ back) (y ++ after)
        = cutFrom p skip x.reverse y ++ cutFrom p 0 (u.reverse ++ back) after := by
    intro y
    induction y with
    | nil =>
      intro x skip same few
      obtain rfl : skip = 0 := by simpa using few
      rw [List.append_nil] at same
      rw [same, List.nil_append]
      rfl
    | cons c y ih =>
      intro x skip same few
      have next : u = x ++ [c] ++ y := by simp [same]
      have further (n : Nat) (le : n ≤ y.length) := ih (x ++ [c]) n next le
      simp only [List.reverse_append, List.reverse_singleton, List.cons_append,
        List.nil_append] at further
      cases skip with
      | succ n => exact further n (by simpa using few)
      | zero =>
        have here := h x (c :: y) same (List.cons_ne_nil _ _)
        rw [List.cons_append] at here ⊢
        rw [cutFrom, cutFrom, here]
        cases p x.reverse (c :: y) with
        | none =>
          simp only [Option.map_none]
          rw [further 0 (Nat.zero_le _)]
          rfl
        | some found =>
          obtain ⟨v, rest⟩ := found
          simp only [Option.map_some, List.length_append, Nat.add_le_add_iff_right]
          split
          · next fits =>
            have count : y.length + after.length - (rest.length + after.length)
                = y.length - rest.length := by omega
            have le : y.length - rest.length ≤ y.length := Nat.sub_le ..
            rw [count, List.take_append_of_le_length le, further _ le]
            rfl
          · rw [further 0 (Nat.zero_le _)]
            rfl
  exact general u [] 0 rfl (Nat.zero_le _)

theorem replaced_local {p : Pattern Text} {u after : Text} (h : LocalOn p back u after) :
    (cutFrom p 0 back (u ++ after)).flatMap Piece.replaced
      = replaceAll p u ++ (cutFrom p 0 (u.reverse ++ back) after).flatMap Piece.replaced := by
  rw [cutFrom_local h, List.flatMap_append]
  rfl

/-! ## The pieces of a cut -/

/-- Whether a pattern takes at least one character from the front of a text, and leaves the rest. -/
def Fronts (p : Pattern α) : Prop :=
  ∀ back t v rest, p back t = some (v, rest) → ∃ m, m ≠ [] ∧ t = m ++ rest

theorem Fronts.ne_nil (fronts : Fronts p) {back m rest : Text} {v : α}
    (h : p back (m ++ rest) = some (v, rest)) :
    m ≠ [] := by
  obtain ⟨m', ne, same⟩ := fronts _ _ _ _ h
  rwa [List.append_cancel_right same]

/-- How a pattern that takes from the front cuts a text from a point on: a character is a piece where
the pattern does not match, and what it takes is a piece where it does. -/
inductive Cuts (p : Pattern α) : (back t : Text) → List (Piece α) → Prop where
  | done (back : Text) : Cuts p back [] []
  | plain {back rest : Text} {c : CodePoint} {pieces : List (Piece α)} (missed : p back (c :: rest) = none)
      (later : Cuts p (c :: back) rest pieces) : Cuts p back (c :: rest) (.plain c :: pieces)
  | found {back m rest : Text} {v : α} {pieces : List (Piece α)} (ne : m ≠ [])
      (here : p back (m ++ rest) = some (v, rest)) (later : Cuts p (m.reverse ++ back) rest pieces) :
      Cuts p back (m ++ rest) (.found m v :: pieces)

theorem cuts_cutFrom (fronts : Fronts p) (back t : Text) : Cuts p back t (cutFrom p 0 back t) := by
  -- by induction on the length: a match may take several characters
  have general : ∀ (size : Nat) (back t : Text), t.length ≤ size → Cuts p back t (cutFrom p 0 back t) := by
    intro size
    induction size with
    | zero =>
      intro back t short
      obtain rfl := List.eq_nil_of_length_eq_zero (Nat.le_zero.mp short)
      exact .done back
    | succ size ih =>
      intro back t short
      cases t with
      | nil => exact .done back
      | cons c rest =>
        cases here : p back (c :: rest) with
        | none =>
          rw [cutFrom, here]
          exact .plain here (ih (c :: back) rest (by simpa using short))
        | some found =>
          obtain ⟨v, after⟩ := found
          obtain ⟨m, ne, whole⟩ := fronts _ _ _ _ here
          rw [whole] at here short ⊢
          rw [cutFrom_found ne here]
          have length := List.length_pos_iff.mpr ne
          rw [List.length_append] at short
          exact .found ne here (ih _ after (by omega))
  exact general t.length back t (Nat.le_refl _)

theorem cuts_cut (fronts : Fronts p) (t : Text) : Cuts p [] t (cut p t) := cuts_cutFrom fronts [] t

theorem Cuts.text {t : Text} {pieces : List (Piece α)} (h : Cuts p back t pieces) :
    pieces.flatMap Piece.text = t := by
  induction h with
  | done => rfl
  | plain _ _ ih | found _ _ _ ih =>
    rw [List.flatMap_cons, ih]
    rfl

theorem Cuts.cutFrom_eq {t : Text} {pieces : List (Piece α)} (h : Cuts p back t pieces) :
    cutFrom p 0 back t = pieces := by
  induction h with
  | done => rfl
  | plain missed _ ih => rw [cutFrom, missed, ih]
  | found ne here _ ih => rw [cutFrom_found ne here, ih]

theorem Cuts.exists_of_found {t u : Text} {pieces : List (Piece α)} {v : α} (h : Cuts p back t pieces)
    (mem : .found u v ∈ pieces) : ∃ back' rest, u ≠ [] ∧ p back' (u ++ rest) = some (v, rest) := by
  induction h with
  | done => cases mem
  | plain _ _ ih =>
    rcases List.mem_cons.mp mem with same | mem
    · cases same
    · exact ih mem
  | found ne here _ ih =>
    rcases List.mem_cons.mp mem with same | mem
    · cases same
      exact ⟨_, _, ne, here⟩
    · exact ih mem

/-- What a piece was read as was read at a point of the text. -/
theorem exists_of_found_mem {skip : Nat} {t u : Text} {v : α} (h : .found u v ∈ cutFrom p skip back t) :
    ∃ back' y rest, p back' y = some (v, rest) ∧ y <:+ t := by
  induction t generalizing skip back with
  | nil => simp [cutFrom] at h
  | cons c t ih =>
    have later {skip : Nat} (mem : .found u v ∈ cutFrom p skip (c :: back) t) :
        ∃ back' y rest, p back' y = some (v, rest) ∧ y <:+ c :: t := by
      obtain ⟨back', y, rest, here, suffix⟩ := ih mem
      exact ⟨back', y, rest, here, suffix.trans (List.suffix_cons c t)⟩
    cases skip with
    | succ skip => exact later h
    | zero =>
      rw [cutFrom] at h
      split at h
      · rcases List.mem_cons.mp h with same | mem
        · cases same
        · exact later mem
      · next here =>
        split at h
        · rcases List.mem_cons.mp h with same | mem
          · cases same
            exact ⟨back, _, _, here, List.suffix_rfl⟩
          · exact later mem
        · rcases List.mem_cons.mp h with same | mem
          · cases same
          · exact later mem

theorem exists_of_mem_findAll {t : Text} {v : α} (h : v ∈ findAll p t) :
    ∃ back y rest, p back y = some (v, rest) ∧ y <:+ t := by
  obtain ⟨piece, mem, value⟩ := List.mem_filterMap.mp h
  cases piece with
  | plain c => cases value
  | found u w =>
    cases value
    exact exists_of_found_mem mem

theorem cut_eq_of_findAll {t : Text} (h : findAll p t = []) : cut p t = t.map .plain := by
  have plain (pieces : List (Piece α)) (nothing : pieces.filterMap Piece.value? = []) :
      pieces = (pieces.flatMap Piece.text).map .plain := by
    induction pieces with
    | nil => rfl
    | cons piece pieces ih =>
      cases piece with
      | found u v => simp [Piece.value?] at nothing
      | plain c =>
        rw [List.filterMap_cons] at nothing
        rw [List.flatMap_cons, List.map_append, ← ih nothing]
        rfl
  have := plain (cut p t) h
  rwa [cut_text] at this

end SclNarrator.Text
