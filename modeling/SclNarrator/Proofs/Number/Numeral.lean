import Mathlib.Algebra.Group.Nat.Defs
import Mathlib.Data.List.Basic
import Mathlib.Data.List.Induction
import SclNarrator.Number.Numeral
import SclNarrator.Proofs.Text.Stretch

/-!
Decimal numerals. The digits that are written for a natural number have it as their value
(`digitsValue_natText`), and a numeral that keeps the limit is read as the number that it was written
for (`read_natText`).
-/

namespace SclNarrator.Numeral

def digitsValue (t : Text) : Nat := ofDigits 10 (t.filterMap digitValue?)

theorem digitValue?_of_isDigit {c : CodePoint} (h : c.isDigit = true) :
    digitValue? c = some (c.toNat - 48) := by
  rw [digitValue?, if_pos h]

theorem isDecimal_of_isDigit {c : CodePoint} (h : c.isDigit = true) : isDecimal c = true := by
  rw [isDecimal, digitValue?_of_isDigit h]
  rfl

variable {a b t : Text} {n : Nat}

theorem length_filterMap_digitValue? (h : ∀ c ∈ t, isDecimal c = true) :
    (t.filterMap digitValue?).length = t.length := by
  induction t with
  | nil => rfl
  | cons c rest ih =>
    obtain ⟨v, value⟩ := Option.isSome_iff_exists.mp (h c List.mem_cons_self)
    rw [List.filterMap_cons_some value, List.length_cons, List.length_cons,
      ih fun d mem => h d (List.mem_cons_of_mem _ mem)]

theorem ofDigits_append (xs ys : List Nat) :
    ofDigits 10 (xs ++ ys) = ofDigits 10 xs * 10 ^ ys.length + ofDigits 10 ys := by
  induction ys using List.reverseRecOn with
  | nil => simp [ofDigits]
  | append_singleton ys y ih =>
    rw [← List.append_assoc]
    simp only [ofDigits, List.foldl_append, List.foldl_cons, List.foldl_nil, List.length_append,
      List.length_singleton, Nat.pow_succ] at ih ⊢
    rw [ih]
    grind

theorem digitsValue_append (hb : ∀ c ∈ b, c.isDigit = true) :
    digitsValue (a ++ b) = digitsValue a * 10 ^ b.length + digitsValue b := by
  rw [digitsValue, List.filterMap_append, ofDigits_append,
    length_filterMap_digitValue? fun c mem => isDecimal_of_isDigit (hb c mem)]
  rfl

theorem isDigit_zeros (count : Nat) : ∀ c ∈ List.replicate count (CodePoint.char '0'), c.isDigit = true := by
  intro c mem
  rw [List.eq_of_mem_replicate mem]
  rfl

theorem digitsValue_zeros (count : Nat) : digitsValue (List.replicate count (.char '0')) = 0 := by
  induction count with
  | zero => rfl
  | succ count ih =>
    have last : ∀ c ∈ [CodePoint.char '0'], c.isDigit = true := isDigit_zeros 1
    rw [List.replicate_succ', digitsValue_append last, ih]
    rfl

/-! ## What is written for a number -/

theorem isDigit_natText {c : CodePoint} (h : c ∈ natText n) : c.isDigit = true := by
  obtain ⟨d, mem, rfl⟩ := List.mem_map.mp h
  exact Nat.isDigit_of_mem_toDigits (by decide) (by decide) mem

theorem natText_ne_nil (n : Nat) : natText n ≠ [] := by
  simp [natText, Text.ofChars]

theorem digitsValue_ofChars {cs : List Char} (h : ∀ c ∈ cs, c.isDigit = true) :
    digitsValue (Text.ofChars cs) = Nat.ofDigitChars 10 cs 0 := by
  have values : (Text.ofChars cs).filterMap digitValue? = cs.map fun c => c.toNat - '0'.toNat := by
    induction cs with
    | nil => rfl
    | cons c cs ih =>
      have digit : (CodePoint.char c).isDigit = true := h c List.mem_cons_self
      rw [Text.ofChars, List.map_cons, List.filterMap_cons_some (digitValue?_of_isDigit digit)]
      exact congrArg _ (ih fun d mem => h d (List.mem_cons_of_mem _ mem))
  rw [digitsValue, values, ofDigits, List.foldl_map]
  rfl

/-- The digits of a number have it as their value. -/
theorem digitsValue_natText (n : Nat) : digitsValue (natText n) = n := by
  rw [natText, digitsValue_ofChars fun c mem => Nat.isDigit_of_mem_toDigits (by decide) (by decide) mem,
    Nat.ofDigitChars_ten_toDigits]

theorem length_natText (n : Nat) : (natText n).length = (Nat.toDigits 10 n).length := by
  simp [natText, Text.ofChars]

theorem lt_pow_length_natText (n : Nat) : n < 10 ^ (natText n).length := by
  rw [length_natText]
  exact (Nat.length_toDigits_le_iff (by decide) Nat.length_toDigits_pos).mp (Nat.le_refl _)

theorem length_natText_le {k : Nat} (pos : 0 < k) (h : n < 10 ^ k) : (natText n).length ≤ k := by
  rw [length_natText]
  exact (Nat.length_toDigits_le_iff (by decide) pos).mpr h

theorem pow_length_natText_le (pos : 0 < n) : 10 ^ ((natText n).length - 1) ≤ n := by
  by_contra less
  rcases Nat.eq_zero_or_pos ((natText n).length - 1) with one | more
  · rw [one] at less
    omega
  · have := length_natText_le more (Nat.not_le.mp less)
    omega

/-! ## Reading -/

theorem alnumValue?_of_isDecimal {c : CodePoint} (h : isDecimal c = true) :
    alnumValue? c = digitValue? c := by
  have lower : ¬c.isLower = true := fun lower => by
    have := forall_lower (P := fun c => !isDecimal c) (by decide) lower
    simp [h] at this
  have upper : ¬c.isUpper = true := fun upper => by
    have := forall_upper (P := fun c => !isDecimal c) (by decide) upper
    simp [h] at this
  rw [alnumValue?, if_neg lower, if_neg upper]

theorem digitValue?_lt {c : CodePoint} {v : Nat} (h : digitValue? c = some v) : v < 10 := by
  rw [digitValue?] at h
  split at h
  · next digit =>
    cases h
    have := forall_digit (P := fun c => decide (c.toNat - 48 < 10)) (by decide) digit
    simpa using this
  · split at h
    · cases h
    · obtain ⟨z, found, rfl⟩ := Option.map_eq_some_iff.mp h
      have inside := List.find?_some found
      rw [Bool.and_eq_true, decide_eq_true_eq, decide_eq_true_eq] at inside
      omega

theorem isGrouped_of_isDecimal {c : CodePoint} (h : isDecimal c = true) : isGrouped 10 c = true := by
  obtain ⟨v, value⟩ := Option.isSome_iff_exists.mp h
  rw [isGrouped, alnumValue?_of_isDecimal h, value]
  simp [digitValue?_lt value]

theorem ne_of_isDecimal {c d : CodePoint} (h : isDecimal c = true) (other : isDecimal d = false) : c ≠ d := by
  rintro rfl
  rw [h] at other
  cases other

theorem isBlank_of_isDecimal {c : CodePoint} (h : isDecimal c = true) : isBlank c = false := by
  rw [Bool.eq_false_iff]
  intro blank
  have := forall_blank (P := fun c => !isDecimal c) (by decide) blank
  simp [h] at this

theorem isBlank_of_isMargin {c : CodePoint} (h : isMargin c = true) : isBlank c = true :=
  (Bool.and_eq_true_iff.mp h).1

theorem ungroup?_of_alnum (ne : t ≠ []) (bare : CodePoint.char '_' ∉ t)
    (h : ∀ c ∈ t, (alnumValue? c).isSome = true) : ungroup? t = some (t.filterMap alnumValue?) := by
  induction t with
  | nil => exact absurd rfl ne
  | cons c rest ih =>
    obtain ⟨v, value⟩ := Option.isSome_iff_exists.mp (h c List.mem_cons_self)
    cases rest with
    | nil => simp [ungroup?, value]
    | cons d rest =>
      have other : d ≠ CodePoint.char '_' := fun same => bare (by simp [same])
      have later := ih (by simp) (fun mem => bare (List.mem_cons_of_mem _ mem))
        fun e mem => h e (List.mem_cons_of_mem _ mem)
      rw [ungroup?, value, List.filterMap_cons_some value]
      simp only [if_neg other]
      rw [later]
      rfl

theorem ungroup?_of_isDecimal (ne : t ≠ []) (h : ∀ c ∈ t, isDecimal c = true) :
    ungroup? t = some (t.filterMap digitValue?) := by
  have values (c : CodePoint) (mem : c ∈ t) : alnumValue? c = digitValue? c :=
    alnumValue?_of_isDecimal (h c mem)
  have bare : CodePoint.char '_' ∉ t := fun mem => ne_of_isDecimal (h _ mem) (by decide) rfl
  rw [ungroup?_of_alnum ne bare fun c mem => values c mem ▸ h c mem]
  exact congrArg some (List.filterMap_congr values)

theorem resolveBase_ten (t : Text) : resolveBase 10 t = (10, t, false) := by
  cases t with
  | nil => rfl
  | cons c rest =>
    have unmarked (d : CodePoint) : baseOfMark? d ≠ some 10 := by
      unfold baseOfMark?
      split_ifs <;> simp
    have decimal : ¬(10 = 0) := by decide
    rw [resolveBase]
    by_cases leading : digitValue? c = some 0
    · rw [if_pos leading]
      cases mark : rest.head?.bind baseOfMark? with
      | none => simp only [if_neg decimal]
      | some marked =>
        obtain ⟨d, -, announced⟩ := Option.bind_eq_some_iff.mp mark
        have other : ¬(10 = marked ∨ 10 = 0) := by
          rintro (rfl | absurd)
          · exact unmarked d announced
          · exact decimal absurd
        simp only [if_neg other]
    · rw [if_neg leading, if_neg decimal]

/-- Digits behind a minus, or without one. -/
def signed (negative : Bool) (digits : Text) : Text := if negative then .char '-' :: digits else digits

theorem takeSign_signed {digits : Text} {c : CodePoint} (h : isDecimal c = true) (negative : Bool) :
    takeSign (signed negative (c :: digits)) = (negative, c :: digits) := by
  cases negative with
  | true => rfl
  | false =>
    rw [signed, if_neg (by decide)]
    unfold takeSign
    split
    · next same => exact absurd (List.cons.inj same).1 (ne_of_isDecimal h (by decide))
    · next same => exact absurd (List.cons.inj same).1 (ne_of_isDecimal h (by decide))
    · rfl

/-- Digits of any script are read as their value, behind a minus or not and with blanks around them,
unless there are too many. -/
theorem read_of_isDecimal {lead digits trail : Text} (before : ∀ c ∈ lead, isMargin c = true)
    (behind : ∀ c ∈ trail, isMargin c = true) (ne : digits ≠ []) (h : ∀ c ∈ digits, isDecimal c = true)
    (short : digits.length ≤ digitLimit) (negative : Bool) :
    read 10 (lead ++ (signed negative digits ++ trail))
      = .ok (if negative then -(digitsValue digits : Int) else digitsValue digits) := by
  obtain ⟨c, rest, rfl⟩ := List.exists_cons_of_ne_nil ne
  have first := h c List.mem_cons_self
  have start : Stops isMargin (signed negative (c :: rest) ++ trail) := by
    cases negative with
    | true => exact stops_cons.mpr (by decide)
    | false => exact stops_cons.mpr (by rw [isMargin, isBlank_of_isDecimal first, Bool.false_and])
  have sign : takeSign (signed negative (c :: rest) ++ trail) = (negative, c :: rest ++ trail) := by
    have same : signed negative (c :: rest) ++ trail = signed negative (c :: (rest ++ trail)) := by
      cases negative <;> rfl
    rw [same, takeSign_signed first]
    rfl
  have stop : Stops (isGrouped 10) trail := by
    intro d head
    have blank := isBlank_of_isMargin (behind d (List.mem_of_mem_head? head))
    have := forall_blank (P := fun c => !isGrouped 10 c) (by decide +kernel) blank
    simpa using this
  have grouped : ∀ d ∈ c :: rest, isGrouped 10 d = true := fun d mem => isGrouped_of_isDecimal (h d mem)
  have count : ¬digitLimit < ((c :: rest).filterMap digitValue?).length := by
    rw [length_filterMap_digitValue? h]
    omega
  have margin : trail.all isMargin = true := List.all_eq_true.mpr behind
  simp only [read, dropWhile_append_of_stops before start, sign, resolveBase_ten,
    takeWhile_append_of_stops grouped stop, dropWhile_append_of_stops grouped stop,
      ungroup?_of_isDecimal ne h, count,
    decide_false, margin]
  rfl

/-- A numeral that keeps the limit is read as the number that it was written for. -/
theorem read_natText (h : n < 10 ^ digitLimit) : read 10 (natText n) = .ok n := by
  have made := @read_of_isDecimal [] (natText n) [] (by simp) (by simp) (natText_ne_nil n)
    (fun c mem => isDecimal_of_isDigit (isDigit_natText mem)) (length_natText_le (by decide) h) false
  rw [List.nil_append, List.append_nil] at made
  exact made.trans (by rw [if_neg (by decide), digitsValue_natText])

theorem fits_iff {n : Int} : fits n = true ↔ n.natAbs < 10 ^ digitLimit := by
  unfold fits
  generalize digitLimit = limit
  rw [decide_eq_true_eq, Nat.pow_eq]

end SclNarrator.Numeral
