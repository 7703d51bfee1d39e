import SclNarrator.Proofs.Number.Shortest

/-!
Decimals as text. A scientific decimal that is written out is read to its end, as the same number
(`readsAs_text`); so the text of the size of a finite double reads back as the double of that size
(`value_of_decimal`).
-/

namespace SclNarrator.Decimal

variable {whole fraction rest : Text}

/-- The exponent that is read behind the digits of a number; zero if there is none. -/
def exponentOf (rest : Text) : Int × Text := (exponent? rest).getD (0, rest)

theorem isDecimal_of_isDigit (h : ∀ c ∈ whole, c.isDigit = true) : ∀ c ∈ whole, isDecimal c = true :=
  fun c mem => Numeral.isDecimal_of_isDigit (h c mem)

theorem parts?_point (ne : whole ≠ []) (hw : ∀ c ∈ whole, c.isDigit = true)
    (hf : ∀ c ∈ fraction, c.isDigit = true) (stop : Stops isDecimal rest) :
    parts? (whole ++ .char '.' :: (fraction ++ rest))
      = some (⟨whole, fraction, (exponentOf rest).1⟩, (exponentOf rest).2) := by
  have point : Stops isDecimal (.char '.' :: (fraction ++ rest)) := stops_cons.mpr (by decide)
  have notEmpty : whole.isEmpty = false := by simp [ne]
  unfold parts?
  rw [takeWhile_append_of_stops (isDecimal_of_isDigit hw) point,
    dropWhile_append_of_stops (isDecimal_of_isDigit hw) point]
  simp only [takeWhile_append_of_stops (isDecimal_of_isDigit hf) stop,
    dropWhile_append_of_stops (isDecimal_of_isDigit hf) stop, notEmpty, Bool.false_and,
    Option.getD_some, exponentOf]
  cases exponent? rest <;> rfl

theorem parts?_whole (ne : whole ≠ []) (hw : ∀ c ∈ whole, c.isDigit = true)
    (stop : Stops isDecimal rest) (point : rest.head? ≠ some (.char '.')) :
    parts? (whole ++ rest)
      = some (⟨whole, [], (exponentOf rest).1⟩, (exponentOf rest).2) := by
  have notEmpty : whole.isEmpty = false := by simp [ne]
  unfold parts?
  rw [takeWhile_append_of_stops (isDecimal_of_isDigit hw) stop,
    dropWhile_append_of_stops (isDecimal_of_isDigit hw) stop]
  split
  next found after behind =>
  split at behind
  · exact absurd rfl point
  · cases behind
    simp only [notEmpty, Bool.false_and, Option.getD_none, exponentOf]
    cases exponent? rest <;> rfl

theorem exponentOf_of_head (h : rest.head? ≠ some (.char 'e') ∧ rest.head? ≠ some (.char 'E')) :
    exponentOf rest = (0, rest) := by
  cases rest with
  | nil => rfl
  | cons c rest =>
    have other : ¬(c = .char 'e' ∨ c = .char 'E') := by simpa using h
    unfold exponentOf exponent?
    simp only [if_neg other]
    rfl

theorem exponentOf_signed (negative : Bool) {size : Text} (ne : size ≠ [])
    (digits : ∀ c ∈ size, c.isDigit = true) (stop : Stops isDecimal rest) :
    exponentOf (.char 'e' :: (if negative then .char '-' else .char '+') :: (size ++ rest))
      = (if negative then -(Numeral.digitsValue size : Int) else Numeral.digitsValue size, rest) := by
  have notEmpty : size.isEmpty = false := by simp [ne]
  have taken := takeWhile_append_of_stops (isDecimal_of_isDigit digits) stop
  have left := dropWhile_append_of_stops (isDecimal_of_isDigit digits) stop
  cases negative <;>
    simp [exponentOf, exponent?, taken, left, ne, Numeral.digitsValue]

def isDecimalChar (c : CodePoint) : Bool := c.isDigit || c == '.' || c == 'e' || c == '+' || c == '-'

/-- Whether a character can stand before the mark of an exponent. -/
def isMantissaChar (c : CodePoint) : Bool := c.isDigit || c == '.'

/-- Whether the mark of an exponent stands in a text only behind a digit or a point. -/
def MarksExponent (t : Text) : Prop := t.IsChain fun c d => d = .char 'e' → isMantissaChar c = true

/-- Whether a text is a decimal of some value, with a point or an exponent, that is read up to a space
behind it. -/
structure ReadsAs (t : Text) (value : ℚ) : Prop where
  parts : ∀ rest, Ends rest → ∃ p : Parts, parts? (t ++ rest) = some (p, rest) ∧
    decimal (Numeral.digitsValue (p.whole ++ p.fraction)) (p.exponent - p.fraction.length) = value
  marked : (t.any fun c => c == '.' || c == 'e' || c == 'E') = true
  chars : ∀ c ∈ t, isDecimalChar c = true
  first : ∃ c rest, t = c :: rest ∧ c.isDigit = true
  tight : MarksExponent t

theorem ungroup?_of_not_mem {t : Text} (h : .char '_' ∉ t) (behindDigit : Bool) :
    ungroup? behindDigit t = some t := by
  induction t generalizing behindDigit with
  | nil => rfl
  | cons c t ih =>
    rw [List.mem_cons, not_or] at h
    rw [ungroup?, if_neg (Ne.symm h.1), ih h.2]
    rfl

theorem read_of_parts? {t : Text} {p : Parts} (h : parts? t = some (p, []))
    (chars : ∀ c ∈ t, isDecimalChar c = true) (first : ∃ c rest, t = c :: rest ∧ c.isDigit = true) :
    read t = .ok (p.value false) := by
  obtain ⟨c, rest, rfl, digit⟩ := first
  have margin : Numeral.isMargin c = false := by
    simpa using forall_digit (P := fun c => !Numeral.isMargin c) (by decide) digit
  have bare : .char '_' ∉ c :: rest := fun mem => absurd (chars _ mem) (by decide)
  have unsigned : Numeral.takeSign (c :: rest) = (false, c :: rest) := by
    have plus : c ≠ '+' := by rintro rfl; cases digit
    have minus : c ≠ '-' := by rintro rfl; cases digit
    unfold Numeral.takeSign
    split
    · next same => exact absurd (List.cons.inj same).1 minus
    · next same => exact absurd (List.cons.inj same).1 plus
    · rfl
  rw [read, List.dropWhile_cons_of_neg (by simp [margin]), ungroup?_of_not_mem bare]
  simp only [unsigned, h, List.all_nil, if_true]

theorem any_mark {a b : Text} {c : CodePoint} (h : (c == '.' || c == 'e' || c == 'E') = true) :
    ((a ++ c :: b).any fun c => c == '.' || c == 'e' || c == 'E') = true :=
  List.any_eq_true.mpr ⟨c, by simp, h⟩

theorem first_digit {a b : Text} (ne : a ≠ []) (h : ∀ c ∈ a, c.isDigit = true) :
    ∃ c rest, a ++ b = c :: rest ∧ c.isDigit = true := by
  obtain ⟨c, rest, rfl⟩ := List.exists_cons_of_ne_nil ne
  exact ⟨c, rest ++ b, rfl, h c List.mem_cons_self⟩

theorem isDecimalChar_of_isDigit {t : Text} (h : ∀ c ∈ t, c.isDigit = true) :
    ∀ c ∈ t, isDecimalChar c = true := by
  intro c mem
  simp [isDecimalChar, h c mem]

theorem isDecimalChar_append {a b : Text} (ha : ∀ c ∈ a, isDecimalChar c = true)
    (hb : ∀ c ∈ b, isDecimalChar c = true) : ∀ c ∈ a ++ b, isDecimalChar c = true :=
  fun c mem => (List.mem_append.mp mem).elim (ha c) (hb c)

theorem isDecimalChar_cons {c : CodePoint} {t : Text} (hc : isDecimalChar c = true)
    (ht : ∀ c ∈ t, isDecimalChar c = true) : ∀ d ∈ c :: t, isDecimalChar d = true :=
  List.forall_mem_cons.mpr ⟨hc, ht⟩

theorem isMantissaChar_of_isDigit {t : Text} (h : ∀ c ∈ t, c.isDigit = true) :
    ∀ c ∈ t, isMantissaChar c = true := by
  intro c mem
  simp [isMantissaChar, h c mem]

theorem isMantissaChar_point (hw : ∀ c ∈ whole, c.isDigit = true) (hf : ∀ c ∈ fraction, c.isDigit = true) :
    ∀ c ∈ whole ++ .char '.' :: fraction, isMantissaChar c = true := by
  intro c mem
  rcases List.mem_append.mp mem with digit | later
  · exact isMantissaChar_of_isDigit hw c digit
  · rcases List.mem_cons.mp later with rfl | digit
    · decide
    · exact isMantissaChar_of_isDigit hf c digit

theorem marksExponent_mantissa {t : Text} (h : ∀ c ∈ t, isMantissaChar c = true) : MarksExponent t := by
  induction t with
  | nil => exact .nil
  | cons c t ih =>
    obtain ⟨here, later⟩ := List.forall_mem_cons.mp h
    exact List.isChain_cons.mpr ⟨fun _ _ _ => here, ih later⟩

theorem readsAs_point (ne : whole ≠ []) (hw : ∀ c ∈ whole, c.isDigit = true)
    (hf : ∀ c ∈ fraction, c.isDigit = true) :
    ReadsAs (whole ++ .char '.' :: fraction)
      (decimal (Numeral.digitsValue (whole ++ fraction)) (-fraction.length)) where
  parts rest stop := by
    have mark : rest.head? ≠ some (.char 'e') ∧ rest.head? ≠ some (.char 'E') :=
      ⟨fun same => absurd (stop _ same) (by decide), fun same => absurd (stop _ same) (by decide)⟩
    refine ⟨⟨whole, fraction, 0⟩, ?_, by simp⟩
    rw [List.append_assoc, List.cons_append, parts?_point ne hw hf (stop.stops (by decide)),
      exponentOf_of_head mark]
  marked := any_mark (by decide)
  chars := isDecimalChar_append (isDecimalChar_of_isDigit hw)
    (isDecimalChar_cons (by decide) (isDecimalChar_of_isDigit hf))
  first := first_digit ne hw
  tight := marksExponent_mantissa (isMantissaChar_point hw hf)

variable {size : Text} {negative : Bool}

/-- The sign and the digits of an exponent, behind its mark. -/
def exponentText (negative : Bool) (size : Text) : Text :=
  .char 'e' :: (if negative then .char '-' else .char '+') :: size

def exponentValue (negative : Bool) (size : Text) : Int :=
  if negative then -(Numeral.digitsValue size : Int) else Numeral.digitsValue size

theorem isDecimalChar_exponentText (hs : ∀ c ∈ size, c.isDigit = true) :
    ∀ c ∈ exponentText negative size, isDecimalChar c = true := by
  refine isDecimalChar_cons (by decide) (isDecimalChar_cons ?_ (isDecimalChar_of_isDigit hs))
  cases negative <;> decide

theorem marksExponent_append {t : Text} (h : ∀ c ∈ t, isMantissaChar c = true)
    (hs : ∀ c ∈ size, c.isDigit = true) : MarksExponent (t ++ exponentText negative size) := by
  have digits : MarksExponent ((if negative then .char '-' else .char '+') :: size) := by
    refine List.isChain_cons.mpr ⟨?_, marksExponent_mantissa (isMantissaChar_of_isDigit hs)⟩
    rintro d head rfl
    exact absurd (hs _ (List.mem_of_mem_head? head)) (by decide)
  refine List.isChain_append.mpr ⟨marksExponent_mantissa h, List.isChain_cons.mpr ⟨?_, digits⟩, ?_⟩
  · rintro d head rfl
    cases negative <;> simp at head
  · rintro c last d - -
    exact h c (List.mem_of_mem_getLast? last)

theorem readsAs_exponent (ne : whole ≠ []) (hw : ∀ c ∈ whole, c.isDigit = true) (sizeNe : size ≠ [])
    (hs : ∀ c ∈ size, c.isDigit = true) :
    ReadsAs (whole ++ exponentText negative size)
      (decimal (Numeral.digitsValue whole) (exponentValue negative size)) where
  parts rest stop := by
    refine ⟨⟨whole, [], exponentValue negative size⟩, ?_, by simp⟩
    have mark : Stops isDecimal (exponentText negative size ++ rest) := stops_cons.mpr (by decide)
    rw [List.append_assoc, parts?_whole ne hw mark (by simp [exponentText])]
    rw [exponentText, List.cons_append, List.cons_append,
      exponentOf_signed negative sizeNe hs (stop.stops (by decide))]
    rfl
  marked := any_mark (by decide)
  chars := isDecimalChar_append (isDecimalChar_of_isDigit hw) (isDecimalChar_exponentText hs)
  first := first_digit ne hw
  tight := marksExponent_append (isMantissaChar_of_isDigit hw) hs

theorem readsAs_point_exponent (ne : whole ≠ []) (hw : ∀ c ∈ whole, c.isDigit = true)
    (hf : ∀ c ∈ fraction, c.isDigit = true) (sizeNe : size ≠ []) (hs : ∀ c ∈ size, c.isDigit = true) :
    ReadsAs (whole ++ .char '.' :: (fraction ++ exponentText negative size))
      (decimal (Numeral.digitsValue (whole ++ fraction))
        (exponentValue negative size - fraction.length)) where
  parts rest stop := by
    refine ⟨⟨whole, fraction, exponentValue negative size⟩, ?_, rfl⟩
    have mark : Stops isDecimal (exponentText negative size ++ rest) := stops_cons.mpr (by decide)
    rw [List.append_assoc, List.cons_append, List.append_assoc, parts?_point ne hw hf mark]
    rw [exponentText, List.cons_append, List.cons_append,
      exponentOf_signed negative sizeNe hs (stop.stops (by decide))]
    rfl
  marked := any_mark (by decide)
  chars := isDecimalChar_append (isDecimalChar_of_isDigit hw)
    (isDecimalChar_cons (by decide)
      (isDecimalChar_append (isDecimalChar_of_isDigit hf) (isDecimalChar_exponentText hs)))
  first := first_digit ne hw
  tight := by
    have tight := @marksExponent_append size negative _ (isMantissaChar_point hw hf) hs
    rwa [List.append_assoc, List.cons_append] at tight

/-! ## The texts of scientific decimals -/

theorem isDigit_append {a b : Text} (ha : ∀ c ∈ a, c.isDigit = true) (hb : ∀ c ∈ b, c.isDigit = true) :
    ∀ c ∈ a ++ b, c.isDigit = true :=
  fun c mem => (List.mem_append.mp mem).elim (ha c) (hb c)

theorem decimal_mul_pow (n j : Nat) (e : Int) : decimal (n * 10 ^ j) e = decimal n (j + e) := by
  rw [decimal, decimal, zpow_add₀ (by norm_num), zpow_natCast]
  push_cast
  ring

section Written

variable {d : Scientific} (ne : d.digits ≠ []) (digits : ∀ c ∈ d.digits, c.isDigit = true)
include ne digits

theorem readsAs_padded (nonneg : 0 ≤ d.exponent) (fits : d.digits.length ≤ d.exponent.toNat + 1) :
    ReadsAs (d.digits ++ zeros (d.exponent.toNat + 1 - d.digits.length) ++ ".0".toText) d.decimal := by
  have padded := isDigit_append digits
    (Numeral.isDigit_zeros (d.exponent.toNat + 1 - d.digits.length))
  have last : ∀ c ∈ ("0".toText : Text), c.isDigit = true := by decide
  have read := readsAs_point (by simp [ne]) padded last
  have value : Numeral.digitsValue (d.digits ++ List.replicate (d.exponent.toNat + 1 - d.digits.length)
      (.char '0') ++ "0".toText)
        = Numeral.digitsValue d.digits * 10 ^ (d.exponent.toNat + 1 - d.digits.length + 1) := by
    rw [Numeral.digitsValue_append last, Numeral.digitsValue_append (Numeral.isDigit_zeros _),
      Numeral.digitsValue_zeros, List.length_replicate, Nat.pow_succ, ← Nat.mul_assoc]
    rfl
  rw [value, decimal_mul_pow] at read
  rw [Scientific.decimal]
  have exponent : ((d.exponent.toNat + 1 - d.digits.length + 1 : Nat) : Int)
      + -(("0".toText : Text).length : Int) = d.exponent + 1 - d.digits.length := by
    have : ("0".toText : Text).length = 1 := rfl
    omega
  rw [← exponent]
  exact read

theorem readsAs_pointed (nonneg : 0 ≤ d.exponent) (more : d.exponent.toNat + 1 < d.digits.length) :
    ReadsAs (d.digits.take (d.exponent.toNat + 1) ++ ".".toText
      ++ d.digits.drop (d.exponent.toNat + 1)) d.decimal := by
  have front : ∀ c ∈ d.digits.take (d.exponent.toNat + 1), c.isDigit = true :=
    fun c mem => digits c (List.mem_of_mem_take mem)
  have back : ∀ c ∈ d.digits.drop (d.exponent.toNat + 1), c.isDigit = true :=
    fun c mem => digits c (List.mem_of_mem_drop mem)
  have read := readsAs_point (by simp [ne]) front back
  rw [List.take_append_drop, List.length_drop] at read
  have exponent : -((d.digits.length - (d.exponent.toNat + 1) : Nat) : Int)
      = d.exponent + 1 - d.digits.length := by omega
  rw [exponent] at read
  rw [List.append_assoc]
  exact read

omit ne in
theorem readsAs_small (neg : d.exponent < 0) :
    ReadsAs ("0.".toText ++ zeros ((-d.exponent).toNat - 1) ++ d.digits) d.decimal := by
  have fraction := isDigit_append (Numeral.isDigit_zeros ((-d.exponent).toNat - 1)) digits
  have first : ∀ c ∈ ("0".toText : Text), c.isDigit = true := by decide
  have read := readsAs_point (by decide) first fraction
  have value : Numeral.digitsValue ("0".toText
      ++ (List.replicate ((-d.exponent).toNat - 1) (.char '0') ++ d.digits))
        = Numeral.digitsValue d.digits := by
    have zero : Numeral.digitsValue "0".toText = 0 := rfl
    rw [Numeral.digitsValue_append fraction, Numeral.digitsValue_append digits,
      Numeral.digitsValue_zeros, zero, Nat.zero_mul, Nat.zero_mul, Nat.zero_add, Nat.zero_add]
  have exponent : -((List.replicate ((-d.exponent).toNat - 1) (CodePoint.char '0') ++ d.digits).length
      : Int) = d.exponent + 1 - d.digits.length := by
    rw [List.length_append, List.length_replicate]
    omega
  rw [value, exponent] at read
  rw [List.append_assoc]
  exact read

theorem readsAs_scientific {negative : Bool} {size : Text} (sizeNe : size ≠ [])
    (hs : ∀ c ∈ size, c.isDigit = true) (same : exponentValue negative size = d.exponent) :
    ReadsAs ((if d.digits.length ≤ 1 then d.digits
      else d.digits.take 1 ++ ".".toText ++ d.digits.drop 1) ++ exponentText negative size) d.decimal := by
  have length := List.length_pos_iff.mpr ne
  split
  · next single =>
    have read := @readsAs_exponent _ _ negative ne digits sizeNe hs
    have exponent : exponentValue negative size = d.exponent + 1 - d.digits.length := by omega
    rwa [exponent] at read
  · next several =>
    have front : ∀ c ∈ d.digits.take 1, c.isDigit = true :=
      fun c mem => digits c (List.mem_of_mem_take mem)
    have back : ∀ c ∈ d.digits.drop 1, c.isDigit = true :=
      fun c mem => digits c (List.mem_of_mem_drop mem)
    have read := @readsAs_point_exponent _ _ _ negative (by simp [ne]) front back sizeNe hs
    have exponent : exponentValue negative size - (d.digits.length - 1 : Nat)
        = d.exponent + 1 - d.digits.length := by omega
    rw [List.take_append_drop, List.length_drop, exponent] at read
    rw [List.append_assoc, List.append_assoc]
    exact read

end Written

def exponentDigits (e : Int) : Text :=
  if (Numeral.natText e.natAbs).length < 2 then .char '0' :: Numeral.natText e.natAbs
  else Numeral.natText e.natAbs

theorem isDigit_exponentDigits (e : Int) : ∀ c ∈ exponentDigits e, c.isDigit = true := by
  have plain : ∀ c ∈ Numeral.natText e.natAbs, c.isDigit = true := fun c => Numeral.isDigit_natText
  unfold exponentDigits
  split
  · exact isDigit_append (Numeral.isDigit_zeros 1) plain
  · exact plain

theorem exponentDigits_ne_nil (e : Int) : exponentDigits e ≠ [] := by
  unfold exponentDigits
  split
  · exact List.cons_ne_nil _ _
  · exact Numeral.natText_ne_nil _

theorem exponentValue_exponentDigits (e : Int) :
    exponentValue (decide (e < 0)) (exponentDigits e) = e := by
  have plain : ∀ c ∈ Numeral.natText e.natAbs, c.isDigit = true := fun c => Numeral.isDigit_natText
  have value : Numeral.digitsValue (exponentDigits e) = e.natAbs := by
    unfold exponentDigits
    split
    · have zero : Numeral.digitsValue [.char '0'] = 0 := rfl
      have := @Numeral.digitsValue_append [.char '0'] _ plain
      rwa [Numeral.digitsValue_natText, zero, Nat.zero_mul, Nat.zero_add] at this
    · exact Numeral.digitsValue_natText _
  rw [exponentValue, value]
  split
  · next neg => simp only [decide_eq_true_eq] at neg; omega
  · next nonneg => simp only [decide_eq_true_eq] at nonneg; omega

/-- A scientific decimal that is written out reads as itself. -/
theorem Scientific.readsAs_text {d : Scientific} (ne : d.digits ≠ [])
    (digits : ∀ c ∈ d.digits, c.isDigit = true) : ReadsAs d.text d.decimal := by
  simp only [Scientific.text]
  split
  · next range =>
    split
    · next fits => exact readsAs_padded ne digits range.1 fits
    · next more => exact readsAs_pointed ne digits range.1 (by omega)
  · split
    · next range => exact readsAs_small digits range.2
    · have read := readsAs_scientific ne digits (exponentDigits_ne_nil d.exponent)
        (isDigit_exponentDigits d.exponent) (exponentValue_exponentDigits d.exponent)
      have sign : (if d.exponent < 0 then "e-" else "e+").toText ++ exponentDigits d.exponent
          = exponentText (decide (d.exponent < 0)) (exponentDigits d.exponent) := by
        by_cases neg : d.exponent < 0 <;> simp [neg, exponentText] <;> rfl
      rw [← sign] at read
      rw [List.append_assoc]
      exact read

/-! ## The texts of doubles -/

open Double

variable {units m k : Nat}

def sizeText (units : Nat) : Text := if units = 0 then "0.0".toText else (shortest units).text

theorem text_of_view {x : Float} {negative : Bool} (h : view x = .finite negative units) :
    text x = signText negative ++ sizeText units := by
  rw [text, h]
  rfl

theorem digits_shortest (size : IsSize units m k) (pos : 0 < m) :
    (shortest units).digits ≠ [] ∧ ∀ c ∈ (shortest units).digits, c.isDigit = true := by
  obtain ⟨digits, near⟩ := roundsTo_shortest size pos
  refine ⟨fun empty => ?_, digits⟩
  have least := half_le_of_roundsTo pos near
  have value : Numeral.digitsValue [] = 0 := rfl
  rw [Scientific.decimal, empty, value, decimal, Nat.cast_zero, zero_mul, zero_mul] at least
  exact absurd least (by norm_num)

theorem exists_readsAs_sizeText (size : IsSize units m k) :
    ∃ v, ReadsAs (sizeText units) v ∧ (m = 0 → v = 0) ∧ (0 < m → RoundsTo m k (v * one)) := by
  have empty : units = 0 ↔ m = 0 := by
    rw [size.eq, Nat.mul_eq_zero]
    have := Nat.two_pow_pos k
    omega
  unfold sizeText
  split
  · next zero =>
    have digit : ∀ c ∈ ("0".toText : Text), c.isDigit = true := by decide
    have read := readsAs_point (by decide) digit digit
    have value : Numeral.digitsValue ("0".toText ++ "0".toText) = 0 := rfl
    rw [value, decimal, Nat.cast_zero, zero_mul] at read
    exact ⟨0, read, fun _ => rfl, fun pos => by omega⟩
  · next nonzero =>
    have pos : 0 < m := by omega
    obtain ⟨ne, digits⟩ := digits_shortest size pos
    have near := (roundsTo_shortest size pos).2
    exact ⟨_, Scientific.readsAs_text ne digits, fun zero => absurd zero pos.ne', fun _ => near⟩

/-- The text of a size reads back as the double of that size. -/
theorem value_of_decimal {y : Float} {n : Nat} {e : Int} {v : ℚ} (size : IsSize units m k)
    (small : k < 2046) (same : ofUnits? false units = some y) (value : decimal n e = v)
    (zero : m = 0 → v = 0) (near : 0 < m → RoundsTo m k (v * one)) : nearest false n e = y := by
  rcases Nat.eq_zero_or_pos m with isZero | pos
  · have empty : n = 0 := by
      rw [zero isZero, decimal] at value
      have := (mul_eq_zero.mp value).resolve_right (ten_zpow_pos e).ne'
      exact_mod_cast this
    have nothing : units = 0 := by rw [size.eq, isZero, Nat.zero_mul]
    rw [nothing] at same
    rw [nearest, if_pos (.inl empty), same, Option.getD_some]
  · exact nearest_eq size small pos same (value ▸ near pos)

end SclNarrator.Decimal
