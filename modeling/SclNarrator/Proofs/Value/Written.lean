import SclNarrator.Proofs.Except
import SclNarrator.Proofs.Value.Based
import SclNarrator.Value.Decode

/-!
Whole numbers and truth values as text.

What is proved:
  1. the text that is written for a whole number starts with that number (`leadingInt_text`), is taken
     for it when no type is known (`guess_text`) and announces no duration, so every type that reads
     numbers gives it back (`decode_text`). The same holds of truth values for the types that read
     these (`decode_truthText`);
  2. a whole number that is converted to a text comes back as itself if it can be written at all, and
     a truth value does if and only if it is true (`convertTwice_textual_iff`).

Correspondence (analyzer ↔ here):
  `coerce_type`                     ↔ `Value.convert`
  `decode_tag_value`, `guess_value` ↔ `Value.decode`, `Value.guess`
-/

namespace SclNarrator

open CodePoint (char)

namespace Numeral

variable {n : Int}

theorem text_eq_signed (n : Int) : text n = signed (decide (n < 0)) (natText n.natAbs) := by
  unfold text signed
  simp only [decide_eq_true_eq]

theorem takeSign_text (n : Int) : takeSign (text n) = (decide (n < 0), natText n.natAbs) := by
  obtain ⟨c, rest, digits⟩ := List.exists_cons_of_ne_nil (natText_ne_nil n.natAbs)
  have first : isDecimal c = true := by
    apply isDecimal_of_isDigit
    apply isDigit_natText (n := n.natAbs)
    rw [digits]
    exact List.mem_cons_self
  rw [text_eq_signed, digits, takeSign_signed first]

theorem natAbs_signed (n : Int) : (if decide (n < 0) then -(n.natAbs : Int) else n.natAbs) = n := by
  simp only [decide_eq_true_eq]
  split <;> omega

/-- What holds of the minus and of the digits holds of every character of a written number. -/
theorem forall_text {P : CodePoint → Bool} (minus : P '-' = true)
    (digits : (rangeMembers [(48, 57)]).all fun n => P (CodePoint.ofNat n)) : ∀ c ∈ text n, P c = true := by
  intro c mem
  rw [text_eq_signed, signed] at mem
  split at mem
  · obtain rfl | mem := List.mem_cons.mp mem
    · exact minus
    · exact forall_digit digits (isDigit_natText mem)
  · exact forall_digit digits (isDigit_natText mem)

theorem not_mem_text {c : CodePoint} (minus : c ≠ '-') (digit : c.isDigit = false) : c ∉ text n := by
  intro mem
  have ascii : (c == '-' || c.isDigit) = true :=
    forall_text (P := fun c => c == '-' || c.isDigit) (by decide) (by decide) c mem
  simp [digit, minus] at ascii

theorem trim_text (n : Int) : (text n).trim = text n := by
  apply Text.trim_of_visible
  intro c mem
  have visible := forall_text (P := fun c => !isBlank c) (by decide) (by decide) c mem
  simpa using visible

theorem ofDecimal_natText {k : Nat} (short : k < 10 ^ digitLimit) : ofDecimal (natText k) = .ok k := by
  have count : ¬digitLimit < (natText k).length := Nat.not_lt.mpr (length_natText_le (by decide) short)
  rw [ofDecimal, if_neg count]
  exact congrArg Except.ok (digitsValue_natText k)

theorem natAbs_least_lt : (1 - (10 ^ digitLimit : Nat) : Int).natAbs < 10 ^ digitLimit := by
  have positive : 0 < 10 ^ digitLimit := Nat.pow_pos (by decide)
  generalize 10 ^ digitLimit = bound at positive ⊢
  omega

end Numeral

namespace Literal

open Numeral

theorem behind?_of_not_mem {c : CodePoint} {mark t : Text} (mem : c ∈ mark) (lacks : c ∉ t)
    (ok : CodePoint → Bool) :
    behind? mark ok t = none := by
  rw [behind?]
  cases found : Text.dropPart? mark t with
  | none => rfl
  | some rest =>
    have whole := dropPart?_eq_some.mp found
    exact absurd (whole ▸ List.mem_append_left rest mem) lacks

theorem leading?_natText (k : Nat) : leading? (natText k) = some (.decimal (natText k)) := by
  have lacks {c : CodePoint} (other : c.isDigit = false) : c ∉ natText k := by
    intro mem
    rw [isDigit_natText mem] at other
    cases other
  have noMark {mark : Text} {c : CodePoint} (mem : c ∈ mark) (other : c.isDigit = false)
      (ok : CodePoint → Bool) :
      behind? mark ok (natText k) = none := behind?_of_not_mem mem (lacks other) ok
  have digits : (natText k).takeWhile isDecimal = natText k :=
    List.takeWhile_eq_self_iff.mpr fun c mem => isDecimal_of_isDigit (isDigit_natText mem)
  have nonempty : (natText k).isEmpty = false := by simpa using natText_ne_nil k
  rw [leading?, noMark (c := 'x') (by simp) (by decide), noMark (c := 'X') (by simp) (by decide),
    noMark (c := '#') (by simp) (by decide), noMark (c := '#') (by simp) (by decide),
    noMark (c := '#') (by simp) (by decide)]
  simp only [digits, nonempty, Bool.false_eq_true, if_false]

/-- The text of a whole number starts with that number. -/
theorem leadingInt_text {n : Int} (fits : n.natAbs < 10 ^ digitLimit) :
    leadingInt (text n) = .ok (some n) := by
  simp only [leadingInt, trim_text, takeSign_text, leading?_natText, ofDecimal_natText fits]
  exact congrArg (fun k => Except.ok (some k)) (natAbs_signed n)

end Literal

namespace Value

open Numeral

variable {n : Int} {type : Text}

/-! ## Decoding -/

theorem intText_of_fits (fits : n.natAbs < 10 ^ digitLimit) : intText n = .ok (Numeral.text n) := by
  rw [intText, if_pos (fits_iff.mpr fits)]

/-- The text of a whole number is taken for that number. -/
theorem guess_text (fits : n.natAbs < 10 ^ digitLimit) : guess (Numeral.text n) = .ok (.int n) := by
  have letters {word : Text} {c : CodePoint} (mem : c ∈ word) (minus : c ≠ '-') (digit : c.isDigit = false) :
      Numeral.text n ≠ word := fun same => not_mem_text minus digit (same ▸ mem)
  have notTrue : Numeral.text n ≠ "TRUE".toText := letters (c := 'T') (by decide) (by decide) (by decide)
  have notFalse : Numeral.text n ≠ "FALSE".toText := letters (c := 'F') (by decide) (by decide) (by decide)
  have whole : (!(natText n.natAbs).isEmpty && (natText n.natAbs).all isDecimal) = true := by
    have digits : ∀ c ∈ natText n.natAbs, isDecimal c = true :=
      fun c mem => isDecimal_of_isDigit (isDigit_natText mem)
    simpa [natText_ne_nil] using digits
  simp only [guess, trim_text, if_neg notTrue, if_neg notFalse, takeSign_text, whole,
    ofDecimal_natText fits, if_true]
  exact congrArg (fun k => Except.ok (Value.int k)) (natAbs_signed n)

theorem looksLikeDuration_text (n : Int) : looksLikeDuration (Numeral.text n) = false := by
  have small : (Numeral.text n).upper = Numeral.text n := by
    have own : ∀ c ∈ Numeral.text n, upperChar c = [c] := by
      intro c mem
      have same := forall_text (P := fun c => upperChar c == [c]) (by decide) (by decide) c mem
      exact beq_iff_eq.mp same
    rw [Text.upper, List.flatMap_congr own, List.flatMap_singleton']
  have sign : char '#' ∉ Numeral.text n := not_mem_text (by decide) (by decide)
  have away {mark : Text} (mem : char '#' ∈ mark) : Text.startsWith (Numeral.text n) mark = false := by
    rw [Text.startsWith]
    cases found : Text.dropPart? mark (Numeral.text n) with
    | none => rfl
    | some rest =>
      have whole := dropPart?_eq_some.mp found
      exact absurd (whole ▸ List.mem_append_left rest mem) sign
  simp only [looksLikeDuration, small, List.any_cons, List.any_nil]
  rw [away (by decide), away (by decide), away (by decide), away (by decide)]
  rfl

theorem leadingIntOrZero_text (fits : n.natAbs < 10 ^ digitLimit) :
    leadingIntOrZero (Numeral.text n) = .ok (.int n) := by
  rw [leadingIntOrZero, Literal.leadingInt_text fits]
  rfl

/-- The text of a whole number is decoded to that number, unless the type is one of truth values or
doubles. -/
theorem decode_text (fits : n.natAbs < 10 ^ digitLimit)
    (noTruth : (DataType.ofName? type).map DataType.family ≠ some .truth)
    (noDouble : (DataType.ofName? type).map DataType.family ≠ some .floating) :
    decode (Numeral.text n) type = .ok (.int n) := by
  rw [decode, trim_text]
  split
  · next truth => exact absurd truth noTruth
  · exact leadingIntOrZero_text fits
  · next double => exact absurd double noDouble
  · rw [looksLikeDuration_text]
    exact leadingIntOrZero_text fits
  · exact guess_text fits

def truthText (b : Bool) : Text := (if b then "TRUE" else "FALSE").toText

/-- The text of a truth value is decoded to that value, unless the type is one of numbers. -/
theorem decode_truthText (b : Bool) (noWhole : (DataType.ofName? type).map DataType.family ≠ some .whole)
    (noDouble : (DataType.ofName? type).map DataType.family ≠ some .floating)
    (noDuration : (DataType.ofName? type).map DataType.family ≠ some .duration) :
    decode (truthText b) type = .ok (.bool b) := by
  rw [decode]
  split
  · cases b <;> rfl
  · next whole => exact absurd whole noWhole
  · next double => exact absurd double noDouble
  · next duration => exact absurd duration noDuration
  · cases b <;> rfl

/-! ## Conversion to text and back -/

/-- The value after a conversion to a type and one to another. -/
def convertTwice (v : Value) (first second : Text) : Except Fault Value :=
  do (← v.convert first).convert second

variable {first second : Text}

theorem convert_bool_textual
    (textual : (DataType.ofName? first).map DataType.family = some .textual) (b : Bool) :
    convert (.bool b) first = .ok (.text (truthText b)) := by
  rw [convert, textual]
  rfl

theorem convert_int_textual (textual : (DataType.ofName? first).map DataType.family = some .textual)
    (n : Int) :
    convert (.int n) first = (intText n).map .text := by
  rw [convert, textual]
  simp only [shown]
  cases intText n <;> rfl

theorem convert_text_whole
    (whole : (DataType.ofName? second).map DataType.family ∈ [some .whole, some .duration])
    (fits : n.natAbs < 10 ^ digitLimit) : convert (.text (Numeral.text n)) second = .ok (.int n) := by
  simp only [List.mem_cons, List.not_mem_nil, or_false] at whole
  obtain whole | duration := whole
  · rw [convert, whole]
    simp only [Literal.leadingInt_text fits]
    rfl
  · rw [convert, duration]
    simp only [Literal.leadingInt_text fits]
    rfl

/-- **To a text and back.** A truth value that is converted to a text and back is itself if and only
if it is true, because every text but the empty one counts as true. A whole number is itself if and
only if it has no more digits than can be written. -/
theorem convertTwice_textual_iff (textual : (DataType.ofName? first).map DataType.family = some .textual) :
    ((DataType.ofName? second).map DataType.family = some .truth →
      ∀ b, convertTwice (.bool b) first second = .ok (.bool b) ↔ b = true) ∧
    ((DataType.ofName? second).map DataType.family ∈ [some .whole, some .duration] →
      ∀ n : Int, convertTwice (.int n) first second = .ok (.int n) ↔ n.natAbs < 10 ^ digitLimit) := by
  constructor
  · intro truth b
    have back : convert (.text (truthText b)) second = .ok (.bool true) := by
      rw [convert, truth]
      cases b <;> rfl
    rw [convertTwice, convert_bool_textual textual, ok_bind, back]
    simp [eq_comm]
  · intro whole n
    rw [convertTwice, convert_int_textual textual, ← fits_iff, intText]
    by_cases fits : fits n = true
    · rw [if_pos fits]
      exact iff_of_true (convert_text_whole whole (fits_iff.mp fits)) fits
    · rw [if_neg fits]
      exact iff_of_false (fun same => by cases same) fits

/-- The least whole number that can be written comes back from its text, and so does a truth value
that is true. -/
theorem convertTwice_textual_iff_least :
    (DataType.ofName? "STRING".toText).map DataType.family = some .textual ∧
      (DataType.ofName? "BOOL".toText).map DataType.family = some .truth ∧
      (DataType.ofName? "DINT".toText).map DataType.family ∈ [some .whole, some .duration] ∧
      convertTwice (.bool true) "STRING".toText "BOOL".toText = .ok (.bool true) ∧
      convertTwice (.int (1 - (10 ^ digitLimit : Nat))) "STRING".toText "DINT".toText =
        .ok (.int (1 - (10 ^ digitLimit : Nat))) := by
  have textual : (DataType.ofName? "STRING".toText).map DataType.family = some .textual := by decide
  have truth : (DataType.ofName? "BOOL".toText).map DataType.family = some .truth := by decide
  have whole : (DataType.ofName? "DINT".toText).map DataType.family ∈
      [some .whole, some .duration] := by decide
  refine ⟨textual, truth, whole, ?_, ?_⟩
  · exact ((convertTwice_textual_iff textual).1 truth true).mpr rfl
  · exact ((convertTwice_textual_iff textual).2 whole _).mpr natAbs_least_lt

/-- The text of the truth value that is false converts to the one that is true. -/
theorem convertTwice_false :
    (convertTwice (.bool false) "STRING".toText "BOOL".toText).toOption = some (.bool true) := by
  decide +kernel

end Value
end SclNarrator
