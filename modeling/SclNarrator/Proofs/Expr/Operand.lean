import SclNarrator.Proofs.Expr.Names
import SclNarrator.Proofs.Number.DecimalText

/-!
What stands for a leaf once the names are replaced: a string literal, or a number, a constant or a name,
perhaps behind a minus. The text of every value that can be written is such an operand, and the operand
has that value (`exists_operand_of_value`); so every leaf becomes an operand with the value that the
leaf has (`exists_operand`).
-/

namespace SclNarrator

inductive Constant where
  | true | false | null | infinity | nan

namespace Constant

def text : Constant → Text
  | true => "true".toText
  | false => "false".toText
  | null => "null".toText
  | infinity => "Infinity".toText
  | nan => "NaN".toText

def value : Constant → Value
  | true => .bool .true
  | false => .bool .false
  | null => .none
  | infinity => .float Double.infinity
  | nan => .float Double.nan

def ofBool (b : Bool) : Constant := if b then true else false

end Constant

/-- A number without sign that is read up to a space behind it, and its value. -/
structure NumberText where
  text : Text
  value : Value
  first : ∃ c rest, text = c :: rest ∧ c.isDigit = true
  chars : ∀ c ∈ text, Decimal.isDecimalChar c = true
  read : ∀ rest, Ends rest → Lexeme.number? (text ++ rest) = some (text, rest)
  valued : Token.numberValue text = .ok value
  tight : Decimal.MarksExponent text

/-- A number or a constant. Truth values stand apart because they are written in capitals before the
words are replaced. -/
inductive Core where
  | number (n : NumberText)
  | truth (b : Bool)
  | constant (c : Constant)

namespace Core

def text : Core → Text
  | number n => n.text
  | truth b => (if b then "TRUE" else "FALSE").toText
  | constant c => c.text

/-- How it is written once the words are replaced. -/
def symbol : Core → Text
  | truth b => (Constant.ofBool b).text
  | core => core.text

def shape : Core → TokenKind × Text
  | number n => (.number, n.text)
  | core => (.name, core.symbol)

def value : Core → Value
  | number n => n.value
  | truth b => .bool b
  | constant c => c.value

end Core

/-- What stands for a leaf, string literals apart: a number or a constant, perhaps behind a minus, or a
name. -/
inductive Operand where
  | signed (negative : Bool) (core : Core)
  | name (n : Term.Name)

namespace Operand

def text : Operand → Text
  | signed negative core => Decimal.signText negative ++ core.text
  | name n => n.text

/-- How it is written once the words are replaced. -/
def symbol : Operand → Text
  | signed negative core => Decimal.signText negative ++ core.symbol
  | name n => n.text

def shapes : Operand → List (TokenKind × Text)
  | signed negative core => (if negative then [(.op, "-".toText)] else []) ++ [core.shape]
  | name n => [(.name, n.text)]

def expr : Operand → Expr
  | signed true core => .unary .neg (.literal core.value)
  | signed false core => .literal core.value
  | name n => .variable n.text

end Operand

def Slot.shapes : Slot Operand → List (TokenKind × Text)
  | .literal q => [(.string, q)]
  | .code o => o.shapes

/-- The expression that is read from what stands for a leaf. -/
def Slot.expr : Slot Operand → Expr
  | .literal q => .literal (.text (Token.unquote q))
  | .code o => o.expr

def Slot.IsValid : Slot Operand → Prop
  | .literal q => Item.IsString q
  | .code _ => True

/-- Whether what stands for a leaf is a value as it is written: neither a name nor a truth value in
capitals. -/
def Slot.IsSource : Slot Operand → Prop
  | .literal q => Item.IsString q
  | .code (.signed _ (.truth _)) | .code (.name _) => False
  | .code (.signed _ (.number _)) | .code (.signed _ (.constant _)) => True

theorem Slot.IsSource.isValid {o : Slot Operand} (h : o.IsSource) : o.IsValid := by
  cases o with
  | literal q => exact h
  | code o => trivial

/-! ## Numbers -/

theorem Lexeme.number?_of_parts? {u rest : Text} {p : Decimal.Parts}
    (h : Decimal.parts? (u ++ rest) = some (p, rest)) : Lexeme.number? (u ++ rest) = some (u, rest) := by
  simp only [Lexeme.number?, h, Option.map_some, Lexeme.taken_left]

def NumberText.ofNat (n : Nat) (short : n < 10 ^ Numeral.digitLimit) : NumberText where
  text := Numeral.natText n
  value := .int n
  first := by
    have := @Decimal.first_digit (Numeral.natText n) [] (Numeral.natText_ne_nil n)
      fun c => Numeral.isDigit_natText
    rwa [List.append_nil] at this
  chars := Decimal.isDecimalChar_of_isDigit fun c => Numeral.isDigit_natText
  read rest ends := by
    apply Lexeme.number?_of_parts?
    rw [Decimal.parts?_whole (Numeral.natText_ne_nil n) (fun c => Numeral.isDigit_natText)
      (ends.stops (by decide)) fun same => absurd (ends _ same) (by decide),
      Decimal.exponentOf_of_head ⟨fun same => absurd (ends _ same) (by decide),
        fun same => absurd (ends _ same) (by decide)⟩]
  valued := by
    have unmarked : ((Numeral.natText n).any fun c => c == '.' || c == 'e' || c == 'E') = false := by
      rw [List.any_eq_false]
      intro c mem
      have := forall_digit (P := fun c => !(c == '.' || c == 'e' || c == 'E')) (by decide)
        (Numeral.isDigit_natText mem)
      simpa using this
    rw [Token.numberValue, unmarked, Numeral.read_natText short]
    rfl
  tight := Decimal.marksExponent_mantissa (Decimal.isMantissaChar_of_isDigit fun c => Numeral.isDigit_natText)

theorem exists_numberText_of_view {x : Float} {negative : Bool} {units : Nat}
    (h : Double.view x = .finite negative units) :
    ∃ (n : NumberText) (y : Float), n.text = Decimal.sizeText units ∧ n.value = .float y ∧
      Double.ofUnits? false units = some y := by
  obtain ⟨m, k, size, small, -⟩ := Double.bits_of_view h
  obtain ⟨v, reads, zero, near⟩ := Decimal.exists_readsAs_sizeText size
  have same := @Double.ofUnits?_eq units m k false size small
  refine ⟨⟨Decimal.sizeText units, .float _, reads.first, reads.chars, fun rest ends => ?_, ?_, reads.tight⟩,
    _, rfl, rfl, same⟩
  · obtain ⟨p, parts, -⟩ := reads.parts rest ends
    exact Lexeme.number?_of_parts? parts
  · obtain ⟨p, parts, value⟩ := reads.parts [] stops_nil
    rw [List.append_nil] at parts
    rw [Token.numberValue, reads.marked, Decimal.read_of_parts? parts reads.chars reads.first]
    simp only [if_true]
    rw [← Decimal.value_of_decimal size small same value zero near]
    rfl

/-! ## Texts -/

theorem unescape_escaped (t : Text) : Token.unquote.unescape (escaped t) = t := by
  induction t with
  | nil => rfl
  | cons c t ih =>
    rw [escaped_cons]
    split
    · next special =>
      have line : c ≠ '\n' := by
        rcases special with rfl | rfl <;> decide
      simp only [List.cons_append, List.nil_append, Token.unquote.unescape, if_neg line, ih]
    · next plain =>
      rw [not_or] at plain
      rw [List.singleton_append, Token.unquote.unescape, ih]
      exact fun _ _ same _ => plain.1 same

theorem unquote_quotedSource (t : Text) : Token.unquote (Value.quotedSource t) = t := by
  rw [quotedSource_eq, Token.unquote]
  simp [unescape_escaped]

theorem unquote_apostrophes (t : Text) : Token.unquote (.char '\'' :: t ++ [.char '\'']) = t := by
  simp [Token.unquote]

/-! ## Values -/

theorem exists_operand_of_float (x : Float) :
    ∃ o : Slot Operand, o.IsSource ∧ (Value.float x).source = .ok (o.text Operand.text) ∧
      ∀ env, o.expr.eval env = .ok (.float x) := by
  rw [Value.source]
  cases seen : Double.view x with
  | nan =>
    obtain rfl := Double.eq_nan_of_view seen
    exact ⟨.code (.signed false (.constant .nan)), trivial, rfl, fun _ => rfl⟩
  | infinite negative =>
    obtain rfl := Double.eq_infinityOf_of_view seen
    cases negative with
    | false => exact ⟨.code (.signed false (.constant .infinity)), trivial, rfl, fun _ => rfl⟩
    | true =>
      refine ⟨.code (.signed true (.constant .infinity)), trivial, rfl, fun env => ?_⟩
      show Except.ok (Value.float (-Double.infinity)) = _
      rw [Double.neg_infinity]
      rfl
  | finite negative units =>
    obtain ⟨n, y, text, value, units⟩ := exists_numberText_of_view seen
    refine ⟨.code (.signed negative (.number n)), trivial, ?_, fun env => ?_⟩
    · rw [Decimal.text_of_view seen, ← text]
      rfl
    · cases negative with
      | false =>
        have same := Double.ofUnits?_of_view seen
        rw [units] at same
        cases same
        simp [Slot.expr, Operand.expr, Core.value, value, Expr.eval]
      | true =>
        obtain ⟨z, same, neg⟩ := Double.exists_neg_eq_of_view seen
        rw [units] at same
        cases same
        subst neg
        simp only [Slot.expr, Operand.expr, Core.value, value]
        rfl

/-- Every value that can be written is written as an operand of that value. -/
theorem exists_operand_of_value {v : Value} (writable : v.isWritable = true) :
    ∃ o : Slot Operand, o.IsSource ∧ v.source = .ok (o.text Operand.text) ∧ ∀ env, o.expr.eval env =
      .ok v := by
  cases v with
  | none => exact ⟨.code (.signed false (.constant .null)), trivial, rfl, fun _ => rfl⟩
  | bool b =>
    refine ⟨.code (.signed false (.constant (.ofBool b))), trivial, ?_, fun env => ?_⟩
    · cases b <;> rfl
    · cases b <;> rfl
  | int n =>
    have fits : Numeral.fits n = true := writable
    have short (k : Nat) (same : n.natAbs = k) : k < 10 ^ Numeral.digitLimit :=
      same ▸ Numeral.fits_iff.mp fits
    rw [Value.source, Value.intText, if_pos fits]
    cases n with
    | ofNat k => exact ⟨.code (.signed false (.number (.ofNat k (short k rfl)))), trivial, rfl, fun _ => rfl⟩
    | negSucc k =>
      refine ⟨.code (.signed true (.number (.ofNat (k + 1) (short (k + 1) rfl)))), trivial, ?_, fun _ => rfl⟩
      rw [Numeral.text, if_pos (Int.negSucc_lt_zero k)]
      rfl
  | float x => exact exists_operand_of_float x
  | text t =>
    refine ⟨.literal (Value.quotedSource t), isString_quotedSource t, rfl, fun env => ?_⟩
    rw [Slot.expr, unquote_quotedSource, Expr.eval]
  | complex z => cases writable

/-! ## Leaves -/

def Leaf.expr : Leaf → Expr
  | .number n => .literal (.int n.value)
  | .truth b => .literal (.bool b)
  | .quoted t => .literal (.text t.text)
  | .name n => .variable n.text

/-- Every leaf becomes an operand with the value that the leaf has. A name that is not bound in its own
spelling stays. -/
theorem Leaf.exists_operand {env : Environment} (writable : env.Writable) (a : Leaf) :
    ∃ o : Slot Operand, o.IsValid ∧ a.replaced env = .ok (o.text Operand.text) ∧
      o.expr.eval env = a.expr.eval env ∧
      ∀ n, a = .name n → n.text ∉ env.names → o = .code (.name n) := by
  cases a with
  | number n =>
    refine ⟨.code (.signed false (.number (.ofNat n.value n.short))), trivial, rfl, rfl, ?_⟩
    rintro other ⟨⟩
  | truth b =>
    refine ⟨.code (.signed false (.truth b)), trivial, rfl, rfl, ?_⟩
    rintro other ⟨⟩
  | quoted t =>
    have plain : ∀ c ∈ t.text, c ≠ '\'' := by
      intro c mem
      have := List.all_eq_true.mp t.valid c mem
      rw [Term.isQuotable, Bool.and_eq_true, bne_iff_ne] at this
      exact this.1
    refine ⟨.literal (Leaf.quoted t).text, isString_apostrophes plain, rfl, ?_, ?_⟩
    · rw [Slot.expr, Leaf.text, unquote_apostrophes, Leaf.expr]
    · rintro other ⟨⟩
  | name n =>
    by_cases bound : n.text ∈ env.names
    · cases found : env.lookup n.text with
      | none =>
        -- A name without a value stands for zero.
        have short : 0 < 10 ^ Numeral.digitLimit := Nat.pow_pos (by decide)
        refine ⟨.code (.signed false (.number (.ofNat 0 short))), trivial, ?_, ?_, ?_⟩
        · rw [Leaf.replaced, if_pos (List.contains_iff_mem.mpr bound), Environment.source, found]
          rfl
        · rw [Leaf.expr, Expr.eval, found]
          rfl
        · rintro other ⟨⟩ absent
          exact absurd bound absent
      | some b =>
        have mem : b ∈ env.bindings := by
          obtain ⟨front, back, entries, -⟩ := List.lookup_eq_some_iff.mp found
          simp [Environment.bindings, entries]
        obtain ⟨o, written, source, value⟩ := exists_operand_of_value (writable.values b mem)
        refine ⟨o, written.isValid, ?_, ?_, ?_⟩
        · rw [Leaf.replaced, if_pos (List.contains_iff_mem.mpr bound), Environment.source, found]
          exact source
        · rw [value, Leaf.expr, Expr.eval, found]
        · rintro other ⟨⟩ absent
          exact absurd bound absent
    · refine ⟨.code (.name n), trivial, ?_, rfl, ?_⟩
      · rw [Leaf.replaced, if_neg (mt List.contains_iff_mem.mp bound)]
        rfl
      · rintro other ⟨⟩ -
        rfl

end SclNarrator
