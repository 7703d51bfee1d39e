import SclNarrator.Expr.Parse
import SclNarrator.Function.Standard
import SclNarrator.Number.Double
import SclNarrator.Run.Environment

/-!
The value of an expression, as a tree and as text.

Correspondence (analyzer ↔ here):
  `_require_value`, `_require_number` ↔ `Value.present`, `Value.operand`
  `_strict_equal`                     ↔ `Value.equals`
  `_apply_binop`, `_eval_unary`       ↔ `Value.binary`, `Value.unary`
  `_eval_function_call`               ↔ `callFunction`
  `_eval`                             ↔ `Expr.eval`
  `ExpressionEvaluator.evaluate`      ↔ `Environment.evaluate`
-/

namespace SclNarrator

/-! ## Trees

The value of an expression in an environment. All operands are evaluated, the left one first, and an
operand without a value makes the whole fail. A variable that is not bound is zero. -/

namespace Value

def present : Value → Except Fault Value
  | none => .error .noValue
  | v => .ok v

def operand (op : Operator) (v : Value) : Except Fault Number :=
  match v.number? with
  | some n => .ok n
  | Option.none => .error (.needsNumbers op v.kindName)

def arithmetic (op : BinaryOp) (f : Number → Number → Except Fault Number) (a b : Value) :
    Except Fault Value := do
  let x ← a.operand (.binary op)
  let y ← b.operand (.binary op)
  return ofNumber (← f x y)

/-- The conjunction: of bits for whole numbers, and else of truth. -/
def conjunction : Value → Value → Value
  | int m, int n => int (Bits.and m n)
  | a, b => bool (a.truthy && b.truthy)

/-- The disjunction: of bits for whole numbers, and else of truth. -/
def disjunction : Value → Value → Value
  | int m, int n => int (Bits.or m n)
  | a, b => bool (a.truthy || b.truthy)

/-- Whether two values are equal: numbers by their size, texts, truth values and complex numbers among
themselves. A truth value equals no number. -/
def equals : Value → Value → Bool
  | bool a, bool b => a == b
  | bool _, _ => false
  | _, bool _ => false
  | text s, text t => s == t
  | complex z, complex w => z.same w
  | none, none => true
  | a, b => match a.number?, b.number? with
    | some m, some n => m.same n
    | _, _ => false

/-- Whether two values are in one of some orders. A text has no order with anything else. -/
def ordered (accepts : Ordering → Bool) (a b : Value) : Except Fault Value :=
  let mismatch : Except Fault Value := do .error (.incomparable (← a.quoted) (← b.quoted))
  match a, b with
  | text s, text t => do return bool ((← order? (text s) (text t)).any accepts)
  | text _, _ => mismatch
  | _, text _ => mismatch
  | a, b => do return bool ((← order? a b).any accepts)

def binary : BinaryOp → Value → Value → Except Fault Value
  | .add, text s, text t => .ok (text (s ++ t))
  | .add, a, b => arithmetic .add Number.add a b
  | .sub, a, b => arithmetic .sub Number.sub a b
  | .mul, a, b => arithmetic .mul Number.mul a b
  | .div, a, b => arithmetic .div Number.div a b
  | .mod, a, b => arithmetic .mod Number.mod a b
  | .and, a, b => .ok (conjunction a b)
  | .or, a, b => .ok (disjunction a b)
  | .eq, a, b => .ok (bool (equals a b))
  | .ne, a, b => .ok (bool (!equals a b))
  | .gt, a, b => ordered (· == .gt) a b
  | .ge, a, b => ordered (· != .lt) a b
  | .lt, a, b => ordered (· == .lt) a b
  | .le, a, b => ordered (· != .gt) a b

def unary : UnaryOp → Value → Except Fault Value
  | .neg, a => do return ofNumber (← a.operand (.unary .neg)).neg
  | .not, int n => .ok (int (Bits.not n))
  | .not, a => .ok (bool !a.truthy)

end Value

/-- The target type of a conversion function such as `INT_TO_REAL`: capitals, `_TO_`, capitals, and
perhaps a line end. -/
def conversionTarget? (name : Text) : Option Text :=
  let source := name.takeWhile CodePoint.isUpper
  match Text.dropPart? "_TO_".toText (name.dropWhile CodePoint.isUpper) with
  | none => none
  | some rest =>
    let target := rest.takeWhile CodePoint.isUpper
    let after := rest.dropWhile CodePoint.isUpper
    if source.isEmpty || target.isEmpty || !(after.isEmpty || after == "\n".toText) then none
    else some target

/-- The result of a call by name: a standard function or a conversion. -/
def callFunction (name : Text) (args : List Value) : Except Fault Value :=
  match StandardFunction.ofName? name with
  | some f => f.apply args
  | none =>
    match conversionTarget? name with
    | none => .error (.unknownFunction name)
    | some target =>
      match args with
      | [v] => v.convert target
      | _ => .error (.needsOneArgument name)

namespace Expr

mutual

def eval (env : Environment) : Expr → Except Fault Value
  | .literal v => .ok v
  | .variable name =>
    match env.lookup name with
    | some binding => .ok binding.value
    | none => .ok (.int 0)
  | .binary op left right => do
    let a ← (← left.eval env).present
    let b ← (← right.eval env).present
    Value.binary op a b
  | .unary op operand => do
    let a ← (← operand.eval env).present
    Value.unary op a
  | .call name args => do
    let vs ← evalArgs env args
    callFunction name vs

/-- The values of arguments, from left to right. -/
def evalArgs (env : Environment) : List Expr → Except Fault (List Value)
  | [] => .ok []
  | arg :: args => do
    let v ← (← arg.eval env).present
    let vs ← evalArgs env args
    return v :: vs

end

end Expr

/-! ## Text

Evaluation of expression text: names are replaced by values, operator words by symbols, and the text
that results is parsed and evaluated. Whatever fails on the way leaves the expression without a value. -/

/-- An expression text with every stage of its evaluation, as far as they were reached. -/
structure Trace where
  substituted : Option Text
  symbolic : Option Text
  result : Except Fault Value

namespace Trace

/-- The value that the evaluation leaves: nothing after a failure. -/
def value (trace : Trace) : Value :=
  match trace.result with
  | .ok v => v
  | .error _ => .none

end Trace

namespace Environment

/-- The stages of the evaluation of an expression text. -/
def trace (env : Environment) (expression : Text) : Trace :=
  match env.substitute expression with
  | .error fault => ⟨none, none, .error fault⟩
  | .ok substituted =>
    let symbolic := Vocabulary.symbolize substituted
    ⟨some substituted, some symbolic, do (← Expr.parse symbolic).eval env⟩

/-- The value of an expression text; nothing if it cannot be evaluated. -/
def evaluate (env : Environment) (expression : Text) : Value := (env.trace expression).value

end Environment

end SclNarrator
