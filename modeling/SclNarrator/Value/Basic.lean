import SclNarrator.Fault
import SclNarrator.Number.Double
import SclNarrator.Number.Numeral

/-!
The values that expressions compute, and the arithmetic they rest on: numbers that are whole or
doubles, and complex numbers, which arise from powers and are carried along until something refuses
them.

Assumed: sums, products and quotients of doubles are those of `Float`; sizes are compared exactly.

Correspondence (analyzer ↔ here):
  `_divide`, `_modulo`   ↔ `Number.div`, `Number.mod`
  `_truthy`              ↔ `Value.truthy`
  `normalize_number`     ↔ `Value.normalize`
  `is_anomalous`         ↔ `Value.isAnomalous`
  `infer_type`           ↔ `Value.inferredType`
  `format_value`         ↔ `Value.shown`
  `to_source`            ↔ `Value.source`
-/

namespace SclNarrator

/-! ## Whole numbers and doubles

Arithmetic on numbers that are whole, and then unbounded, or doubles. Two whole numbers are combined
exactly; as soon as a double takes part the other operand is rounded to a double first, and fails if
it is too large for one. Comparison is always exact. -/

inductive Number where
  | int (n : Int)
  | float (x : Float)
  deriving DecidableEq

namespace Number

def toFloat : Number → Except Fault Float
  | int n => match Double.ofInt? n with
    | some x => .ok x
    | none => .error .tooLarge
  | float x => .ok x

/-- An operation given by its exact form and its form on doubles. -/
def combine (exact : Int → Int → Int) (rounded : Float → Float → Float) :
    Number → Number → Except Fault Number
  | int a, int b => .ok (int (exact a b))
  | a, b => do return float (rounded (← a.toFloat) (← b.toFloat))

def add : Number → Number → Except Fault Number := combine (· + ·) (· + ·)
def sub : Number → Number → Except Fault Number := combine (· - ·) (· - ·)
def mul : Number → Number → Except Fault Number := combine (· * ·) (· * ·)

/-- The order of two numbers, exactly; no order with a NaN. -/
def compare? : Number → Number → Option Ordering
  | int a, int b => some (compare a b)
  | int a, float y => (Double.compareInt? y a).map Ordering.swap
  | float x, int b => Double.compareInt? x b
  | float x, float y => Double.compare? x y

/-- Whether two numbers are equal; a NaN equals nothing. -/
def same (a b : Number) : Bool := a.compare? b == some .eq

/-- Whether the number differs from zero; a NaN does. -/
def nonzero : Number → Bool
  | int n => n != 0
  | float x => x != 0

/-- The quotient of two numbers, the nearest double to the exact one for whole numbers. Division by
zero gives an infinity of the dividend's sign, or a NaN if the dividend has none. -/
def div (a b : Number) : Except Fault Number :=
  if b.nonzero then
    match a, b with
    | int m, int n =>
      match Double.ofRatio? (decide (m < 0) != decide (n < 0)) m.natAbs n.natAbs with
      | some x => .ok (float x)
      | none => .error .tooLarge
    | a, b => do return float ((← a.toFloat) / (← b.toFloat))
  else if a.nonzero then do
    let x ← a.toFloat
    if x.isNaN then return float Double.nan
    return float (Double.infinityOf (x < 0))
  else .ok (float Double.nan)

/-- The remainder of a division toward zero, with the sign of the dividend; a NaN by zero. -/
def mod (a b : Number) : Except Fault Number :=
  if b.nonzero then
    match a, b with
    | int m, int n => .ok (int (m.tmod n))
    | a, b => do
      match Double.remainder? (← a.toFloat) (← b.toFloat) with
      | some r => return float r
      | none => .error .outOfDomain
  else .ok (float Double.nan)

def neg : Number → Number
  | int n => int (-n)
  | float x => float (-x)

def abs : Number → Number
  | int n => int n.natAbs
  | float x => float x.abs

end Number

/-! ## Complex numbers

Complex numbers with double parts. They arise as powers of negative numbers with fractional exponents
and are carried along until an operation refuses them. -/

structure Complex where
  re : Float
  im : Float
  deriving DecidableEq

namespace Complex

inductive PowerFault where
  /-- The base is zero and the exponent negative or not real. -/
  | zeroBase
  /-- The angle of the result is infinite, and an infinite angle has no direction. -/
  | infiniteAngle
  /-- A part of the result is infinite. -/
  | tooLarge
  deriving DecidableEq

/-- Whether the number differs from zero. -/
def nonzero (z : Complex) : Bool := z.re != 0 || z.im != 0

/-- Whether both parts are equal numbers. -/
def same (z w : Complex) : Bool := z.re == w.re && z.im == w.im

def mul (z w : Complex) : Complex :=
  ⟨z.re * w.re - z.im * w.im, z.re * w.im + z.im * w.re⟩

/-- The quotient; the divisor's larger part is divided out first. There is none by zero. -/
def div? (z w : Complex) : Option Complex :=
  if w.im.abs ≤ w.re.abs then
    if w.re.abs == 0 then none
    else
      let ratio := w.im / w.re
      let denom := w.re + w.im * ratio
      some ⟨(z.re + z.im * ratio) / denom, (z.im - z.re * ratio) / denom⟩
  else if w.re.abs ≤ w.im.abs then
    let ratio := w.re / w.im
    let denom := w.re * ratio + w.im
    some ⟨(z.re * ratio + z.im) / denom, (z.im * ratio - z.re) / denom⟩
  else some ⟨Double.nan, Double.nan⟩

/-- The absolute value; none if it is too large. -/
def abs? (z : Complex) : Option Float := Double.hypotenuse? z.re z.im

/-- `acc · z^n` by repeated squaring. -/
def powNat (acc z : Complex) (n : Nat) : Complex :=
  if n = 0 then acc
  else powNat (if n % 2 = 1 then acc.mul z else acc) (z.mul z) (n / 2)
termination_by n
decreasing_by omega

/-- A result whose parts are not infinite. -/
def checked (z : Complex) : Except PowerFault Complex :=
  if z.re.abs == Double.infinity || z.im.abs == Double.infinity then .error .tooLarge else .ok z

/-- The number of a length and an angle. An infinite angle is refused whatever the length is. -/
def ofPolar (length angle : Float) : Except PowerFault Complex :=
  if angle.isInf then .error .infiniteAngle
  else checked ⟨length * angle.cos, length * angle.sin⟩

/-- The power of a complex number. Small whole exponents are multiplied out, others go through length
and angle. -/
def pow (z w : Complex) : Except PowerFault Complex :=
  match Double.trunc? w.re with
  | some n =>
    if w.im == 0 && Double.isWhole w.re && n.natAbs ≤ 100 then
      if 0 < n then checked (powNat ⟨1, 0⟩ z n.natAbs)
      else match div? ⟨1, 0⟩ (powNat ⟨1, 0⟩ z n.natAbs) with
        | some q => checked q
        | none => .error .zeroBase
    else general
  | none => general
where
  general : Except PowerFault Complex :=
    if w.re == 0 && w.im == 0 then .ok ⟨1, 0⟩
    else if !z.nonzero then
      if w.im != 0 || w.re < 0 then .error .zeroBase else .ok ⟨0, 0⟩
    else
      let size := (Double.hypotenuse? z.re z.im).getD Double.infinity
      let angle := Float.atan2 z.im z.re
      let length := size.pow w.re
      let phase := angle * w.re
      let (length, phase) :=
        if w.im != 0 then (length * Float.exp (-angle * w.im), phase + w.im * size.log)
        else (length, phase)
      ofPolar length phase

/-- A part as text, without the point and zero of a whole number. -/
def partText (x : Float) : Text :=
  let t := Decimal.text x
  match t.reverse with
  | .char '0' :: .char '.' :: rest => rest.reverse
  | _ => t

/-- The text of a complex number: both parts in parentheses, or the imaginary part alone when the
real part is a positive zero. -/
def text (z : Complex) : Text :=
  let im := partText z.im
  if Double.view z.re = .finite false 0 then im ++ "j".toText
  else
    let sign : Text := if im.head? = some '-' then [] else ['+']
    "(".toText ++ partText z.re ++ sign ++ im ++ "j)".toText

end Complex

/-! ## Values

The values that expressions compute: nothing, truth values, whole numbers of any size, doubles, texts,
and complex numbers, which arise from powers and can be neither bound nor calculated with. -/

inductive Value where
  | none
  | bool (b : Bool)
  | int (n : Int)
  | float (x : Float)
  | text (t : Text)
  | complex (z : Complex)
  deriving DecidableEq

namespace Value

def kindName : Value → Text
  | none => "NoneType".toText
  | bool _ => "bool".toText
  | int _ => "int".toText
  | float _ => "float".toText
  | text _ => "str".toText
  | complex _ => "complex".toText

/-- The value as a number; truth values count as zero and one. -/
def number? : Value → Option Number
  | bool b => some (.int b.toNat)
  | int n => some (.int n)
  | float x => some (.float x)
  | _ => Option.none

def ofNumber : Number → Value
  | .int n => int n
  | .float x => float x

/-- Whether a value is something other than nothing, zero or the empty text. -/
def nonzero : Value → Bool
  | none => false
  | bool b => b
  | int n => n != 0
  | float x => x != 0
  | text t => !t.isEmpty
  | complex z => z.nonzero

/-- Whether a value counts as true: as `nonzero`, but a NaN does not. -/
def truthy (v : Value) : Bool :=
  match v with
  | float x => !x.isNaN && x != 0
  | v => v.nonzero

/-- A whole number as text, if it is not too long. -/
def intText (n : Int) : Except Fault Text :=
  if Numeral.fits n then .ok (Numeral.text n) else .error .longNumber

def quoted : Value → Except Fault Text
  | none => .ok "None".toText
  | bool b => .ok (if b then "True" else "False").toText
  | int n => intText n
  | float x => .ok (Decimal.text x)
  | text t => .ok t.quoted
  | complex z => .ok z.text

def isAnomalous : Value → Bool
  | float x => !x.isFinite
  | _ => false

/-- The value with a whole double turned into a whole number. -/
def normalize : Value → Value
  | float x => match Double.trunc? x with
    | some n => if Double.isWhole x then int n else float x
    | Option.none => float x
  | v => v

end Value

/-- The type that a computed value is given. -/
inductive InferredType where
  | bool | int | real | string | unknown
  deriving DecidableEq, Repr

def InferredType.name : InferredType → Text
  | .bool => "BOOL".toText
  | .int => "INT".toText
  | .real => "REAL".toText
  | .string => "STRING".toText
  | .unknown => "UNKNOWN".toText

/-- The type of a value; a whole double counts as a whole number. -/
def Value.inferredType : Value → InferredType
  | none => .unknown
  | bool _ => .bool
  | int _ => .int
  | float x => if Double.isWhole x then .int else .real
  | text _ => .string
  | complex _ => .unknown

/-! ## The two texts of a value

The two texts of a value: the one that the narrative shows, and the one that stands for the value
inside an expression. -/

namespace Value

/-- The text of a value in the narrative. Doubles that are not whole have a fixed number of places. -/
def shown (places : Nat) : Value → Except Fault Text
  | none => .ok "?".toText
  | bool b => .ok (if b then "TRUE" else "FALSE").toText
  | int n => intText n
  | text t => .ok t
  | complex z => .ok z.text
  | float x =>
    match Double.view x with
    | .nan => .ok "NaN (erro)".toText
    | .infinite negative => .ok (if negative then "-∞ (div/0)" else "∞ (div/0)").toText
    | .finite .. =>
      match Double.trunc? x with
      | some n => if Double.isWhole x then intText n else .ok (Decimal.fixed places x)
      | Option.none => .ok (Decimal.fixed places x)

/-- A text between double quotes, with a backslash before backslashes and double quotes. -/
def quotedSource (t : Text) : Text :=
  let escaped := t.flatMap fun c =>
    if c = .char '\\' ∨ c = .char '"' then [.char '\\', c] else [c]
  .char '"' :: escaped ++ "\"".toText

def source : Value → Except Fault Text
  | none => .ok "null".toText
  | bool b => .ok (if b then "true" else "false").toText
  | int n => intText n
  | text t => .ok (quotedSource t)
  | complex z => .ok (quotedSource z.text)
  | float x =>
    match Double.view x with
    | .nan => .ok "NaN".toText
    | .infinite negative => .ok (if negative then "-Infinity" else "Infinity").toText
    | .finite .. => .ok (Decimal.text x)

end Value

end SclNarrator
