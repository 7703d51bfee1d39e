import SclNarrator.Value.Basic
import SclNarrator.Value.Decode

/-!
The standard functions that expressions can call. `StandardFunction.apply` has one case for each of
them, with the number of its arguments, what it takes them for and how it fails.

Assumed: the elementary functions on doubles are those of `Float`. There is memory for every whole
number: a power or a shift to the left is not limited in size.

Correspondence (analyzer ↔ here):
  `STDLIB_FUNCTIONS`       ↔ `StandardFunction.ofName?`, `StandardFunction.apply`
  `_limit`, `_sel`, `_mux` ↔ the cases `LIMIT`, `SEL` and `MUX` of `StandardFunction.apply`
  `_shl`, `_shr`           ↔ `Value.shiftLeft`, `Value.shiftRight`
  `_trunc`, `_round_val`   ↔ `Value.wholeBy` with `Double.trunc?` and `Double.round?`
  `_sqr`                   ↔ `Value.square`
-/

namespace SclNarrator

/-! ## Elementary functions

Elementary functions on doubles, with their domains: a NaN that is not asked for and an infinity that
comes from a finite argument are failures. -/

namespace Elementary

/-- The result of a function, unless the argument is outside its domain or the result too large. -/
def checked (f : Float → Float) (whenInfinite : Fault) (x : Float) : Except Fault Float :=
  let y := f x
  if y.isNaN && !x.isNaN then .error .outOfDomain
  else if y.isInf && x.isFinite then .error whenInfinite
  else .ok y

def sqrt : Float → Except Fault Float := checked Float.sqrt .outOfDomain
def sin : Float → Except Fault Float := checked Float.sin .outOfDomain
def cos : Float → Except Fault Float := checked Float.cos .outOfDomain
def tan : Float → Except Fault Float := checked Float.tan .outOfDomain
def asin : Float → Except Fault Float := checked Float.asin .outOfDomain
def acos : Float → Except Fault Float := checked Float.acos .outOfDomain
def atan : Float → Except Fault Float := checked Float.atan .outOfDomain
def exp : Float → Except Fault Float := checked Float.exp .tooLarge

/-- A positive whole number as a fraction from a half to one and a power of two. -/
def fractionAndExponent (n : Nat) : Float × Nat :=
  let exponent := n.log2 + 1
  match Double.ofRatio? false n (Nat.pow 2 exponent) with
  | some x => if x == 1 then (0.5, exponent + 1) else (x, exponent)
  | none => (0.5, exponent)

/-- A logarithm, `f` on positive doubles. Whole numbers too large for a double have one as well. -/
def logarithm (f : Float → Float) : Number → Except Fault Float
  | .int n =>
    if n ≤ 0 then .error .outOfDomain
    else match Double.ofInt? n with
      | some x => .ok (f x)
      | none =>
        let (x, exponent) := fractionAndExponent n.natAbs
        .ok (f x + f 2 * Float.ofNat exponent)
  | .float x => if x ≤ 0 then .error .outOfDomain else checked f .outOfDomain x

end Elementary

/-! ## Powers

Powers: exact for whole numbers, in double arithmetic otherwise, complex for a negative base with a
fractional exponent, and modulo a whole number. -/

namespace Power

/-- The exact power of a whole number. -/
def exact (a : Int) (b : Nat) : Int :=
  Double.signed (decide (a < 0) && b % 2 == 1) (Nat.pow a.natAbs b)

/-- Whether a double is an odd whole number. -/
def isOdd (x : Float) : Bool :=
  match Double.trunc? x with
  | some n => Double.isWhole x && n % 2 != 0
  | none => false

def complex (z w : Complex) : Except Fault Value :=
  match z.pow w with
  | .ok u => .ok (.complex u)
  | .error .zeroBase => .error .divisionByZero
  | .error .infiniteAngle => .error .divisionByZero
  | .error .tooLarge => .error .tooLarge

/-- A finite positive base to a finite power. -/
def positive (x y : Float) (negate : Bool) : Except Fault Value :=
  if x == 1 then .ok (.float (if negate then -1 else 1))
  else
    let r := x.pow y
    if r.isInf then .error .tooLarge else .ok (.float (if negate then -r else r))

/-- The power of doubles, case by case where an operand is zero, infinite or no number. -/
def double (x y : Float) : Except Fault Value :=
  if y == 0 then .ok (.float 1)
  else if x.isNaN then .ok (.float x)
  else if y.isNaN then .ok (.float (if x == 1 then 1 else y))
  else if y.isInf then
    if x.abs == 1 then .ok (.float 1)
    else if (decide (0 < y)) == (decide (1 < x.abs)) then .ok (.float Double.infinity)
    else .ok (.float 0)
  else if x.isInf then
    if 0 < y then .ok (.float (if isOdd y then x else Double.infinity))
    else .ok (.float (if isOdd y && x < 0 then -0.0 else 0))
  else if x == 0 then
    if y < 0 then .error .divisionByZero else .ok (.float (if isOdd y then x else 0))
  else if x < 0 then
    if Double.isWhole y then positive (-x) y (isOdd y) else complex ⟨x, 0⟩ ⟨y, 0⟩
  else positive x y false

def asComplex : Value → Except Fault Complex
  | .complex z => .ok z
  | v => match v.number? with
    | some n => do return ⟨← n.toFloat, 0⟩
    | none => .error .wrongArguments

def power (a b : Value) : Except Fault Value :=
  match a.number?, b.number? with
  | some (.int m), some (.int n) =>
    if 0 ≤ n then .ok (.int (exact m n.toNat))
    else do double (← (Number.int m).toFloat) (← (Number.int n).toFloat)
  | some m, some n => do double (← m.toFloat) (← n.toFloat)
  | _, _ =>
    match a, b with
    | .text _, _ | .none, _ | _, .text _ | _, .none => .error .wrongArguments
    | a, b => do complex (← asComplex a) (← asComplex b)

/-- `acc · a^b` modulo `m`, by repeated squaring. -/
def modPower (m acc a b : Nat) : Nat :=
  if b = 0 then acc % m
  else modPower m (if b % 2 = 1 then acc * a % m else acc) (a * a % m) (b / 2)
termination_by b
decreasing_by omega

/-- The coefficient `s` of `a` in `s · a + t · b = gcd a b`, by the Euclidean algorithm on `(a, s)` and
`(b, s')`; and the greatest common divisor. -/
def bezout (a b : Nat) (s s' : Int) : Nat × Int :=
  if b = 0 then (a, s)
  else bezout b (a % b) s' (s - (a / b : Nat) * s')
termination_by b
decreasing_by exact Nat.mod_lt _ (by omega)

/-- The inverse of `a` modulo `m`, if they have no common divisor. -/
def inverse? (a m : Nat) : Option Nat :=
  let (g, s) := bezout (a % m) m 1 0
  if g = 1 then some (s % m).toNat else none

/-- The power of whole numbers modulo a whole number; the result has the sign of the modulus. A
negative exponent asks for the inverse of the base. -/
def modular (a b m : Int) : Except Fault Value :=
  if m = 0 then .error .outOfDomain
  else
    let size := m.natAbs
    if size = 1 then .ok (.int 0)
    else
      let base := (a % size).toNat
      let result : Option Nat :=
        if 0 ≤ b then some (modPower size 1 base b.natAbs)
        else (inverse? base size).map (modPower size 1 · b.natAbs)
      match result with
      | none => .error .outOfDomain
      | some r => .ok (.int (if m < 0 ∧ r ≠ 0 then (r : Int) + m else r))

/-- The power of values with a modulus: only whole numbers have one. Complex operands fail by their
value and all others by their kind. -/
def powerMod (a b m : Value) : Except Fault Value :=
  match a.number?, b.number?, m.number? with
  | some (.int x), some (.int y), some (.int z) => modular x y z
  | _, _, _ =>
    match a, b, m with
    | .text _, _, _ | .none, _, _ | _, .text _, _ | _, .none, _ => .error .wrongArguments
    | .float _, _, _ => .error .wrongArguments
    | .complex _, b, _ => do let _ ← asComplex b; .error .outOfDomain
    | a, .complex _, _ => do let _ ← asComplex a; .error .outOfDomain
    | _, .float _, _ => .error .wrongArguments
    | a, b, .complex _ => do
      let _ ← asComplex a
      let _ ← asComplex b
      .error .outOfDomain
    | _, _, _ => .error .wrongArguments

end Power

/-! ## Standard functions

The standard functions that expressions can call. -/

inductive StandardFunction where
  | abs | sqr | sqrt | min | max | limit | sel | mux | trunc | round | ceil | floor
  | sin | cos | tan | asin | acos | atan | ln | log | exp | expt | shl | shr
  deriving DecidableEq, Repr

namespace StandardFunction

def name : StandardFunction → Text
  | abs => "ABS".toText
  | sqr => "SQR".toText
  | sqrt => "SQRT".toText
  | min => "MIN".toText
  | max => "MAX".toText
  | limit => "LIMIT".toText
  | sel => "SEL".toText
  | mux => "MUX".toText
  | trunc => "TRUNC".toText
  | round => "ROUND".toText
  | ceil => "CEIL".toText
  | floor => "FLOOR".toText
  | sin => "SIN".toText
  | cos => "COS".toText
  | tan => "TAN".toText
  | asin => "ASIN".toText
  | acos => "ACOS".toText
  | atan => "ATAN".toText
  | ln => "LN".toText
  | log => "LOG".toText
  | exp => "EXP".toText
  | expt => "EXPT".toText
  | shl => "SHL".toText
  | shr => "SHR".toText

def all : List StandardFunction :=
  [abs, sqr, sqrt, min, max, limit, sel, mux, trunc, round, ceil, floor, sin, cos, tan, asin, acos,
    atan, ln, log, exp, expt, shl, shr]

theorem mem_all (f : StandardFunction) : f ∈ all := by cases f <;> decide

/-- The function of a name, which is written in capitals. -/
def ofName? (t : Text) : Option StandardFunction := all.find? fun f => f.name == t

end StandardFunction

namespace Value

def toNumber (v : Value) : Except Fault Number :=
  match v.number? with
  | some n => .ok n
  | Option.none => .error .wrongArguments

def toDouble (v : Value) : Except Fault Float := do (← v.toNumber).toFloat

/-- The value as a whole number: doubles are cut off toward zero and texts are read. -/
def toWhole : Value → Except Fault Int
  | bool b => .ok b.toNat
  | int n => .ok n
  | float x => truncated x
  | text t => match Numeral.read 10 t with
    | .ok n => .ok n
    | .error fault => .error (.badNumeral fault)
  | none | complex _ => .error .wrongArguments

/-- The order of two values, which must both be numbers or both texts; no order with a NaN. -/
def order? (a b : Value) : Except Fault (Option Ordering) :=
  match a, b with
  | text s, text t => .ok (some (s.order t))
  | a, b => do return (← a.toNumber).compare? (← b.toNumber)

/-- The first of the values that no later one beats; a value beats another if their order is
`wanted`. -/
def best (wanted : Ordering) (current : Value) : List Value → Except Fault Value
  | [] => .ok current
  | v :: rest => do
    if (← order? v current) == some wanted then best wanted v rest else best wanted current rest

/-- The best of several values, or of the characters of one text. -/
def extreme (wanted : Ordering) : List Value → Except Fault Value
  | [text []] => .error .outOfDomain
  | [text (c :: rest)] => best wanted (text [c]) (rest.map fun d => text [d])
  | v :: w :: rest => best wanted v (w :: rest)
  | _ => .error .wrongArguments

/-- The nearest whole number, a half going away from zero. -/
def rounded (v : Value) : Except Fault Value :=
  match v with
  | complex z => do
    match z.abs? with
    | Option.none => .error .tooLarge
    | some x => do let _ ← truncated (x + 0.5); .error .wrongArguments
  | v => do
    let n ← v.toNumber
    let x ← (← n.abs.add (.float 0.5)).toFloat
    let _ ← truncated x
    let size := (Double.floor? x).getD 0
    return int (if n.compare? (.int 0) == some .lt then -size else size)

/-- The whole number that `f` gives for a double; whole numbers stay. -/
def wholeBy (f : Float → Option Int) (v : Value) : Except Fault Value := do
  match ← v.toNumber with
  | .int n => return int n
  | .float x => do
    let _ ← truncated x
    return int ((f x).getD 0)

/-- The bits of a whole number moved to the left, however far. -/
def shiftLeft (n s : Int) : Except Fault Value :=
  if s < 0 then .error .outOfDomain
  -- zero has no bits to move
  else if n = 0 then .ok (int 0)
  else .ok (int (n <<< s.toNat))

/-- The bits of a whole number moved to the right; the sign stays. -/
def shiftRight (n s : Int) : Except Fault Value :=
  if s < 0 then .error .outOfDomain
  else if n.natAbs.log2 + 1 < s.toNat then .ok (int (if n < 0 then -1 else 0))
  else .ok (int (n.fdiv (Nat.pow 2 s.toNat : Nat)))

def absolute : Value → Except Fault Value
  | complex z => match z.abs? with
    | some x => .ok (float x)
    | Option.none => .error .tooLarge
  | v => do return ofNumber (← v.toNumber).abs

def square : Value → Except Fault Value
  | complex z => .ok (complex (z.mul z))
  | v => do
    let n ← v.toNumber
    return ofNumber (← n.mul n)

def logRatio (x base : Value) : Except Fault Value := do
  let a ← Elementary.logarithm Float.log (← x.toNumber)
  let b ← Elementary.logarithm Float.log (← base.toNumber)
  if b == 0 then .error .divisionByZero else return float (a / b)

def onDouble (f : Float → Except Fault Float) (v : Value) : Except Fault Value := do
  return float (← f (← v.toDouble))

end Value

namespace StandardFunction

open Value

/-- The choice of one of several values by number; a number out of range takes the last. -/
def choose (k : Int) (values : List Value) : Value :=
  match if 0 ≤ k then values[k.toNat]? else Option.none with
  | some v => v
  | Option.none => values.getLast?.getD (.int 0)

def apply : StandardFunction → List Value → Except Fault Value
  | abs, [v] => v.absolute
  | sqr, [v] => v.square
  | sqrt, [v] => onDouble Elementary.sqrt v
  | min, vs => extreme .lt vs
  | max, vs => extreme .gt vs
  | limit, [low, v, high] => do best .gt low [← best .lt v [high]]
  | sel, [g, a, b] => .ok (if g.nonzero then b else a)
  | mux, k :: vs => do return choose (← k.toWhole) vs
  | trunc, [v] => do return .int (← v.toWhole)
  | round, [v] => v.rounded
  | ceil, [v] => wholeBy Double.ceil? v
  | floor, [v] => wholeBy Double.floor? v
  | sin, [v] => onDouble Elementary.sin v
  | cos, [v] => onDouble Elementary.cos v
  | tan, [v] => onDouble Elementary.tan v
  | asin, [v] => onDouble Elementary.asin v
  | acos, [v] => onDouble Elementary.acos v
  | atan, [v] => onDouble Elementary.atan v
  | ln, [v] => do return .float (← Elementary.logarithm Float.log (← v.toNumber))
  | ln, [v, base] => logRatio v base
  | log, [v] => do return .float (← Elementary.logarithm Float.log10 (← v.toNumber))
  | exp, [v] => onDouble Elementary.exp v
  | expt, [a, b] => Power.power a b
  | expt, [a, b, .none] => Power.power a b
  | expt, [a, b, m] => Power.powerMod a b m
  | shl, [n, s] => do shiftLeft (← n.toWhole) (← s.toWhole)
  | shr, [n, s] => do shiftRight (← n.toWhole) (← s.toWhole)
  | _, _ => .error .wrongArguments

end StandardFunction

end SclNarrator
