/-!
Doubles and whole numbers, exactly. Every finite double is a whole multiple of the smallest positive
one, `2^-1074`, so its size is a natural number of such units, and comparison, rounding to a whole
number and remainders are computed on natural numbers (`Double.view`).

Assumed: sums, products, quotients and roots of doubles are those of `Float`, of which the logic
knows nothing; what is computed through `Double.view` is in the logic.
-/

namespace SclNarrator

/-! ## Rounding

Division of natural numbers rounded to the nearest whole number, a half going to the even neighbour. -/

/-- `n / d` to the nearest whole number; a half goes to the even neighbour. -/
def roundDiv (n d : Nat) : Nat :=
  let q := n / d
  let twice := 2 * (n % d)
  if twice < d then q
  else if d < twice then q + 1
  else if q % 2 = 0 then q else q + 1

theorem roundDiv_eq_or (n d : Nat) : roundDiv n d = n / d ∨ roundDiv n d = n / d + 1 := by
  simp only [roundDiv]; split
  · exact .inl rfl
  · split
    · exact .inr rfl
    · split
      · exact .inl rfl
      · exact .inr rfl

/-! ## Bits

Bitwise operations on whole numbers, which have infinitely many bits: a negative number `-(n + 1)` has
the bits that `n` has not. -/

namespace Bits

/-- The bits that `m` has and `n` has not. -/
def butNot (m n : Nat) : Nat := m - (m &&& n)

/-- The bits that both numbers have. -/
def and : Int → Int → Int
  | .ofNat m, .ofNat n => .ofNat (m &&& n)
  | .ofNat m, .negSucc n => .ofNat (butNot m n)
  | .negSucc m, .ofNat n => .ofNat (butNot n m)
  | .negSucc m, .negSucc n => .negSucc (m ||| n)

def or : Int → Int → Int
  | .ofNat m, .ofNat n => .ofNat (m ||| n)
  | .ofNat m, .negSucc n => .negSucc (butNot n m)
  | .negSucc m, .ofNat n => .negSucc (butNot m n)
  | .negSucc m, .negSucc n => .negSucc (m &&& n)

def not (n : Int) : Int := -n - 1

end Bits

/-! ## Doubles

Exact arithmetic on doubles. Every finite double is a whole multiple of the smallest positive one,
`2^-1074`, so its size is a natural number of such units and comparison, rounding to a whole number
and remainders are computed on natural numbers. -/

namespace Double

def one : Nat := Nat.pow 2 1074

inductive View where
  | nan
  | infinite (negative : Bool)
  | finite (negative : Bool) (units : Nat)
  deriving DecidableEq

/-- What the bits of a double stand for: sign, eleven bits of exponent, fifty-two of fraction. -/
def view (x : Float) : View :=
  let bits := x.toBits.toNat
  let negative := Nat.pow 2 63 ≤ bits
  let exponent := bits / Nat.pow 2 52 % Nat.pow 2 11
  let fraction := bits % Nat.pow 2 52
  if exponent = 2047 then
    if fraction = 0 then .infinite negative else .nan
  else if exponent = 0 then .finite negative fraction
  else .finite negative ((Nat.pow 2 52 + fraction) * Nat.pow 2 (exponent - 1))

def infinity : Float := Float.ofBits 0x7ff0000000000000
def negInfinity : Float := Float.ofBits 0xfff0000000000000
def nan : Float := Float.ofBits 0x7ff8000000000000

def infinityOf (negative : Bool) : Float := if negative then negInfinity else infinity

/-- The step between neighbouring doubles of about this size, as a power of two. -/
def gapExponent (units : Nat) : Nat := units.log2 + 1 - 53

/-- The double of a sign and a size that has at most 53 significant bits, unless it is too large. -/
def ofUnits? (negative : Bool) (units : Nat) : Option Float :=
  let k := gapExponent units
  let bits := k * Nat.pow 2 52 + units / Nat.pow 2 k
  if bits < 2047 * Nat.pow 2 52 then
    some (Float.ofBits (UInt64.ofNat (if negative then Nat.pow 2 63 + bits else bits)))
  else none

/-- The double nearest to `± n / d`, a half going to the even neighbour, unless it is too large. -/
def ofRatio? (negative : Bool) (n d : Nat) : Option Float :=
  let n := n * one
  let step := Nat.pow 2 (gapExponent (n / d))
  ofUnits? negative (roundDiv n (d * step) * step)

/-- The double nearest to a whole number, unless it is too large. -/
def ofInt? (n : Int) : Option Float := ofRatio? (n < 0) n.natAbs 1

def signed (negative : Bool) (n : Nat) : Int := if negative then -(n : Int) else n

def isWhole (x : Float) : Bool :=
  match view x with
  | .finite _ units => units % one == 0
  | _ => false

/-- The whole part of a finite double, toward zero. -/
def trunc? (x : Float) : Option Int :=
  match view x with
  | .finite negative units => some (signed negative (units / one))
  | _ => none

/-- The greatest whole number that is not above a finite double. -/
def floor? (x : Float) : Option Int :=
  match view x with
  | .finite negative units => some ((signed negative units).fdiv one)
  | _ => none

/-- The least whole number that is not below a finite double. -/
def ceil? (x : Float) : Option Int :=
  match view x with
  | .finite negative units => some (-(-(signed negative units)).fdiv one)
  | _ => none

/-- The whole number nearest to a finite double, a half going to the even neighbour. -/
def round? (x : Float) : Option Int :=
  match view x with
  | .finite negative units => some (signed negative (roundDiv units one))
  | _ => none

/-- The order of a double and a whole number, exactly; no order with a NaN. -/
def compareInt? (x : Float) (n : Int) : Option Ordering :=
  match view x with
  | .nan => none
  | .infinite negative => some (if negative then .lt else .gt)
  | .finite negative units => some (compare (signed negative units) (n * one))

/-- The order of two doubles; no order with a NaN. -/
def compare? (x y : Float) : Option Ordering :=
  if x < y then some .lt else if y < x then some .gt else if x == y then some .eq else none

/-- The remainder of `x / y` with the sign of `x`. It is exact. There is none when `x` is infinite
or `y` is zero. -/
def remainder? (x y : Float) : Option Float :=
  match view x, view y with
  | .nan, _ => some nan
  | _, .nan => some nan
  | .infinite _, _ => none
  | .finite .., .infinite _ => some x
  | .finite negative a, .finite _ b => if b = 0 then none else ofUnits? negative (a % b)

end Double

/-! ## The hypotenuse

The length of the hypotenuse over two legs, in the arithmetic of doubles: the root of the sum of the
squares, corrected once. It is the nearest double to the length but for a few that lie almost midway
between two doubles. Legs whose squares would be too large or too small are scaled first. -/

namespace Double

/-- The double `2^e`, for exponents from -1022 to 1023. -/
def twoPow (e : Int) : Float := Float.ofBits (UInt64.ofNat ((e + 1023).toNat * Nat.pow 2 52))

/-- How much the square of `h` exceeds `a² + b²`, where `h` is close to their root and `b ≤ a`. The
difference of `h` and one of the legs keeps the squares from cancelling. -/
def squareExcess (a b h : Float) : Float :=
  if h ≤ 2 * b then
    let d := h - b
    a * (2 * d - a) + (d - 2 * (a - b)) * d
  else
    let d := h - a
    2 * d * (a - 2 * b) + ((4 * d - b) * b + d * d)

/-- The root of `a² + b²`, with one step of correction by what its square is off. -/
def correctedRoot (a b : Float) : Float :=
  let h := (a * a + b * b).sqrt
  h - squareExcess a b h / (2 * h)

/-- What legs are multiplied by if they are large, and divided by if they are small. -/
def legScale : Float := twoPow (-600)

/-- The share of the longer leg up to which the shorter one is just added. -/
def negligible : Float := twoPow (-54)

/-- The length over finite legs `b ≤ a` that are not negative. -/
def lengthOver (a b : Float) : Float :=
  if twoPow 511 < a then
    if b ≤ a * negligible then a + b
    else correctedRoot (a * legScale) (b * legScale) / legScale
  else if b < twoPow (-459) then
    if b / negligible ≤ a then a + b
    else correctedRoot (a / legScale) (b / legScale) * legScale
  else if b ≤ a * negligible then a + b
  else correctedRoot a b

/-- The length of the hypotenuse over two legs; none if it is too large. -/
def hypotenuse? (x y : Float) : Option Float :=
  match view x, view y with
  | .infinite _, _ => some infinity
  | _, .infinite _ => some infinity
  | .nan, _ => some nan
  | _, .nan => some nan
  | .finite .., .finite .. =>
    let h := if x.abs < y.abs then lengthOver y.abs x.abs else lengthOver x.abs y.abs
    if h == infinity then none else some h

end Double

end SclNarrator
