import SclNarrator.Number.Double
import SclNarrator.Text.Basic
import SclNarrator.Text.Quoted

/-!
Numbers as text, in both directions: whole numbers with digits in any base, whole numbers as options
are written, and doubles in decimal. Decimal numerals are limited to `Numeral.digitLimit` digits.
`Numeral.read` and `Decimal.read` take the whole of a text or nothing.

Correspondence (analyzer ↔ here):
  a whole number read from a text in a base        ↔ `Numeral.read`
  a whole number written as text                   ↔ `Numeral.text`
  a number of decimal places read from an option   ↔ `Whole.read`
  a double read from a text                        ↔ `Decimal.read`
  a double written as text                         ↔ `Decimal.text`
  a double written with a fixed number of places   ↔ `Decimal.fixed`
-/

namespace SclNarrator

/-! ## Whole numbers

Whole numbers as text: positional value of digits, writing in decimal, reading in any base, and the
limit on the length of decimal numerals that both directions keep. -/

namespace Numeral

/-- Numerals of more digits than this are neither read nor written, unless the base is a power of
two. -/
def digitLimit : Nat := 4300

/-- Why a text is not read as a number. -/
inductive Fault where
  | tooManyDigits (count : Nat)
  | malformed (base : Nat) (text : Text)
  /-- The text is to be a decimal and is none. -/
  | notDecimal (text : Text)
  deriving DecidableEq

/-- The positional value of digits in a base, most significant first. -/
def ofDigits (base : Nat) (digits : List Nat) : Nat :=
  digits.foldl (fun n d => base * n + d) 0

/-- The decimal digits of a natural number. -/
def natText (n : Nat) : Text := .ofChars (Nat.toDigits 10 n)

/-- The decimal numeral of a whole number. -/
def text (n : Int) : Text :=
  if n < 0 then '-' :: natText n.natAbs else natText n.natAbs

/-- Whether the decimal numeral of the number keeps the limit. -/
def fits (n : Int) : Bool := n.natAbs < Nat.pow 10 digitLimit

def Fault.message : Fault → Text
  | .tooManyDigits count =>
    "Exceeds the limit (4300 digits) for integer string conversion: value has ".toText ++
      natText count ++ " digits; use sys.set_int_max_str_digits() to increase the limit".toText
  | .malformed base t =>
    "invalid literal for int() with base ".toText ++ natText base ++ ": ".toText ++
      t.quoted.take 200
  | .notDecimal t => "could not convert string to float: ".toText ++ t.quoted

/-- The value of a stretch of decimal digits of any script. -/
def ofDecimal (digits : Text) : Except Fault Nat :=
  if digitLimit < digits.length then .error (.tooManyDigits digits.length)
  else .ok (ofDigits 10 (digits.filterMap digitValue?))

/-- The blanks allowed around a numeral: the separating controls of ASCII are not among them. -/
def isMargin (c : CodePoint) : Bool := isBlank c && !(0x1c ≤ c.toNat && c.toNat < 0x20)

/-- A sign, if there is one, taken off the front; whether it was a minus. -/
def takeSign : Text → Bool × Text
  | .char '-' :: rest => (true, rest)
  | .char '+' :: rest => (false, rest)
  | rest => (false, rest)

/-- The base that a mark behind a leading zero announces. -/
def baseOfMark? (c : CodePoint) : Option Nat :=
  if c = 'x' ∨ c = 'X' then some 16
  else if c = 'o' ∨ c = 'O' then some 8
  else if c = 'b' ∨ c = 'B' then some 2
  else none

/-- An underscore taken off the front, if there is one. -/
def dropUnderscore : Text → Text
  | .char '_' :: rest => rest
  | rest => rest

/-- The base to read in, the text behind a mark of that base (`0x`, `0o`, `0b`), and whether only a
zero is allowed. Base zero leaves the choice to the mark, and without one to the decimal base; a
decimal numeral may then not start with a zero. -/
def resolveBase (base : Nat) : Text → Nat × Text × Bool
  | [] => (if base = 0 then 10 else base, [], false)
  | c :: rest =>
    if digitValue? c = some 0 then
      match rest.head?.bind baseOfMark? with
      | some marked =>
        if base = marked ∨ base = 0 then (marked, dropUnderscore rest.tail, false)
        else (base, c :: rest, false)
      | none => if base = 0 then (10, c :: rest, true) else (base, c :: rest, false)
    else (if base = 0 then 10 else base, c :: rest, false)

/-- The values of digits that may have single underscores between them. -/
def ungroup? : Text → Option (List Nat)
  | [] => none
  | [c] => (alnumValue? c).map ([·])
  | c :: d :: rest =>
    match alnumValue? c with
    | none => none
    | some v => (if d = '_' then ungroup? rest else ungroup? (d :: rest)).map (v :: ·)

def isLimited (base : Nat) : Bool := !([2, 4, 8, 16, 32].contains base)

/-- Whether a character is a digit of the base or an underscore. -/
def isGrouped (base : Nat) (c : CodePoint) : Bool := c == '_' || (alnumValue? c).any (· < base)

/-- Reads a whole text as a whole number in a base from two to thirty-six, or in the base that the
numeral itself announces when the base is zero: blanks around it, a sign, a mark of the base, and
digits with single underscores between them. -/
def read (base : Nat) (t : Text) : Except Fault Int :=
  if base = 1 ∨ 36 < base then .error (.malformed base t)
  else
    let (negative, unsigned) := takeSign (t.dropWhile isMargin)
    let (radix, body, zeroOnly) := resolveBase base unsigned
    match ungroup? (body.takeWhile (isGrouped radix)) with
    | none => .error (.malformed base t)
    | some digits =>
      if digitLimit < digits.length && isLimited radix then
        .error (.tooManyDigits digits.length)
      else
        let n := ofDigits radix digits
        if !(body.dropWhile (isGrouped radix)).all isMargin || (zeroOnly && n != 0) then
          .error (.malformed base t)
        else .ok (if negative then -(n : Int) else n)

end Numeral

/-! ## Whole numbers in options

Whole numbers as options are written: blanks around them, a sign, digits with single underscores between
them, and perhaps a point with zeros. Zeros in front do not count, nor do underscores among them. -/

namespace Whole

/-- Why a text is no whole number. -/
inductive Fault where
  | malformed
  | tooLong
  deriving DecidableEq, Repr

def isNonzeroDigit (c : CodePoint) : Bool := c.isDigit && c != '0'

/-- What is left behind zeros and underscores, of which `last` is the last one read. It stays if nothing
else is left or a point follows. -/
def afterZeros (last : CodePoint) : Text → Option Text
  | [] => some [last]
  | c :: rest =>
    if c = '0' ∨ c = '_' then afterZeros c rest
    else if isNonzeroDigit c then some (c :: rest)
    else if c = '.' then some (last :: c :: rest)
    else none

/-- A text that starts with a digit, without zeros in front. -/
def dropZeros : Text → Option Text
  | [] => none
  | c :: rest =>
    if c = '0' then afterZeros c rest
    else if isNonzeroDigit c then some (c :: rest)
    else none

/-- A text without a point and zeros behind it; at least one zero has to follow the point. -/
def dropFraction (t : Text) : Text :=
  match Text.splitOnce? ['.'] t with
  | some (whole, zeros) => if !zeros.isEmpty && zeros.all (· == .char '0') then whole else t
  | none => t

/-- A text without underscores if they stand one by one and neither at its start nor at its end. -/
def dropUnderscores (t : Text) : Text :=
  if t.head? = some '_' ∨ t.getLast? = some '_' ∨ Text.hasPart ['_', '_'] t then t
  else t.without '_'

/-- The text without the blanks that may stand around a number. -/
def trim (t : Text) : Text :=
  ((t.dropWhile Numeral.isMargin).reverse.dropWhile Numeral.isMargin).reverse

/-- Reads a whole text as a whole number. The limit on its length counts the digits that are left, and
a minus. -/
def read (t : Text) : Except Fault Int :=
  let (negative, unsigned) := Numeral.takeSign (trim t)
  match dropZeros unsigned with
  | none => .error .malformed
  | some body =>
    let body := dropUnderscores (dropFraction body)
    let digits := body.takeWhile CodePoint.isDigit
    if Numeral.digitLimit < digits.length + negative.toNat then .error .tooLong
    else if digits.isEmpty || digits.length < body.length then .error .malformed
    else
      let n := Numeral.ofDigits 10 (digits.filterMap digitValue?)
      .ok (if negative then -(n : Int) else n)

end Whole

/-! ## Doubles

Doubles as decimal text: the fewest digits that read back, a fixed number of places, and reading. -/

namespace Decimal

/-- A decimal number: `digits` with a point after the first, times ten to the `exponent`. -/
structure Scientific where
  digits : Text
  exponent : Int

/-- The least number of places that makes a size below one reach one, starting the count at `j`. -/
def leadingPlace (units : Nat) : (fuel j : Nat) → Nat
  | 0, j => j
  | fuel + 1, j => if Double.one ≤ units * Nat.pow 10 j then j else leadingPlace units fuel (j + 1)

/-- The exponent of ten of the first digit of a positive size. -/
def firstPlace (units : Nat) : Int :=
  if Double.one ≤ units then ((Numeral.natText (units / Double.one)).length : Int) - 1
  else -(leadingPlace units 330 1 : Int)

/-- The decimal on the grid of `10 ^ place` that is nearest to a size among those between `low` and
`high`, ends included if `closed`. All sizes are in quarter units. -/
def onGrid? (size low high : Nat) (closed : Bool) (place : Int) : Option Nat :=
  let scale := Nat.pow 10 (-place).toNat
  let step := 4 * Double.one * Nat.pow 10 place.toNat
  let inside := fun n : Nat =>
    if closed then low * scale ≤ n * step && n * step ≤ high * scale
    else low * scale < n * step && n * step < high * scale
  let below := size * scale / step
  let above := below + 1
  match inside below, inside above with
  | true, true => some (roundDiv (size * scale) step)
  | true, false => some below
  | false, true => some above
  | false, false => none

/-- The first grid, from coarse to fine, that has a decimal between the bounds. -/
def firstGrid (size low high : Nat) (closed : Bool) : (fuel : Nat) → (place : Int) → Nat × Int
  | 0, place => (size / (4 * Double.one), place)
  | fuel + 1, place =>
    match onGrid? size low high closed place with
    | some n => (n, place)
    | none => firstGrid size low high closed fuel (place - 1)

/-- The fewest digits that read back to a positive size, nearest to it among those. -/
def shortest (units : Nat) : Scientific :=
  let gap := Nat.pow 2 (Double.gapExponent units)
  let down := if units = Nat.pow 2 52 * gap ∧ 1 < gap then gap else 2 * gap
  let size := 4 * units
  let (n, place) :=
    firstGrid size (size - down) (size + 2 * gap) (units / gap % 2 == 0) 18 (firstPlace units)
  let digits := Numeral.natText n
  let kept := (digits.reverse.dropWhile (· == .char '0')).reverse
  ⟨kept, place + (digits.length - 1 : Nat)⟩

def zeros (count : Nat) : Text := List.replicate count '0'

/-- A scientific decimal written out: positional from `10^-4` up to but not including `10^16`, with a
point always, and with a signed exponent of at least two digits elsewhere. -/
def Scientific.text (d : Scientific) : Text :=
  let n := d.digits.length
  if 0 ≤ d.exponent ∧ d.exponent < 16 then
    let whole := d.exponent.toNat + 1
    if n ≤ whole then d.digits ++ zeros (whole - n) ++ ".0".toText
    else d.digits.take whole ++ ".".toText ++ d.digits.drop whole
  else if -4 ≤ d.exponent ∧ d.exponent < 0 then
    "0.".toText ++ zeros ((-d.exponent).toNat - 1) ++ d.digits
  else
    let mantissa := if n ≤ 1 then d.digits else d.digits.take 1 ++ ".".toText ++ d.digits.drop 1
    let size := Numeral.natText d.exponent.natAbs
    mantissa ++ (if d.exponent < 0 then "e-" else "e+").toText ++
      (if size.length < 2 then .char '0' :: size else size)

def signText (negative : Bool) : Text := if negative then ['-'] else []

/-- The text of a double: the fewest digits that read back. -/
def text (x : Float) : Text :=
  match Double.view x with
  | .nan => "nan"
  | .infinite negative => if negative then "-inf" else "inf"
  | .finite negative units =>
    signText negative ++ (if units = 0 then "0.0".toText else (shortest units).text)

/-- The text of a finite double with a fixed number of places; the exact value is rounded, a half
going to the even neighbour. -/
def fixed (places : Nat) (x : Float) : Text :=
  match Double.view x with
  | .finite negative units =>
    let digits := Numeral.natText (roundDiv (units * Nat.pow 10 places) Double.one)
    let padded := zeros (places + 1 - digits.length) ++ digits
    let whole := padded.length - places
    signText negative ++ padded.take whole ++
      (if places = 0 then [] else .char '.' :: padded.drop whole)
  | _ => text x

/-- The double nearest to `± n · 10^exponent`; infinite if it is too large. -/
def nearest (negative : Bool) (n : Nat) (exponent : Int) : Float :=
  let digits := ((Numeral.natText n).length : Int)
  if n = 0 ∨ digits + exponent < -330 then (Double.ofUnits? negative 0).getD 0
  else if 310 < digits + exponent then Double.infinityOf negative
  else (Double.ofRatio? negative (n * Nat.pow 10 exponent.toNat) (Nat.pow 10 (-exponent).toNat)).getD
    (Double.infinityOf negative)

/-- The whole part and the fraction of a decimal, without its sign and exponent. -/
structure Parts where
  whole : Text
  fraction : Text
  exponent : Int
  deriving DecidableEq

/-- The double nearest to a decimal given by its parts. -/
def Parts.value (negative : Bool) (p : Parts) : Float :=
  nearest negative (Numeral.ofDigits 10 ((p.whole ++ p.fraction).filterMap digitValue?))
    (p.exponent - p.fraction.length)

/-- An exponent at the start of the text: `e`, a sign, digits. -/
def exponent? : Text → Option (Int × Text)
  | [] => none
  | c :: rest =>
    if c = 'e' ∨ c = 'E' then
      let (negative, rest) := match rest with
        | .char '-' :: r => (true, r)
        | .char '+' :: r => (false, r)
        | r => (false, r)
      let digits := rest.takeWhile isDecimal
      if digits.isEmpty then none
      else
        let n := Numeral.ofDigits 10 (digits.filterMap digitValue?)
        some (if negative then -(n : Int) else n, rest.dropWhile isDecimal)
    else none

/-- The longest decimal at the start of the text: digits with or without a point, or a point and
digits, then an exponent if there is one. -/
def parts? (t : Text) : Option (Parts × Text) :=
  let whole := t.takeWhile isDecimal
  let (fraction, rest) := match t.dropWhile isDecimal with
    | .char '.' :: after => (some (after.takeWhile isDecimal), after.dropWhile isDecimal)
    | after => (none, after)
  if whole.isEmpty && (fraction.getD []).isEmpty then none
  else match exponent? rest with
    | some (e, rest) => some (⟨whole, fraction.getD [], e⟩, rest)
    | none => some (⟨whole, fraction.getD [], 0⟩, rest)

/-- The text without the underscores that stand alone between digits; none if one stands elsewhere. -/
def ungroup? : (behindDigit : Bool) → Text → Option Text
  | _, [] => some []
  | behindDigit, c :: rest =>
    if c = '_' then
      if behindDigit && rest.head?.any isDecimal then ungroup? false rest else none
    else (ungroup? (isDecimal c) rest).map (c :: ·)

/-- Reads a whole text as a double: blanks around it, a sign, and a decimal that may have single
underscores between its digits. -/
def read (t : Text) : Except Numeral.Fault Float :=
  match ungroup? false (t.dropWhile Numeral.isMargin) with
  | none => .error (.notDecimal t)
  | some plain =>
    let (negative, body) := Numeral.takeSign plain
    match parts? body with
    | none => .error (.notDecimal t)
    | some (parts, rest) =>
      if rest.all Numeral.isMargin then .ok (parts.value negative) else .error (.notDecimal t)

end Decimal

end SclNarrator
