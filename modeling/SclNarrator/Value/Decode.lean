import SclNarrator.Fault
import SclNarrator.Number.Numeral
import SclNarrator.Text.Basic
import SclNarrator.Text.Case
import SclNarrator.Text.Word
import SclNarrator.Value.Basic

/-!
Data types, and the value that a text stands for under one. The text of a tag is decoded by the
declared type of the tag; an expression can convert a value to a type, and has literals for
durations and for numerals with a base.

Correspondence (analyzer ↔ here):
  `lookup_data_type`                           ↔ `DataType.ofName?`
  `INTEGER_TYPES`, `FLOAT_TYPES`, `TIME_TYPES` ↔ `DataType.family`
  `parse_time_literal`                         ↔ `Duration.read`
  `parse_based_int`                            ↔ `Literal.based`
  `parse_leading_int`, `parse_leading_float`   ↔ `Literal.leadingInt`, `Literal.leadingFloat?`
  `coerce_type`                                ↔ `Value.convert`
  `guess_value`                                ↔ `Value.guess`
  `decode_tag_value`                           ↔ `Value.decode`
-/

namespace SclNarrator

/-! ## Data types

The elementary data types that a tag can be declared with. -/

inductive DataType where
  | bool
  | byte | word | dword | lword
  | sint | int | dint | lint
  | usint | uint | udint | ulint
  | real | lreal
  | time | ltime
  | char | wchar | string | wstring
  deriving DecidableEq, Repr

inductive TypeFamily where
  | truth | whole | floating | duration | textual
  deriving DecidableEq, Repr

namespace DataType

def name : DataType → Text
  | bool => "BOOL".toText
  | byte => "BYTE".toText
  | word => "WORD".toText
  | dword => "DWORD".toText
  | lword => "LWORD".toText
  | sint => "SINT".toText
  | int => "INT".toText
  | dint => "DINT".toText
  | lint => "LINT".toText
  | usint => "USINT".toText
  | uint => "UINT".toText
  | udint => "UDINT".toText
  | ulint => "ULINT".toText
  | real => "REAL".toText
  | lreal => "LREAL".toText
  | time => "TIME".toText
  | ltime => "LTIME".toText
  | char => "CHAR".toText
  | wchar => "WCHAR".toText
  | string => "STRING".toText
  | wstring => "WSTRING".toText

def family : DataType → TypeFamily
  | bool => .truth
  | byte | word | dword | lword | sint | int | dint | lint | usint | uint | udint | ulint => .whole
  | real | lreal => .floating
  | time | ltime => .duration
  | char | wchar | string | wstring => .textual

def all : List DataType :=
  [bool, byte, word, dword, lword, sint, int, dint, lint, usint, uint, udint, ulint, real, lreal,
    time, ltime, char, wchar, string, wstring]

theorem mem_all (d : DataType) : d ∈ all := by cases d <;> decide

/-- The type of a name, in any letter case and with blanks around it. -/
def ofName? (t : Text) : Option DataType :=
  let name := t.trim.upper
  all.find? fun d => d.name == name

end DataType

/-! ## Durations

Durations such as `T#1h30m` or `LTIME#-2.5s`, read as whole milliseconds. -/

namespace Duration

/-- The units of a duration, from the longest down. -/
inductive TimeUnit where
  | day | hour | minute | second | millisecond | microsecond | nanosecond
  deriving DecidableEq, Repr

/-- How a unit is written, in small letters. -/
def TimeUnit.mark : TimeUnit → Text
  | .day => ['d']
  | .hour => ['h']
  | .minute => ['m']
  | .second => ['s']
  | .millisecond => ['m', 's']
  | .microsecond => ['u', 's']
  | .nanosecond => ['n', 's']

def TimeUnit.fractional : TimeUnit → Bool
  | .second | .millisecond | .microsecond => true
  | _ => false

/-- An amount of a unit: digits, and the digits behind a point. -/
structure Amount where
  whole : Text := []
  fraction : Text := []
  deriving DecidableEq

/-- The unit's mark at the start of the text. A minute is not followed by an `s`, which would make it
a millisecond. -/
def mark? (unit : TimeUnit) (t : Text) : Option Text :=
  match dropLoose? unit.mark t with
  | some rest => if unit = .minute && (dropLoose? ['s'] rest).isSome then none else some rest
  | none => none

def amount? (unit : TimeUnit) (t : Text) : Option (Amount × Text) :=
  let whole := t.takeWhile isDecimal
  let rest := t.dropWhile isDecimal
  if whole.isEmpty then none
  else match rest with
    | .char '.' :: after =>
      let fraction := after.takeWhile isDecimal
      if unit.fractional && !fraction.isEmpty then
        (mark? unit (after.dropWhile isDecimal)).map (⟨whole, fraction⟩, ·)
      else none
    | _ => (mark? unit rest).map (⟨whole, []⟩, ·)

/-- The amounts at the start of the text, one at most for each unit in the order of the units. -/
def amounts : List TimeUnit → Text → List (TimeUnit × Amount) × Text
  | [], t => ([], t)
  | unit :: units, t =>
    match amount? unit t with
    | some (amount, rest) =>
      let (more, rest) := amounts units rest
      ((unit, amount) :: more, rest)
    | none => amounts units t

/-- What follows the word that announces a duration. -/
def body? (t : Text) : Option Text :=
  ["ltime#", "time#", "t#", "lt#"].findSome? fun word => dropLoose? word.toText t

/-- A duration taken apart: its sign and its amounts. -/
structure Parts where
  negative : Bool
  amounts : List (TimeUnit × Amount)
  deriving DecidableEq

def units : List TimeUnit :=
  [.day, .hour, .minute, .second, .millisecond, .microsecond, .nanosecond]

/-- Whether the end of a literal is reached; one line end may follow. -/
def atEnd (t : Text) : Bool := t.isEmpty || t == "\n".toText

/-- Takes a duration apart. Underscores are ignored, and at least one amount is needed. -/
def parts? (t : Text) : Option Parts :=
  match body? (t.without '_') with
  | none => none
  | some body =>
    let (negative, body) := match body with
      | .char '-' :: rest => (true, rest)
      | rest => (false, rest)
    let (found, rest) := amounts units body
    if atEnd rest && !found.isEmpty then some ⟨negative, found⟩ else none

/-- The amount of a unit as a whole number; zero if there is none. -/
def Parts.count (p : Parts) (unit : TimeUnit) : Except Fault Int :=
  match p.amounts.lookup unit with
  | none => .ok 0
  | some amount => match Numeral.ofDecimal amount.whole with
    | .ok n => .ok n
    | .error fault => .error (.badNumeral fault)

/-- The amount of a unit as a double; zero if there is none. -/
def Parts.measure (p : Parts) (unit : TimeUnit) : Float :=
  match p.amounts.lookup unit with
  | none => 0
  | some amount => Decimal.Parts.value false ⟨amount.whole, amount.fraction, 0⟩

/-- The duration in milliseconds. Days, hours and minutes are added up exactly, the sum is rounded to
a double, and seconds and smaller units are added to it in double arithmetic. The total is rounded to
the nearest millisecond, a half going to the even one; nanoseconds do not count. -/
def Parts.milliseconds (p : Parts) : Except Fault Int := do
  let days ← p.count .day
  let hours ← p.count .hour
  let minutes ← p.count .minute
  let coarse ← Number.toFloat (.int (days * 86400000 + hours * 3600000 + minutes * 60000))
  let total := coarse + p.measure .second * 1000 + p.measure .millisecond +
    p.measure .microsecond / 1000
  match Double.round? total with
  | some n => return (if p.negative then -n else n)
  | none => .error .tooLarge

def read (t : Text) : Except Fault Int :=
  match parts? t with
  | some p => p.milliseconds
  | none => .error (.badDuration t)

end Duration

/-! ## Numbers inside texts

Numbers inside texts: numerals with a base such as `16#FF`, and the number that a text starts with. -/

namespace Literal

/-- Reads a numeral with a base: the base, `#`, and digits whose underscores do not count. -/
def based (t : Text) : Except Fault Int :=
  let base := t.takeWhile (· != .char '#')
  let digits := Text.without '_' ((t.dropWhile (· != .char '#')).drop 1)
  match Numeral.read 10 base with
  | .ok (.ofNat base) =>
    match Numeral.read base digits with
    | .ok n => .ok n
    | .error _ => .error (.badBased t)
  | _ => .error (.badBased t)

/-- A whole number at the start of a text, taken apart: its digits and the base they are in. -/
inductive Leading where
  | inBase (base : Nat) (digits : Text)
  | decimal (digits : Text)
  deriving DecidableEq

/-- The digits behind a mark at the start of the text, if there are any. -/
def behind? (mark : Text) (ok : CodePoint → Bool) (t : Text) : Option Text :=
  match Text.dropPart? mark t with
  | some rest =>
    let digits := rest.takeWhile ok
    if digits.isEmpty then none else some digits
  | none => none

/-- The whole number at the start of a text without sign: hexadecimal behind `0x`, in the base two,
eight or sixteen behind `2#`, `8#` or `16#`, and else decimal. -/
def leading? (t : Text) : Option Leading :=
  let isDigitOrBar := fun c => isHex c || c == '_'
  if let some d := behind? ['0', 'x'] isHex t then some (.inBase 16 d)
  else if let some d := behind? ['0', 'X'] isHex t then some (.inBase 16 d)
  else if let some d := behind? ['2', '#'] isDigitOrBar t then some (.inBase 2 (d.without '_'))
  else if let some d := behind? ['8', '#'] isDigitOrBar t then some (.inBase 8 (d.without '_'))
  else if let some d := behind? ['1', '6', '#'] isDigitOrBar t then some (.inBase 16 (d.without '_'))
  else
    let digits := t.takeWhile isDecimal
    if digits.isEmpty then none else some (.decimal digits)

/-- The whole number that a text starts with, blanks in front not counted. There is none if the
digits do not belong to their base. -/
def leadingInt (t : Text) : Except Fault (Option Int) :=
  let (negative, body) := Numeral.takeSign t.trim
  let signed := fun n : Int => if negative then -n else n
  match leading? body with
  | none => .ok none
  | some (.inBase base digits) =>
    match Numeral.read base digits with
    | .ok n => .ok (some (signed n))
    | .error _ => .ok none
  | some (.decimal digits) =>
    match Numeral.ofDecimal digits with
    | .ok n => .ok (some (signed n))
    | .error fault => .error (.badNumeral fault)

/-- The double that a text starts with, blanks in front not counted. -/
def leadingFloat? (t : Text) : Option Float :=
  let (negative, body) := Numeral.takeSign t.trim
  (Decimal.parts? body).map fun (parts, _) => parts.value negative

end Literal

/-! ## Conversion

Conversion of a value to a data type. -/

namespace Value

/-- The whole part of a double. -/
def truncated (x : Float) : Except Fault Int :=
  match Double.view x with
  | .nan => .error .outOfDomain
  | .infinite _ => .error .tooLarge
  | .finite negative units => .ok (Double.signed negative (units / Double.one))

/-- The value converted to a type: to a truth value by being different from zero, to a whole number
toward zero, and to a text as it is shown. Texts are converted by the number they start with. -/
def convert (v : Value) (target : Text) : Except Fault Value :=
  match (DataType.ofName? target).map DataType.family with
  | Option.none => .error (.unknownTarget target)
  | some .truth => .ok (bool v.nonzero)
  | some .whole | some .duration =>
    match v with
    | text t => do
      match ← Literal.leadingInt t with
      | some n => return int n
      | Option.none => .error (.notConvertible t.quoted target)
    | float x =>
      if x.isFinite then do return int (← truncated x)
      else .error (.notConvertible (Decimal.text x) target)
    | int n => .ok (int n)
    | bool b => .ok (int b.toNat)
    | none | complex _ => .error .wrongArguments
  | some .floating =>
    match v with
    | text t =>
      match Literal.leadingFloat? t with
      | some x => .ok (float x)
      | Option.none => .error (.notConvertible t.quoted target)
    | v => match v.number? with
      | some n => do return float (← n.toFloat)
      | Option.none => .error .wrongArguments
  | some .textual => do return text (← v.shown 2)

end Value

/-! ## Decoding

The value that a tag's text stands for, by the declared type of the tag. -/

namespace Value

/-- The value of a text without a known type: a truth value or a number if the text reads like one,
and else the text itself, blanks around it included. -/
def guess (raw : Text) : Except Fault Value :=
  let t := raw.trim
  if t = "TRUE".toText then .ok (bool true)
  else if t = "FALSE".toText then .ok (bool false)
  else
    let (negative, body) := Numeral.takeSign t
    if !body.isEmpty && body.all isDecimal then
      match Numeral.ofDecimal body with
      | .ok n => .ok (int (if negative then -(n : Int) else n))
      | .error fault => .error (.badNumeral fault)
    else match Decimal.parts? body with
      | some (parts, []) => .ok (float (parts.value negative))
      | _ => .ok (text raw)

/-- The whole number that a text starts with, or zero. -/
def leadingIntOrZero (t : Text) : Except Fault Value := do
  return int ((← Literal.leadingInt t).getD 0)

def looksLikeDuration (t : Text) : Bool :=
  let t := t.upper
  ["T#", "TIME#", "LTIME#", "LT#"].any fun mark => t.startsWith mark.toText

/-- The value of a tag's text under a declared type. A text that does not read as a number of its
type counts as zero, and a type that is not known leaves the value to the text. -/
def decode (raw declaredType : Text) : Except Fault Value :=
  let t := raw.trim
  match (DataType.ofName? declaredType).map DataType.family with
  | some .truth => .ok (bool (t.upper == "TRUE".toText || t.upper == "1".toText))
  | some .whole => leadingIntOrZero t
  | some .floating => .ok (float ((Literal.leadingFloat? t).getD 0))
  | some .duration =>
    if looksLikeDuration t then
      match Duration.parts? t with
      | some parts => do return int (← parts.milliseconds)
      | Option.none => .ok (int 0)
    else leadingIntOrZero t
  | _ => guess raw

end Value

end SclNarrator
