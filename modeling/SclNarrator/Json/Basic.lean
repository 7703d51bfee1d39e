import SclNarrator.Value.Basic

/-!
JSON: values, their texts, and values from texts. Whole numbers of any size are apart from doubles,
and the fields of an object are in order. A host's data and options are such values, the file of tags
is read as one, and a report is written as one.
-/

namespace SclNarrator

/-! ## Lists under keys -/

/-- A list of values under keys with one more value: in the place of the old one under its key, or at
the end. -/
def putKey {κ α : Type} [DecidableEq κ] (key : κ) (value : α) : List (κ × α) → List (κ × α)
  | [] => [(key, value)]
  | (k, v) :: rest => if k = key then (key, value) :: rest else (k, v) :: putKey key value rest

/-- A new key comes last, and a known one changes nothing about the keys. -/
theorem keys_putKey {κ α : Type} [DecidableEq κ] (key : κ) (value : α) (entries : List (κ × α)) :
    (putKey key value entries).map Prod.fst =
      if key ∈ entries.map Prod.fst then entries.map Prod.fst else entries.map Prod.fst ++ [key] := by
  induction entries with
  | nil => rfl
  | cons e rest ih =>
    rw [putKey, List.map_cons]
    by_cases here : e.1 = key
    · rw [if_pos here, if_pos (here ▸ List.mem_cons_self), List.map_cons, here]
    · rw [if_neg here, List.map_cons, ih]
      simp only [List.mem_cons, Ne.symm here, false_or]
      split
      · rfl
      · rfl

/-! ## Values

JSON values, with whole numbers of any size apart from doubles, and objects in the order of their
fields. -/

inductive Json where
  | null
  | bool (b : Bool)
  | int (n : Int)
  | float (x : Float)
  | text (t : Text)
  | list (items : List Json)
  | object (fields : List (Text × Json))
  deriving Inhabited

namespace Json

/-- The name of a value's kind in messages. -/
def kindName : Json → Text
  | null => "NoneType".toText
  | bool _ => "bool".toText
  | int _ => "int".toText
  | float _ => "float".toText
  | text _ => "str".toText
  | list _ => "list".toText
  | object _ => "dict".toText

/-- Whether a value is something other than null, false, zero or empty. -/
def nonzero : Json → Bool
  | null => false
  | bool b => b
  | int n => n != 0
  | float x => x != 0
  | text t => !t.isEmpty
  | list items => !items.isEmpty
  | object fields => !fields.isEmpty

/-- An object of fields in which a name may come twice: it keeps its first place and takes its last
value. -/
def ofFields (fields : List (Text × Json)) : Json :=
  object (fields.foldl (fun acc (name, value) => putKey name value acc) [])

mutual

def quoted : Json → Except Fault Text
  | null => .ok "None".toText
  | bool b => .ok (if b then "True" else "False").toText
  | int n => Value.intText n
  | float x => .ok (Decimal.text x)
  | text t => .ok t.quoted
  | list items => do return "[".toText ++ Text.join ", ".toText (← quotedItems items) ++ "]".toText
  | object fields => do
    return "\x7b".toText ++ Text.join ", ".toText (← quotedFields fields) ++ "\x7d".toText

def quotedItems : List Json → Except Fault (List Text)
  | [] => .ok []
  | item :: items => do
    let t ← item.quoted
    return t :: (← quotedItems items)

def quotedFields : List (Text × Json) → Except Fault (List Text)
  | [] => .ok []
  | (name, value) :: fields => do
    let t ← value.quoted
    return (name.quoted ++ ": ".toText ++ t) :: (← quotedFields fields)

end

end Json

/-! ## Reading

JSON values from text. Besides the standard forms, `NaN`, `Infinity` and `-Infinity` are numbers, and a
name that comes twice in an object takes its last value. -/

namespace Json

/-- Why a text is no JSON value. -/
inductive ReadFault where
  | malformed
  | numeral (fault : Numeral.Fault)
  deriving DecidableEq

def ReadFault.message : ReadFault → Text
  | .malformed => "<JSONDecodeError>".toText
  | .numeral fault => fault.message

/-- What reading yields: something, and the text left. -/
abbrev Reading (α : Type) := Except ReadFault (α × Text)

/-- Whether a character is a blank between the parts of a value. -/
def isSpace (c : CodePoint) : Bool := c == ' ' || c == '\t' || c == '\n' || c == '\r'

/-- A text without blanks at its start. -/
def skip (t : Text) : Text := t.dropWhile isSpace

def fourHex? : Text → Option (Nat × Text)
  | a :: b :: c :: d :: rest =>
    if isHex a && isHex b && isHex c && isHex d then
      some (Numeral.ofDigits 16 ([a, b, c, d].filterMap alnumValue?), rest)
    else none
  | _ => none

def escaped? (c : CodePoint) : Option CodePoint :=
  match c with
  | .half _ => none
  | .char c =>
    ([('"', '"'), ('\\', '\\'), ('/', '/'), ('b', '\x08'), ('f', '\x0c'), ('n', '\n'), ('r', '\r'),
      ('t', '\t')].lookup c).map .char

/-- The second half of a character that is written as two numbers. -/
def lowHalf? : Text → Option (Nat × Text)
  | .char '\\' :: .char 'u' :: rest =>
    match fourHex? rest with
    | some (n, rest) => if 0xdc00 ≤ n ∧ n ≤ 0xdfff then some (n, rest) else none
    | none => none
  | _ => none

/-- The code point behind `\u`. Two halves that belong together make a character. -/
def unicode? (t : Text) : Option (CodePoint × Text) :=
  match fourHex? t with
  | none => none
  | some (n, rest) =>
    if 0xd800 ≤ n ∧ n ≤ 0xdbff then
      match lowHalf? rest with
      | some (low, rest) => some (.ofNat (0x10000 + (n - 0xd800) * 0x400 + (low - 0xdc00)), rest)
      | none => some (.ofNat n, rest)
    else some (.ofNat n, rest)

/-- The rest of a string, behind its opening quote; `fuel` bounds its characters. -/
def string (fuel : Nat) (t : Text) : Reading Text :=
  match fuel with
  | 0 => .error .malformed
  | fuel + 1 =>
    match t with
    | [] => .error .malformed
    | .char '"' :: rest => .ok ([], rest)
    | .char '\\' :: .char 'u' :: rest =>
      match unicode? rest with
      | none => .error .malformed
      | some (c, rest) => (string fuel rest).map fun (s, rest) => (c :: s, rest)
    | .char '\\' :: c :: rest =>
      match escaped? c with
      | none => .error .malformed
      | some c => (string fuel rest).map fun (s, rest) => (c :: s, rest)
    | c :: rest =>
      if c.toNat < 0x20 || c == '\\' then .error .malformed
      else (string fuel rest).map fun (s, rest) => (c :: s, rest)

/-- The digits of a whole number at the start of a text: a zero alone, or digits that start with
another one. -/
def wholeDigits? : Text → Option (Text × Text)
  | [] => none
  | c :: rest =>
    if c = '0' then some (['0'], rest)
    else if c.isDigit then
      some (c :: rest.takeWhile CodePoint.isDigit, rest.dropWhile CodePoint.isDigit)
    else none

/-- The digits behind a point at the start of a text; none without a digit. -/
def fraction? : Text → Option (Text × Text)
  | .char '.' :: rest =>
    if rest.head?.any CodePoint.isDigit then
      some (rest.takeWhile CodePoint.isDigit, rest.dropWhile CodePoint.isDigit)
    else none
  | _ => none

/-- An exponent at the start of a text, with ASCII digits. -/
def exponent? (t : Text) : Option (Int × Text) :=
  match Decimal.exponent? t with
  | none => none
  | some _ =>
    let (negative, digits) := Numeral.takeSign (t.drop 1)
    if digits.head?.any CodePoint.isDigit then
      let n : Int := Numeral.ofDigits 10 ((digits.takeWhile CodePoint.isDigit).filterMap digitValue?)
      some (if negative then -n else n, digits.dropWhile CodePoint.isDigit)
    else none

/-- A number: whole if it has neither a fraction nor an exponent. -/
def number (t : Text) : Reading Json :=
  let (negative, body) := match t with
    | .char '-' :: rest => (true, rest)
    | rest => (false, rest)
  match wholeDigits? body with
  | none => .error .malformed
  | some (whole, rest) =>
    let fraction := fraction? rest
    let afterFraction := match fraction with
      | some (_, rest) => rest
      | none => rest
    let exponent := exponent? afterFraction
    match fraction, exponent with
    | none, none =>
      match Numeral.ofDecimal whole with
      | .ok n => .ok (int (if negative then -(n : Int) else n), rest)
      | .error fault => .error (.numeral fault)
    | _, _ =>
      let digits := match fraction with
        | some (digits, _) => digits
        | none => []
      let (e, rest) := exponent.getD (0, afterFraction)
      .ok (float (Decimal.Parts.value negative ⟨whole, digits, e⟩), rest)

def words : List (Text × Json) :=
  [("null".toText, null), ("true".toText, bool true), ("false".toText, bool false),
    ("NaN".toText, float Double.nan), ("Infinity".toText, float Double.infinity),
    ("-Infinity".toText, float Double.negInfinity)]

def word? (t : Text) : Option (Json × Text) :=
  words.findSome? fun (word, v) => (Text.dropPart? word t).map (v, ·)

mutual

def value (fuel : Nat) (t : Text) : Reading Json :=
  match fuel with
  | 0 => .error .malformed
  | fuel + 1 =>
    match t with
    | .char '"' :: rest => (string (rest.length + 1) rest).map fun (s, rest) => (text s, rest)
    | .char '[' :: rest =>
      match skip rest with
      | .char ']' :: rest => .ok (list [], rest)
      | rest => (items fuel rest).map fun (vs, rest) => (list vs, rest)
    | .char '\x7b' :: rest =>
      match skip rest with
      | .char '\x7d' :: rest => .ok (object [], rest)
      | rest => (fields fuel rest).map fun (fs, rest) => (ofFields fs, rest)
    | t =>
      match word? t with
      | some found => .ok found
      | none => number t

def items (fuel : Nat) (t : Text) : Reading (List Json) :=
  match fuel with
  | 0 => .error .malformed
  | fuel + 1 =>
    match value fuel t with
    | .error fault => .error fault
    | .ok (v, rest) =>
      match skip rest with
      | .char ']' :: rest => .ok ([v], rest)
      | .char ',' :: rest => (items fuel (skip rest)).map fun (vs, rest) => (v :: vs, rest)
      | _ => .error .malformed

def fields (fuel : Nat) (t : Text) : Reading (List (Text × Json)) :=
  match fuel with
  | 0 => .error .malformed
  | fuel + 1 =>
    match t with
    | .char '"' :: rest =>
      match string (rest.length + 1) rest with
      | .error fault => .error fault
      | .ok (name, rest) =>
        match skip rest with
        | .char ':' :: rest =>
          match value fuel (skip rest) with
          | .error fault => .error fault
          | .ok (v, rest) =>
            match skip rest with
            | .char '\x7d' :: rest => .ok ([(name, v)], rest)
            | .char ',' :: rest =>
              (fields fuel (skip rest)).map fun (fs, rest) => ((name, v) :: fs, rest)
            | _ => .error .malformed
        | _ => .error .malformed
    | _ => .error .malformed

end

/-- The value that a whole text is, blanks around it apart. -/
def read (t : Text) : Except ReadFault Json :=
  match value (2 * t.length + 2) (skip t) with
  | .error fault => .error fault
  | .ok (v, rest) => if (skip rest).isEmpty then .ok v else .error .malformed

end Json

/-! ## Writing

JSON values as text, over several lines with two spaces for each level. Characters are written as they
are, except for quotes, backslashes and controls. -/

namespace Json

def stringChar (c : CodePoint) : Text :=
  if c = '"' ∨ c = '\\' then ['\\', c]
  else if c = '\n' then ['\\', 'n']
  else if c = '\r' then ['\\', 'r']
  else if c = '\t' then ['\\', 't']
  else if c = '\x08' then ['\\', 'b']
  else if c = '\x0c' then ['\\', 'f']
  else if c.toNat < 0x20 then "\\u".toText ++ hexDigits 4 c.toNat
  else [c]

def stringText (t : Text) : Text := .char '"' :: t.flatMap stringChar ++ "\"".toText

/-- A double; infinities and NaN are words. -/
def floatText (x : Float) : Text :=
  match Double.view x with
  | .nan => "NaN".toText
  | .infinite negative => (if negative then "-Infinity" else "Infinity").toText
  | .finite .. => Decimal.text x

/-- A line end and the indentation of a level. -/
def newline (level : Nat) : Text := '\n' :: List.replicate (2 * level) ' '

mutual

def write (level : Nat) : Json → Text
  | null => "null".toText
  | bool b => (if b then "true" else "false").toText
  | int n => Numeral.text n
  | float x => floatText x
  | text t => stringText t
  | list [] => ['[', ']']
  | list (v :: vs) =>
    "[".toText ++ newline (level + 1) ++ write (level + 1) v ++ writeItems (level + 1) vs ++
      newline level ++ "]".toText
  | object [] => ['\x7b', '\x7d']
  | object ((name, v) :: fs) =>
    "\x7b".toText ++ newline (level + 1) ++ stringText name ++ ": ".toText ++ write (level + 1) v ++
      writeFields (level + 1) fs ++ newline level ++ "\x7d".toText

def writeItems (level : Nat) : List Json → Text
  | [] => []
  | v :: vs => ",".toText ++ newline level ++ write level v ++ writeItems level vs

def writeFields (level : Nat) : List (Text × Json) → Text
  | [] => []
  | (name, v) :: fs =>
    ",".toText ++ newline level ++ stringText name ++ ": ".toText ++ write level v ++ writeFields level fs

end

end Json

end SclNarrator
