import SclNarrator.Expr.Evaluate
import SclNarrator.Expr.Parse
import SclNarrator.Run.Environment
import SclNarrator.Text.Basic
import SclNarrator.Text.Case

/-!
Source code seen as a whole: without its comments, by its dominant construct, by the identifiers it
mentions, and a condition by the operands it joins.

Correspondence (analyzer ↔ here):
  `strip_comments`       ↔ `Source.stripComments`
  `is_keyword`           ↔ `isKeyword`
  `find_identifiers`     ↔ `Source.identifiers`
  `classify`             ↔ `Construct.classify`
  `strip_outer_parens`   ↔ `Source.stripParens`
  `split_logic_operands` ↔ `Source.logicOperands`
-/

namespace SclNarrator

/-! ## Comments and literals

Comments and text literals in source code. A literal stands between apostrophes. A comment goes from
`//` to the end of the line, from `(*` to the next `*)`, or from an opening brace to the next closing
one; what looks like a comment inside of a literal is none, and the other way round. -/

namespace Source

/-- What can be cut out of source code. -/
inductive Part where
  | literal | comment
  deriving DecidableEq, Repr

def afterLiteral? : Text → Option Text
  | .char '\'' :: body => Lexeme.afterApostrophe? body
  | _ => none

def afterComment? : Text → Option Text
  | .char '/' :: .char '/' :: body => some (body.dropWhile (· != .char '\n'))
  | .char '(' :: .char '*' :: body => (Text.splitOnce? ['*', ')'] body).map Prod.snd
  | .char '\x7b' :: body => (Text.splitOnce? ['\x7d'] body).map Prod.snd
  | _ => none

def part : Pattern Part := fun _ t =>
  match afterLiteral? t with
  | some rest => some (.literal, rest)
  | none => (afterComment? t).map (.comment, ·)

/-- What is left of a piece: nothing of a comment, and of a literal either all or its apostrophes. -/
def stripPiece (keepLiterals : Bool) : Piece Part → Text
  | .plain c => [c]
  | .found _ .comment => []
  | .found t .literal => if keepLiterals then t else ['\'', '\'']

/-- Source code without its comments. Unless they are kept, literals become empty, so that what is in
them looks neither like a keyword nor like a name. -/
def stripComments (keepLiterals : Bool) (code : Text) : Text :=
  (Text.cut part code).flatMap (stripPiece keepLiterals)

def literal : Pattern Unit := fun _ t => (afterLiteral? t).map ((), ·)

end Source

/-! ## Keywords

The words that are no tag names: keywords of the language, names of types, operators, functions and
instructions, and names of conversions. -/

def keywords : List String := [
  "IF", "THEN", "ELSIF", "ELSE", "END_IF", "CASE", "OF", "END_CASE", "FOR", "TO", "BY", "DO",
  "END_FOR", "WHILE", "END_WHILE", "REPEAT", "UNTIL", "END_REPEAT", "EXIT", "CONTINUE", "RETURN",
  "GOTO", "FUNCTION", "FUNCTION_BLOCK", "END_FUNCTION", "END_FUNCTION_BLOCK", "PROGRAM",
  "END_PROGRAM", "VAR", "VAR_INPUT", "VAR_OUTPUT", "VAR_IN_OUT", "VAR_TEMP", "VAR_STATIC",
  "END_VAR", "CONST", "END_CONST", "TYPE", "END_TYPE", "STRUCT", "END_STRUCT", "REGION",
  "END_REGION", "BOOL", "BYTE", "WORD", "DWORD", "LWORD", "SINT", "INT", "DINT", "LINT", "USINT",
  "UINT", "UDINT", "ULINT", "REAL", "LREAL", "TIME", "DATE", "TIME_OF_DAY", "TOD",
  "DATE_AND_TIME", "DT", "STRING", "WSTRING", "CHAR", "WCHAR", "ARRAY", "POINTER", "REF_TO",
  "AND", "OR", "XOR", "NOT", "TRUE", "FALSE", "NULL", "MOD", "ABS", "SQR", "SQRT", "LN", "LOG",
  "EXP", "SIN", "COS", "TAN", "ROUND", "TRUNC", "CEIL", "FLOOR", "MAX", "MIN", "LIMIT", "SEL",
  "MUX", "SHL", "SHR", "ROL", "ROR", "LEN", "LEFT", "RIGHT", "MID", "CONCAT", "TON", "TOF", "TP",
  "TONR", "CTU", "CTD", "CTUD", "R_TRIG", "F_TRIG"]

/-- Whether a word is no tag name, in any letter case. -/
def isKeyword (word : Text) : Bool :=
  let upper := word.upper
  keywords.any (fun k => k.toText == upper) || (StandardFunction.ofName? upper).isSome ||
    (conversionTarget? upper).isSome

/-! ## Identifiers

The identifiers that a snippet mentions: first those in double quotes, then bare words. Keywords,
members behind a point, formal parameters of calls, and the words and digits of literals such as
`T#5s` and `16#FF` are none. -/

namespace Source

def quotedToSpace : Pattern Text := fun back t =>
  (quotedName back t).map fun (_, rest) => ([' '], rest)

def literalToEmpty : Pattern Text := fun _ t => (afterLiteral? t).map (['\'', '\''], ·)

def identifier? : Text → Option (Text × Text)
  | [] => none
  | c :: rest =>
    if isNameStart c then some (c :: rest.takeWhile isNameChar, rest.dropWhile isNameChar) else none

/-- What follows an arrow (`:=` or `=>`) at the start of a text, and the arrow. -/
def arrow? : Text → Option (Text × Text)
  | .char ':' :: .char '=' :: rest => some ([':', '='], rest)
  | .char '=' :: .char '>' :: rest => some (['=', '>'], rest)
  | _ => none

/-- A formal parameter behind an opening parenthesis or a comma, to be left out. -/
def formalParameter : Pattern Text := fun _ t =>
  match t with
  | [] => none
  | c :: rest =>
    if c = '(' ∨ c = ',' then
      match identifier? (rest.dropWhile isBlank) with
      | none => none
      | some (_, after) =>
        (arrow? (after.dropWhile isBlank)).map fun (arrow, tail) =>
          (c :: rest.takeWhile isBlank ++ after.takeWhile isBlank ++ arrow, tail)
    else none

/-- Whether a text ends, read backwards, in a digit and `#`. -/
def afterBase : Text → Bool
  | .char '#' :: d :: _ => d.isDigit
  | _ => false

/-- A bare word: an identifier that is no digits of a based literal, no member, no part of a longer
word, and not followed by `#`. -/
def bareWord : Pattern Text := fun back t =>
  if afterBase back || back.head? = some '.' || wordAhead back then none
  else match identifier? t with
    | none => none
    | some (word, rest) =>
      if wordAhead rest || rest.head? = some '#' then none else some (word, rest)

def bareText (code : Text) : Text :=
  Text.replaceAll formalParameter (Text.replaceAll literalToEmpty (Text.replaceAll quotedToSpace code))

/-- All candidates: quoted names, then bare words, as often as they occur. -/
def candidates (code : Text) : List Text :=
  Text.findAll quotedName code ++ Text.findAll bareWord (bareText code)

/-- The list without what came before. -/
def firstOccurrences (seen : List Text) : List Text → List Text
  | [] => []
  | name :: rest =>
    if seen.contains name then firstOccurrences seen rest
    else name :: firstOccurrences (name :: seen) rest

/-- The identifiers of a snippet, each spelling once, in the order of their first occurrence. -/
def identifiers (code : Text) : List Text :=
  firstOccurrences [] ((candidates code).filter fun name => !isKeyword name)

end Source

/-! ## Constructs

The dominant construct of a snippet. Control structures come before timers and counters, in a fixed
order; a snippet without any of them is a plain sequence of statements. -/

inductive ConstructKind where
  | if | for | while | repeat | case | timer | counter | plain
  deriving DecidableEq, Repr

def ConstructKind.name : ConstructKind → Text
  | .if => "IF".toText
  | .for => "FOR".toText
  | .while => "WHILE".toText
  | .repeat => "REPEAT".toText
  | .case => "CASE".toText
  | .timer => "TIMER".toText
  | .counter => "COUNTER".toText
  | .plain => "PLAIN".toText

def ConstructKind.all : List ConstructKind :=
  [.if, .for, .while, .repeat, .case, .timer, .counter, .plain]

def ConstructKind.ofName? (t : Text) : Option ConstructKind := all.find? fun kind => kind.name == t

/-- A construct, with the instruction by which a timer or a counter was recognised. -/
structure Construct where
  kind : ConstructKind
  instruction : Option Text := none
  deriving DecidableEq

namespace Construct

/-- One of some keywords as a whole word; the word as it is written in the code. -/
def oneOf (keywords : List Text) : Pattern Text := fun back t =>
  keywords.findSome? fun keyword => (dropKeyword? keyword back t).map (Lexeme.taken t ·)

/-- Whether a keyword occurs as a whole word. -/
def mentions (keyword : Text) (code : Text) : Bool := (Text.search (oneOf [keyword]) code).isSome

/-- The words of control structures, the dominant one first. -/
def controlWords : List (ConstructKind × Text) :=
  [(.if, "if".toText), (.for, "for".toText), (.while, "while".toText), (.repeat, "repeat".toText),
    (.case, "case".toText)]

/-- The words of instructions, the dominant kind first. -/
def instructionWords : List (ConstructKind × List Text) :=
  [(.timer, ["tonr".toText, "ton".toText, "tof".toText, "tp".toText]),
    (.counter, ["ctud".toText, "ctu".toText, "ctd".toText])]

def ofClean (code : Text) : Construct :=
  match controlWords.find? fun (_, word) => mentions word code with
  | some (kind, _) => ⟨kind, none⟩
  | none =>
    let found := instructionWords.findSome? fun (kind, words) =>
      (Text.search (oneOf words) code).map fun (_, word, _) => (⟨kind, some word.upper⟩ : Construct)
    found.getD ⟨.plain, none⟩

def classify (code : Text) : Construct := ofClean (Source.stripComments false code)

end Construct

/-! ## Conditions

The operands that a condition joins by `AND` and `OR`. Parentheses group, and what stands between
quotes or apostrophes is one piece. -/

namespace Source

inductive LogicPart where
  | opening | closing | quoted | joining
  deriving DecidableEq, Repr

/-- A parenthesis, something between double quotes or apostrophes, or `AND` or `OR` as a whole word. -/
def logicPart : Pattern LogicPart := fun back t =>
  match t with
  | .char '(' :: rest => some (.opening, rest)
  | .char ')' :: rest => some (.closing, rest)
  | .char '"' :: rest =>
    match rest.dropWhile (· != .char '"') with
    | [] => none
    | _ :: after => some (.quoted, after)
  | .char '\'' :: rest => (Lexeme.afterApostrophe? rest).map (.quoted, ·)
  | t => ((dropKeyword? "and".toText back t) <|> (dropKeyword? "or".toText back t)).map (.joining, ·)

/-- Whether the parenthesis that opens the pieces is closed by the last of them and not before. -/
def closedByLast (depth : Int) : List (Piece LogicPart) → Bool
  | [] => false
  | .found _ .opening :: rest => closedByLast (depth + 1) rest
  | .found _ .closing :: rest => if depth = 1 then rest.isEmpty else closedByLast (depth - 1) rest
  | _ :: rest => closedByLast depth rest

/-- A condition without blanks around it and without one pair of parentheses around the whole. -/
def stripParens (condition : Text) : Text :=
  let t := condition.trim
  if t.head? = some '(' && closedByLast 0 (Text.cut logicPart t) then
    Text.trim (t.drop 1).dropLast
  else t

/-- The texts between the words that join at depth zero; `text` is what was read of the one at hand. -/
def operandTexts (depth : Int) (text : Text) : List (Piece LogicPart) → List Text
  | [] => [text]
  | piece :: rest =>
    match piece with
    | .found _ .joining =>
      if depth = 0 then text :: operandTexts 0 [] rest
      else operandTexts depth (text ++ piece.text) rest
    | .found _ .opening => operandTexts (depth + 1) (text ++ piece.text) rest
    | .found _ .closing => operandTexts (depth - 1) (text ++ piece.text) rest
    | piece => operandTexts depth (text ++ piece.text) rest

/-- The operands of a condition, without blanks around them and without empty ones. -/
def logicOperands (condition : Text) : List Text :=
  ((operandTexts 0 [] (Text.cut logicPart (stripParens condition))).map Text.trim).filter
    fun t => !t.isEmpty

end Source

end SclNarrator
