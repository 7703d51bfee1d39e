import SclNarrator.Fault
import SclNarrator.Number.Numeral
import SclNarrator.Text.Case
import SclNarrator.Text.Word
import SclNarrator.Value.Basic
import SclNarrator.Value.Decode

/-!
Expressions, from text to tree. The text is cut into tokens, the first rule that fits taking as much
as it can; the tokens are parsed by descent through six levels of binary operators, signs and
primary expressions. The descent has fuel for sixteen steps a token and a few more, which is enough
for every list of tokens.

Assumed: there is room on the stack for every descent.

Correspondence (analyzer ↔ here):
  `Expression`          ↔ `Expr`
  `Token`, `tokenize`   ↔ `Token`, `Token.scan`
  `_unquote`            ↔ `Token.unquote`
  `_CONSTANTS`          ↔ `Token.constant?`
  `_or` to `_multiplicative`, `_binary_level` ↔ `Expr.parseLevel`, `Expr.parseTail` at a `Level`
  `_unary`, `_primary`, `_call_args` ↔ `Expr.parseUnary`, `Expr.parsePrimary`, `Expr.parseArgs`
  `_Parser.parse`       ↔ `Expr.ofTokens`
  `parse_expression`    ↔ `Expr.parse`
-/

namespace SclNarrator

/-! ## Trees

Expressions as trees. -/

inductive Expr where
  | literal (value : Value)
  | variable (name : Text)
  | binary (op : BinaryOp) (left right : Expr)
  | unary (op : UnaryOp) (operand : Expr)
  | call (name : Text) (args : List Expr)

/-! ## Tokens

Tokens of expression text. At every point the first kind that fits is taken, in the order blanks,
durations, numerals with a base, numbers, texts, names, operators, and a lone `#`; a kind takes as much
as it can. Blanks and a lone `#`, which is what is left of a local variable once its value stands in
its place, make no token. -/

inductive TokenKind where
  | time | based | number | string | name | op
  deriving DecidableEq, Repr

/-- A token: its kind, its text, and the number of characters before it. -/
structure Token where
  kind : TokenKind
  text : Text
  position : Nat
  deriving DecidableEq

namespace Lexeme

/-- The longest stretch of characters of a class at the start of a text. -/
def run (ok : CodePoint → Bool) (t : Text) : Text × Text := (t.takeWhile ok, t.dropWhile ok)

def blanks? (t : Text) : Option (Text × Text) :=
  match run isBlank t with
  | ([], _) => none
  | found => some found

/-- What follows the word of a duration and its `#`. -/
def durationMark? (t : Text) : Option Text :=
  ["ltime", "time", "lt", "t"].findSome? fun word =>
    match dropLoose? word.toText t with
    | some (.char '#' :: rest) => some rest
    | _ => none

/-- Whether a character can be in the body of a duration. -/
def isDurationChar (c : CodePoint) : Bool := c.isAlphanum || c == '_' || c == '.'

/-- The part of a text before what is left of it. -/
def taken (t rest : Text) : Text × Text := (t.take (t.length - rest.length), rest)

/-- A duration: its word, `#`, a minus if there is one, a digit, and digits, letters, `_` and `.`. -/
def duration? (t : Text) : Option (Text × Text) :=
  match durationMark? t with
  | none => none
  | some body =>
    match if body.head? = some '-' then body.tail else body with
    | [] => none
    | c :: rest =>
      if c.isDigit then some (taken t (rest.dropWhile isDurationChar)) else none

/-- A numeral in base two, eight or sixteen. -/
def based? (t : Text) : Option (Text × Text) :=
  ["2#", "8#", "16#"].findSome? fun mark =>
    match Text.dropPart? mark.toText t with
    | none => none
    | some body =>
      match run (fun c => isHex c || c == '_') body with
      | ([], _) => none
      | (digits, rest) => some (mark.toText ++ digits, rest)

def number? (t : Text) : Option (Text × Text) :=
  (Decimal.parts? t).map fun (_, rest) => taken t rest

/-- The rest of a text between double quotes, behind the closing one. A backslash hides the character
behind it, which is no line end. -/
def afterQuote? : Text → Option Text
  | [] => none
  | .char '"' :: rest => some rest
  | [.char '\\'] => none
  | .char '\\' :: c :: rest => if c = '\n' then none else afterQuote? rest
  | _ :: rest => afterQuote? rest

def afterApostrophe? : Text → Option Text
  | [] => none
  | .char '\'' :: rest => some rest
  | _ :: rest => afterApostrophe? rest

/-- A text between double quotes or apostrophes. -/
def string? (t : Text) : Option (Text × Text) :=
  match t with
  | .char '"' :: body => (afterQuote? body).map (taken t)
  | .char '\'' :: body => (afterApostrophe? body).map (taken t)
  | _ => none

/-- The members behind a name: a point, a letter or `_`, and word characters, as often as they come;
`fuel` bounds their number. -/
def afterMembers : (fuel : Nat) → Text → Text
  | 0, t => t
  | fuel + 1, t =>
    match t with
    | .char '.' :: c :: rest => if isNameStart c then afterMembers fuel (rest.dropWhile isWord) else t
    | _ => t

/-- A name with its members, behind a `#` if it is local. -/
def name? (t : Text) : Option (Text × Text) :=
  match if t.head? = some '#' then t.tail else t with
  | [] => none
  | c :: rest =>
    if isNameStart c then
      let rest := rest.dropWhile isWord
      some (taken t (afterMembers rest.length rest))
    else none

/-- The operators and marks, longer ones first. -/
def operators : List Text :=
  ["&&", "||", "==", "!=", "<=", ">=", "-", "+", "*", "/", "%", "<", ">", "!", "(", ")", ","].map
    String.toText

def operator? (t : Text) : Option (Text × Text) :=
  operators.findSome? fun op => (Text.dropPart? op t).map (op, ·)

/-- A lone `#`. -/
def hash? : Text → Option (Text × Text)
  | .char '#' :: rest => some (['#'], rest)
  | _ => none

/-- The stretch at the start of a text: the kind of token it is, if it is one, its text, and the
text behind it. -/
def next? (t : Text) : Option (Option TokenKind × Text × Text) :=
  (blanks? t).map (none, ·) <|> (duration? t).map (some .time, ·) <|>
    (based? t).map (some .based, ·) <|> (number? t).map (some .number, ·) <|>
    (string? t).map (some .string, ·) <|> (name? t).map (some .name, ·) <|>
    (operator? t).map (some .op, ·) <|> (hash? t).map (none, ·)

end Lexeme

namespace Token

/-- The tokens of a text from a position on. The first `skip` characters belong to the stretch
before. -/
def scanFrom (position skip : Nat) : Text → Except Fault (List Token)
  | [] => .ok []
  | c :: cs =>
    match skip with
    | n + 1 => scanFrom (position + 1) n cs
    | 0 =>
      match Lexeme.next? (c :: cs) with
      | none => .error (.strayChar c position)
      | some (kind?, text, _) =>
        match scanFrom (position + 1) (text.length - 1) cs with
        | .error fault => .error fault
        | .ok tokens =>
          match kind? with
          | some kind => .ok (⟨kind, text, position⟩ :: tokens)
          | none => .ok tokens

def scan (t : Text) : Except Fault (List Token) := scanFrom 0 0 t

end Token

/-! ## Parsing

Expressions from tokens. Binary operators have six levels, the loosest first: `||`, `&&`, equality,
order, sums, products; each level associates to the left. Signs and `!` bind tighter, and a plus sign
leaves no trace. -/

/-- The levels of binary operators, the loosest first. -/
inductive Level where
  | or | and | equality | relation | sum | product
  deriving DecidableEq, Repr

namespace Level

def tighter? : Level → Option Level
  | or => some and
  | and => some equality
  | equality => some relation
  | relation => some sum
  | sum => some product
  | product => none

def operators : Level → List (Text × BinaryOp)
  | or => [("||".toText, .or)]
  | and => [("&&".toText, .and)]
  | equality => [("==".toText, .eq), ("!=".toText, .ne)]
  | relation => [("<".toText, .lt), (">".toText, .gt), ("<=".toText, .le), (">=".toText, .ge)]
  | sum => [("+".toText, .add), ("-".toText, .sub)]
  | product => [("*".toText, .mul), ("/".toText, .div), ("%".toText, .mod)]

end Level

namespace Token

/-- Whether the token is an operator or a mark of this text. -/
def isOp (text : Text) (token : Token) : Bool := token.kind = .op && token.text = text

/-- The binary operator of a level that the token stands for. -/
def binary? (level : Level) (token : Token) : Option BinaryOp :=
  if token.kind = .op then level.operators.lookup token.text else none

/-- The text of the first of some tokens as a message names it. -/
def found : List Token → Text
  | [] => "end of expression".toText
  | token :: _ => token.text

/-- A text without its quotes. Behind a double quote a backslash hides the character behind it, unless
that is a line end. -/
def unquote (t : Text) : Text :=
  let body := (t.drop 1).dropLast
  if t.head? = some '\'' then body else unescape body
where
  unescape : Text → Text
    | .char '\\' :: c :: rest => if c = '\n' then '\\' :: c :: unescape rest else c :: unescape rest
    | c :: rest => c :: unescape rest
    | [] => []

/-- The value of a number: a double if the text has a point or an exponent, and else a whole number. -/
def numberValue (t : Text) : Except Fault Value :=
  if t.any fun c => c == '.' || c == 'e' || c == 'E' then
    match Decimal.read t with
    | .ok x => .ok (.float x)
    | .error fault => .error (.badNumeral fault)
  else match Numeral.read 10 t with
    | .ok n => .ok (.int n)
    | .error fault => .error (.badNumeral fault)

/-- The value of a literal token; no value for names, operators and marks. -/
def literal? (token : Token) : Option (Except Fault Value) :=
  match token.kind with
  | .number => some (numberValue token.text)
  | .based => some ((Literal.based token.text).map .int)
  | .time => some ((Duration.read token.text).map .int)
  | .string => some (.ok (.text (unquote token.text)))
  | .name | .op => none

def constant? (name : Text) : Option Value :=
  [("true".toText, .bool true), ("false".toText, .bool false), ("null".toText, .none),
    ("Infinity".toText, .float Double.infinity), ("NaN".toText, .float Double.nan)].lookup name

end Token

namespace Expr

/-- What a step of parsing yields: an expression, or several, and the tokens left. -/
abbrev Parsed (α : Type) := Except Fault (α × List Token)

mutual

/-- An operand of the next tighter level, and then the operators of this level with theirs. -/
def parseLevel (fuel : Nat) (level : Level) (tokens : List Token) : Parsed Expr :=
  match fuel with
  | 0 => .error .endOfExpression
  | fuel + 1 =>
    match parseOperand fuel level tokens with
    | .error fault => .error fault
    | .ok (left, rest) => parseTail fuel level left rest

def parseOperand (fuel : Nat) (level : Level) (tokens : List Token) : Parsed Expr :=
  match fuel with
  | 0 => .error .endOfExpression
  | fuel + 1 =>
    match level.tighter? with
    | some tighter => parseLevel fuel tighter tokens
    | none => parseUnary fuel tokens

/-- Operators of a level with their right operands, behind a left operand. -/
def parseTail (fuel : Nat) (level : Level) (left : Expr) (tokens : List Token) : Parsed Expr :=
  match fuel with
  | 0 => .error .endOfExpression
  | fuel + 1 =>
    match tokens with
    | [] => .ok (left, [])
    | token :: rest =>
      match token.binary? level with
      | none => .ok (left, token :: rest)
      | some op =>
        match parseOperand fuel level rest with
        | .error fault => .error fault
        | .ok (right, rest) => parseTail fuel level (.binary op left right) rest

/-- Signs and `!` before a primary expression. -/
def parseUnary (fuel : Nat) (tokens : List Token) : Parsed Expr :=
  match fuel with
  | 0 => .error .endOfExpression
  | fuel + 1 =>
    match tokens with
    | [] => .error .endOfExpression
    | token :: rest =>
      if token.isOp ['!'] then
        (parseUnary fuel rest).map fun (e, rest) => (.unary .not e, rest)
      else if token.isOp ['-'] then
        (parseUnary fuel rest).map fun (e, rest) => (.unary .neg e, rest)
      else if token.isOp ['+'] then parseUnary fuel rest
      else parsePrimary fuel token rest

/-- A literal, a name, a call, or an expression in parentheses. -/
def parsePrimary (fuel : Nat) (token : Token) (rest : List Token) : Parsed Expr :=
  match fuel with
  | 0 => .error .endOfExpression
  | fuel + 1 =>
    match token.literal? with
    | some (.ok value) => .ok (.literal value, rest)
    | some (.error fault) => .error fault
    | none =>
      if token.kind = .name then
        let name := Text.dropLeading '#' token.text
        match Token.constant? name with
        | some value => .ok (.literal value, rest)
        | none =>
          match rest with
          | [] => .ok (.variable name, [])
          | next :: after =>
            if next.isOp ['('] then
              (parseArgs fuel after).map fun (args, rest) => (.call name.upper args, rest)
            else .ok (.variable name, next :: after)
      else if token.isOp ['('] then
        match parseLevel fuel .or rest with
        | .error fault => .error fault
        | .ok (e, rest) =>
          match rest with
          | [] => .error (.expected [')'] (Token.found []))
          | close :: after =>
            if close.isOp [')'] then .ok (e, after)
            else .error (.expected [')'] close.text)
      else .error (.strayToken token.text token.position)

/-- The arguments of a call, behind its opening parenthesis. -/
def parseArgs (fuel : Nat) (tokens : List Token) : Parsed (List Expr) :=
  match fuel with
  | 0 => .error .endOfExpression
  | fuel + 1 =>
    match tokens with
    | [] => parseMoreArgs fuel []
    | token :: rest =>
      if token.isOp [')'] then .ok ([], rest) else parseMoreArgs fuel (token :: rest)

def parseMoreArgs (fuel : Nat) (tokens : List Token) : Parsed (List Expr) :=
  match fuel with
  | 0 => .error .endOfExpression
  | fuel + 1 =>
    match parseLevel fuel .or tokens with
    | .error fault => .error fault
    | .ok (e, rest) =>
      match rest with
      | [] => .error (.expected [','] (Token.found []))
      | token :: after =>
        if token.isOp [')'] then .ok ([e], after)
        else if token.isOp [','] then
          (parseMoreArgs fuel after).map fun (es, rest) => (e :: es, rest)
        else .error (.expected [','] token.text)

end

/-- Enough steps for any list of tokens: no more than sixteen are taken before one is used up. -/
def parseFuel (tokens : List Token) : Nat := 16 * tokens.length + 16

def ofTokens (tokens : List Token) : Except Fault Expr :=
  match parseLevel (parseFuel tokens) .or tokens with
  | .error fault => .error fault
  | .ok (e, []) => .ok e
  | .ok (_, token :: _) => .error (.strayToken token.text token.position)

def parse (t : Text) : Except Fault Expr :=
  match Token.scan t with
  | .error fault => .error fault
  | .ok [] => .error .emptyExpression
  | .ok tokens => ofTokens tokens

end Expr

end SclNarrator
