import SclNarrator.Fault
import SclNarrator.Source.Basic
import SclNarrator.Text.Case

/-!
The statements of source code: assignments, calls, `IF` structures, the headers of loops, and `CASE`
statements. Each kind is a pattern that is looked for in the text.

Correspondence (analyzer ↔ here):
  `_ASSIGN_RE`, `execute_assignments` ↔ `Source.assignment`, `Source.assignments`
  `_CALL_RE`, `_PARAM_RE`             ↔ `Source.call`, `Source.parameter?`
  `_strip_calls`                      ↔ `Source.stripCalls`
  `IfBlock`, `split_if`               ↔ `Source.IfBlock`, `Source.IfBlock.split?`
  `_FOR_RE`, `_WHILE_RE`, `_UNTIL_RE` ↔ `Source.forHeader`, `whileHeader`, `untilHeader`
  `_CASE_RE`, `_CASE_LABEL_RE`        ↔ `Source.caseHeader`, `Source.caseLabel`
  `_case_label_matches`               ↔ `Source.labelHolds`
-/

namespace SclNarrator

/-! ## Assignments

Assignments in source code: a target, `:=`, an expression, `;`. The expression has no `:=` in it, and a
`;` only inside of a literal. -/

namespace Source

/-- An assignment as it is written: its target, and its expression without blanks around it. -/
structure Assignment where
  target : Text
  expression : Text
  deriving DecidableEq

/-- A text without a character at its start, if it is there. -/
def dropOne (c : CodePoint) : Text → Text
  | [] => []
  | d :: rest => if d = c then rest else d :: rest

/-- The target at the start of a text, behind `#` and a double quote if they are there and with
another one behind it, and what follows its `:=`. -/
def target? (t : Text) : Option (Text × Text) :=
  match identifier? (dropOne '"' (dropOne '#' t)) with
  | none => none
  | some (name, rest) =>
    match (dropOne '"' rest).dropWhile isBlank with
    | .char ':' :: .char '=' :: body => some (name, body)
    | _ => none

/-- The text before the `;` that ends a statement, and the text behind it; `inside` says whether the
text starts inside of a literal. -/
def statement? (inside : Bool) : Text → Option (Text × Text)
  | [] => none
  | c :: rest =>
    if inside then (statement? (c != '\'') rest).map fun (body, after) => (c :: body, after)
    else if c = ';' then some ([], rest)
    else if c = ':' ∧ rest.head? = some '=' then none
    else (statement? (c == '\'') rest).map fun (body, after) => (c :: body, after)

def assignment : Pattern Assignment := fun _ t =>
  match target? t with
  | none => none
  | some (name, body) =>
    match statement? false body with
    | none => none
    | some ([], _) => none
    | some (expression, rest) => some (⟨name, Text.trim expression⟩, rest)

/-- The difference between the opening and closing parentheses of a text. -/
def parenBalance (t : Text) : Int := (t.count (.char '(') : Int) - (t.count (.char ')') : Int)

/-- The assignments among the pieces of a cut that stand outside of parentheses; `balance` is what the
pieces before have opened. -/
def topLevel (balance : Int) : List (Piece Assignment) → List Assignment
  | [] => []
  | piece :: rest =>
    let more := topLevel (balance + parenBalance piece.text) rest
    match piece with
    | .plain _ => more
    | .found _ a => if 0 < balance then more else a :: more

/-- The assignments of code in which no call with parameters is a statement. Those inside of
parentheses are arguments with names. -/
def assignmentsIn (code : Text) : List Assignment := topLevel 0 (Text.cut assignment code)

end Source

/-! ## Calls

Calls of function blocks with parameters, such as `Timer1(IN := Start, Q => Done);`. -/

namespace Source

structure Call where
  /-- What is called. -/
  instanceName : Text
  /-- What stands between the parentheses. -/
  parameters : Text
  /-- Whether the call is an operand of an expression or of another call. -/
  nested : Bool
  deriving DecidableEq

/-- What follows a quoted name at the start of a text. -/
def afterQuoted? (t : Text) : Option Text := (quotedName [] t).map Prod.snd

/-- What follows a letter or `_` with word characters behind it. -/
def afterWord? : Text → Option Text
  | [] => none
  | c :: rest => if isNameStart c then some (rest.dropWhile isWord) else none

/-- What follows the members behind a name; `fuel` bounds their number. -/
def afterMembers : (fuel : Nat) → Text → Text
  | 0, t => t
  | fuel + 1, t =>
    match t with
    | .char '.' :: member =>
      match afterQuoted? member <|> afterWord? member with
      | some rest => afterMembers fuel rest
      | none => t
    | _ => t

/-- What follows the name of an instance, with its members, at the start of a text. -/
def afterInstance? (t : Text) : Option Text :=
  (afterQuoted? t <|> afterWord? (dropOne '#' t)).map fun rest => afterMembers rest.length rest

def hasArrow (t : Text) : Bool := Text.hasPart [':', '='] t || Text.hasPart ['=', '>'] t

/-- The characters behind which a call is an operand. -/
def operandMarks : Text := "=(,+-*/<>".toText

/-- Whether something that follows a text, given backwards, is an operand. -/
def isOperandAfter (back : Text) : Bool :=
  match back.dropWhile isBlank with
  | [] => false
  | c :: _ => operandMarks.contains c

/-- A call with parameters: the instance, and in parentheses something without parentheses that holds
an arrow. Blanks and a `;` behind it belong to it. -/
def call : Pattern Call := fun back t =>
  match afterInstance? t with
  | none => none
  | some rest =>
    match rest.dropWhile isBlank with
    | .char '(' :: body =>
      let parameters := body.takeWhile fun c => c != .char '(' && c != .char ')'
      match body.drop parameters.length with
      | .char ')' :: after =>
        if hasArrow parameters then
          some (⟨(Lexeme.taken t rest).1, parameters, isOperandAfter back⟩,
            dropOne ';' (after.dropWhile isBlank))
        else none
      | _ => none
    | _ => none

/-- What is left of a piece when calls that are statements are taken out. -/
def keepNested : Piece Call → Text
  | .plain c => [c]
  | .found t c => if c.nested then t else []

/-- Code without the calls that are statements; their parameters are no assignments. -/
def stripCalls (code : Text) : Text := (Text.cut call code).flatMap keepNested

def assignments (code : Text) : List Assignment := assignmentsIn (stripCalls code)

/-- A parameter of a call: a value that goes in, or a variable for what comes out. -/
structure Parameter where
  name : Text
  output : Bool
  expression : Text
  deriving DecidableEq

def parameter? (t : Text) : Option Parameter :=
  let t := t.dropWhile isBlank
  let name := t.takeWhile isWord
  if name.isEmpty then none
  else match arrow? ((t.dropWhile isWord).dropWhile isBlank) with
    | none => none
    | some (arrow, rest) => some ⟨name, arrow == "=>".toText, Text.trim rest⟩

def Call.parameterList (c : Call) : List Parameter :=
  (Text.partsAt ',' c.parameters).filterMap parameter?

end Source

/-! ## IF structures

An `IF` structure cut into its conditions and bodies. The words that structure it are whole words in
any letter case outside of literals; a structure inside of a body stays there as text. -/

namespace Source

/-- The words of an `IF` structure. A word with a dotted capital `İ` keeps it in capitals and is none
of the others: it closes a structure, but neither opens one nor counts as the end of an inner one. -/
inductive IfWord where
  | if | then | elsif | else | endIf | dotted
  deriving DecidableEq, Repr

namespace IfWord

/-- The words in small letters. -/
def spellings : List Text :=
  ["if".toText, "then".toText, "elsif".toText, "else".toText, "end_if".toText]

def ofUpper (t : Text) : IfWord :=
  if t = "IF".toText then .if
  else if t = "THEN".toText then .then
  else if t = "ELSIF".toText then .elsif
  else if t = "ELSE".toText then .else
  else if t = "END_IF".toText then .endIf
  else .dotted

end IfWord

/-- A literal, or a word of an `IF` structure. -/
def ifPart : Pattern (Option IfWord) := fun back t =>
  match afterLiteral? t with
  | some rest => some (none, rest)
  | none =>
    IfWord.spellings.findSome? fun word => (dropKeyword? word back t).map fun rest =>
      (some (.ofUpper (Text.upper (Lexeme.taken t rest).1)), rest)

/-- A structural word as it is written, and the text behind it up to the next one. -/
structure IfToken where
  word : IfWord
  spelling : Text
  after : Text
  deriving DecidableEq

def IfToken.text (token : IfToken) : Text := token.spelling ++ token.after

/-- Text before the first structural word, and the words with the texts behind them. -/
structure Skeleton where
  before : Text
  tokens : List IfToken

def Skeleton.ofPieces : List (Piece (Option IfWord)) → Skeleton
  | [] => ⟨[], []⟩
  | piece :: rest =>
    let s := ofPieces rest
    match piece with
    | .found t (some word) => ⟨[], ⟨word, t, s.before⟩ :: s.tokens⟩
    | piece => ⟨piece.text ++ s.before, s.tokens⟩

def Skeleton.ofText (code : Text) : Skeleton := ofPieces (Text.cut ifPart code)

/-- An `IF` structure: the code before it, its conditions with their bodies, what is done if none of
them holds, and the code behind it. -/
structure IfBlock where
  before : Text
  branches : List (Text × Text)
  otherwise : Option Text
  after : Text
  deriving DecidableEq

namespace IfBlock

/-- Where in a structure a text stands: in a condition, in the body of one, or behind `ELSE`. -/
inductive Phase where
  | condition
  | body (condition : Text)
  | otherwise
  deriving DecidableEq

/-- A text without the `;` at its start and the blanks before that. -/
def dropSemicolon (t : Text) : Text :=
  match t.dropWhile isBlank with
  | .char ';' :: rest => rest
  | _ => t

/-- The structure that tokens make, from a point inside of it on. `depth` counts the inner structures
that are open, and `text` is what was read of the condition or body at hand. -/
def close? (before : Text) (phase : Phase) (depth : Nat) (text : Text)
    (branches : List (Text × Text)) : List IfToken → Option IfBlock
  | [] => none
  | token :: rest =>
    if token.word = .if then close? before phase (depth + 1) (text ++ token.text) branches rest
    else if 0 < depth then
      close? before phase (if token.word = .endIf then depth - 1 else depth) (text ++ token.text)
        branches rest
    else
      let remaining := dropSemicolon (token.after ++ rest.flatMap IfToken.text)
      match phase, token.word with
      | .condition, .then =>
        if text.trim.isEmpty then none
        else close? before (.body text.trim) 0 token.after branches rest
      | .condition, _ => none
      | _, .then => none
      | .body c, .elsif => close? before .condition 0 token.after (branches ++ [(c, text)]) rest
      | .body c, .else => close? before .otherwise 0 token.after (branches ++ [(c, text)]) rest
      | .body c, _ => some ⟨before, branches ++ [(c, text)], none, remaining⟩
      | .otherwise, .elsif => none
      | .otherwise, .else => none
      | .otherwise, _ => some ⟨before, branches, some text, remaining⟩

/-- The first structure among tokens, behind a text. -/
def firstOf? (before : Text) : List IfToken → Option IfBlock
  | [] => none
  | token :: rest =>
    if token.word = .if then close? before .condition 0 token.after [] rest
    else firstOf? (before ++ token.text) rest

/-- The first `IF` structure of a text, if it is complete. -/
def split? (code : Text) : Option IfBlock :=
  let s := Skeleton.ofText code
  firstOf? s.before s.tokens

end IfBlock

end Source

/-! ## Loops

Headers of loops: `FOR … := … TO … BY … DO`, `WHILE … DO` and `UNTIL …`. What stands between the words
is as short as the words behind it allow, and is never empty. -/

namespace Source

/-- Some text, at least one character and as little as possible, before what a pattern recognises. -/
def shortestBefore {α : Type} (p : Pattern α) (back : Text) : Text → Option ((Text × α) × Text)
  | [] => none
  | c :: rest =>
    match p (c :: back) rest with
    | some (a, after) => some (([c], a), after)
    | none => (shortestBefore p (c :: back) rest).map fun ((t, a), after) => ((c :: t, a), after)

/-- What a pattern recognises behind `count` characters, or behind fewer, but not fewer than
`least`. -/
def afterAtMost {α : Type} (p : Pattern α) (least : Nat) (back t : Text) :
    (count : Nat) → Option (α × Text)
  | 0 => if least = 0 then p back t else none
  | count + 1 =>
    if count + 1 < least then none
    else match p ((t.take (count + 1)).reverse ++ back) (t.drop (count + 1)) with
      | some found => some found
      | none => afterAtMost p least back t count

/-- What a pattern recognises behind blanks, as many as possible but at least `least`. -/
def afterBlanks {α : Type} (least : Nat) (p : Pattern α) : Pattern α := fun back t =>
  afterAtMost p least back t (t.takeWhile isBlank).length

def afterWord {α : Type} (word : Text) (p : Pattern α) : Pattern α := fun back t =>
  match dropLoose? word t with
  | some rest => p ((Lexeme.taken t rest).1.reverse ++ back) rest
  | none => none

/-- Blanks and the word that ends a header. -/
def doWord : Pattern Unit := afterBlanks 1 fun _ t =>
  match dropLoose? "do".toText t with
  | some rest => if wordAhead rest then none else some ((), rest)
  | none => none

/-- A word at the start of a header, which does not touch a word before it. -/
def headerWord {α : Type} (word : Text) (p : Pattern α) : Pattern α := fun back t =>
  if wordAhead back then none else afterWord word p back t

/-- The header of a `FOR` loop. -/
structure ForHeader where
  counter : Text
  start : Text
  stop : Text
  step : Option Text
  deriving DecidableEq

/-- A step and the end of the header, or the end of the header alone. -/
def stepPart : Pattern (Option Text) := fun back t =>
  match afterBlanks 1 (afterWord "by".toText (afterBlanks 1 (shortestBefore doWord))) back t with
  | some ((step, _), rest) => some (some step, rest)
  | none => (doWord back t).map fun (_, rest) => (none, rest)

/-- The bound behind `TO`, and what follows it. -/
def stopPart : Pattern (Text × Option Text) :=
  afterBlanks 1 (afterWord "to".toText (afterBlanks 1 (shortestBefore stepPart)))

/-- The variable of a `FOR` loop and its bounds. -/
def forBody : Pattern ForHeader := fun back t =>
  let t := dropOne '"' (dropOne '#' t)
  let name := t.takeWhile isWord
  if name.isEmpty then none
  else match (dropOne '"' (t.dropWhile isWord)).dropWhile isBlank with
    | .char ':' :: .char '=' :: body =>
      (afterBlanks 0 (shortestBefore stopPart) ('=' :: back) body).map
        fun ((start, stop, step), rest) => (⟨name, start, stop, step⟩, rest)
    | _ => none

/-- The header of a `FOR` loop. -/
def forHeader : Pattern ForHeader := headerWord "for".toText (afterBlanks 1 forBody)

/-- The condition of a `WHILE` loop. -/
def whileHeader : Pattern Text := fun back t =>
  (headerWord "while".toText (afterBlanks 1 (shortestBefore doWord)) back t).map
    fun ((condition, _), rest) => (condition, rest)

/-- The end of the condition of a `REPEAT` loop: a `;`, the word that ends the loop, or the end of the
text, behind any blanks. -/
def untilEnd : Pattern Unit := fun back t =>
  match t.dropWhile isBlank with
  | [] => some ((), [])
  | .char ';' :: rest => some ((), rest)
  | rest =>
    (dropKeyword? "end_repeat".toText ((t.takeWhile isBlank).reverse ++ back) rest).map ((), ·)

/-- The condition of a `REPEAT` loop. -/
def untilHeader : Pattern Text := fun back t =>
  (headerWord "until".toText (afterBlanks 1 (shortestBefore untilEnd)) back t).map
    fun ((condition, _), rest) => (condition, rest)

end Source

/-! ## CASE statements

`CASE` statements: the selector, and the labels of the branches, which are lists of whole numbers and
ranges. -/

namespace Source

/-- The selector of a `CASE` statement as it is written, with `#` and double quotes. -/
def caseHeader : Pattern Text := fun back t =>
  if wordAhead back then none
  else match dropLoose? "case".toText t with
    | none => none
    | some rest =>
      let body := rest.dropWhile isBlank
      let named := dropOne '"' (dropOne '#' body)
      let after := dropOne '"' (named.dropWhile fun c => isWord c || c == '.')
      let ending := after.dropWhile isBlank
      if body.length = rest.length ∨ ending.length = after.length ∨
          !named.head?.any (fun c => isWord c || c == '.') then none
      else match dropLoose? "of".toText ending with
        | some tail => if wordAhead tail then none else some ((Lexeme.taken body after).1, tail)
        | none => none

/-- What follows a whole number, with a minus or without, at the start of a text. -/
def afterNumber? (t : Text) : Option Text :=
  let digits := dropOne '-' t
  if digits.head?.any isDecimal then some (digits.dropWhile isDecimal) else none

/-- What follows a whole number or a range at the start of a text. -/
def afterRange? (t : Text) : Option Text :=
  match afterNumber? t with
  | none => none
  | some rest =>
    match rest.dropWhile isBlank with
    | .char '.' :: .char '.' :: high => some ((afterNumber? (high.dropWhile isBlank)).getD rest)
    | _ => some rest

/-- What follows more numbers and ranges, each behind a comma; `fuel` bounds their number. -/
def afterRanges : (fuel : Nat) → Text → Text
  | 0, t => t
  | fuel + 1, t =>
    match t.dropWhile isBlank with
    | .char ',' :: item =>
      match afterRange? (item.dropWhile isBlank) with
      | some rest => afterRanges fuel rest
      | none => t
    | _ => t

/-- A label at the start of a text: numbers and ranges with commas between them, and a colon that
does not belong to `:=`. -/
def label? (t : Text) : Option (Text × Text) :=
  let t := t.dropWhile isBlank
  match afterRange? t with
  | none => none
  | some rest =>
    let rest := afterRanges rest.length rest
    match rest.dropWhile isBlank with
    | .char ':' :: after =>
      if after.head? = some '=' then none else some ((Lexeme.taken t rest).1, after)
    | _ => none

def atLineStart (back : Text) : Bool := back.isEmpty || back.head? = some '\n'

/-- A label where one can stand: at the start of a line, or behind `;`, `OF` or `END_IF`. -/
def caseLabel : Pattern Text := fun back t =>
  let line := if atLineStart back then label? t else none
  let statement := match t with
    | .char ';' :: rest => label? rest
    | _ => none
  let opening := (dropKeyword? "of".toText back t).bind label?
  let closing := (dropKeyword? "end_if".toText back t).bind label?
  line <|> statement <|> opening <|> closing

def labelNumber (t : Text) : Except Fault Int :=
  match Numeral.read 10 t with
  | .ok n => .ok n
  | .error fault => .error (.badNumeral fault)

/-- Whether a number or a range of a label holds the selector; both ends of a range belong to it. -/
def rangeHolds (selector : Int) (part : Text) : Except Fault Bool :=
  match Text.splitOnce? ['.', '.'] part with
  | some (low, high) => do
    if (← labelNumber low) ≤ selector then return decide (selector ≤ (← labelNumber high))
    else return false
  | none => do return (← labelNumber part) == selector

def anyHolds (selector : Int) : List Text → Except Fault Bool
  | [] => .ok false
  | part :: rest => do
    if ← rangeHolds selector part then return true
    anyHolds selector rest

def labelHolds (selector : Int) (label : Text) : Except Fault Bool :=
  anyHolds selector (Text.partsAt ',' label)

def firstLabel? (selector : Int) : List Text → Except Fault (Option Text)
  | [] => .ok none
  | label :: rest => do
    if ← labelHolds selector label then return some label
    firstLabel? selector rest

/-- The labels in the body of a `CASE` statement, in order. -/
def caseLabels (body : Text) : List Text := Text.findAll caseLabel body

/-- Whether a body mentions `ELSE`. -/
def hasElse (body : Text) : Bool := Construct.mentions "else".toText body

end Source

end SclNarrator
