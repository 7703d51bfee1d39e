import SclNarrator.Expr.Parse
import SclNarrator.Tag.Basic
import SclNarrator.Text.Basic
import SclNarrator.Value.Basic
import SclNarrator.Value.Decode

/-!
Environments, and what an environment and the vocabulary of the language make of the text of an
expression before it is parsed: names give way to the texts of their values, and operator words to
symbols. Both are done to the code between string literals alone, but for names in double quotes.

Correspondence (analyzer ↔ here):
  `LocalBinding`, `LocalEnvironment` ↔ `Binding`, `Environment`
  `LocalEnvironment.from_snapshot`   ↔ `Environment.seed`
  `lookup`, `bind_computed`          ↔ `Environment.lookup`, `Environment.bind`
  `names`, `source_text`, `computed` ↔ `Environment.names`, `.source`, `.computed`
  `_outside_strings`                 ↔ `Alternation.mapCode`, `Alternation.mapCodeM`
  `substitute`                       ↔ `Environment.substitute`
  `rewrite_operators`                ↔ `Vocabulary.symbolize`
-/

namespace SclNarrator

/-! ## Environments

The environment of a run: which value each name has. Names that differ in letter case only are one
name. The environment starts with the tags of a snapshot; assignments add bindings or replace them,
and bindings that were assigned come after those that were not. -/

/-- Where a binding comes from: the snapshot or an assignment. -/
inductive Origin where
  | cache | computed
  deriving DecidableEq, Repr

def Origin.name : Origin → Text
  | .cache => "cache".toText
  | .computed => "computed".toText

structure Binding where
  name : Text
  value : Value
  declaredType : Text
  origin : Origin
  deriving DecidableEq

/-- Bindings under the folded forms of their names, in order. -/
structure Environment where
  entries : List (Text × Binding) := []
  deriving DecidableEq

namespace Environment

/-- The form under which a name is looked up: without leading `#`, folded. -/
def lookupKey (name : Text) : Text := (Text.dropLeading '#' name).fold

def lookup (env : Environment) (name : Text) : Option Binding :=
  env.entries.lookup (lookupKey name)

/-- The environment with one more tag, unless its name is bound already. -/
def seedTag (env : Environment) (tag : Tag) : Except Fault Environment :=
  if (env.lookup tag.name).isSome then .ok env
  else do
    let value ← Value.decode tag.value tag.dataType
    return ⟨putKey tag.name.fold ⟨tag.name, value, tag.dataType, .cache⟩ env.entries⟩

/-- The environment that the tags of a snapshot make, in order. -/
def seed (snapshot : Snapshot) : Except Fault Environment := snapshot.tags.foldlM seedTag {}

/-- The environment after an assignment. A binding of the snapshot gives way and the new one goes to
the end; one that was assigned before is replaced in its place. Complex numbers are refused. -/
def bind (env : Environment) (name : Text) (value : Value) (declaredType : Text) :
    Except Fault Environment :=
  match value with
  | .complex _ => .error .complexBinding
  | value =>
    let key := name.fold
    let binding : Binding := ⟨name, value, declaredType, .computed⟩
    match env.entries.lookup key with
    | some ⟨_, _, _, .cache⟩ => .ok ⟨env.entries.filter (·.1 != key) ++ [(key, binding)]⟩
    | _ => .ok ⟨putKey key binding env.entries⟩

def bindings (env : Environment) : List Binding := env.entries.map Prod.snd

/-- The bindings that were assigned, in the order of their first assignment. -/
def computed (env : Environment) : List Binding := env.bindings.filter (·.origin = .computed)

/-- The bound names, longer ones first. -/
def names (env : Environment) : List Text :=
  (env.bindings.map Binding.name).mergeSort fun a b => decide (b.length ≤ a.length)

/-- The text that stands for a name's value in an expression; `0` for a name that is not bound. -/
def source (env : Environment) (name : Text) : Except Fault Text :=
  match env.lookup name with
  | some binding => binding.value.source
  | none => .ok ['0']

end Environment

/-! ## String literals in expressions

Expression text cut into string literals and the code between them. What is done to names and operators
is done to the code alone, part by part. -/

/-- A string literal, between double quotes or apostrophes. -/
def stringLiteral : Pattern Unit := fun _ t =>
  (Lexeme.string? t).map fun (_, rest) => ((), rest)

/-- Code parts with literals between them. -/
structure Alternation where
  first : Text
  rest : List (Text × Text)

namespace Alternation

/-- The parts that the pieces of a cut make: plain characters next to each other make a code part, and
a literal ends one. -/
def ofPieces : List (Piece Unit) → Alternation
  | [] => ⟨[], []⟩
  | .plain c :: pieces => let a := ofPieces pieces; ⟨c :: a.first, a.rest⟩
  | .found literal _ :: pieces => let a := ofPieces pieces; ⟨[], (literal, a.first) :: a.rest⟩

def ofText (t : Text) : Alternation := ofPieces (Text.cut stringLiteral t)

def literals (a : Alternation) : List Text := a.rest.map Prod.fst

/-- The code parts, in order; one more than there are literals. -/
def codes (a : Alternation) : List Text := a.first :: a.rest.map Prod.snd

/-- The parts put together again. -/
def text (a : Alternation) : Text := a.first ++ a.rest.flatMap fun (literal, code) => literal ++ code

/-- The parts with every code part changed. -/
def mapCode (f : Text → Text) (a : Alternation) : Alternation :=
  ⟨f a.first, a.rest.map fun (literal, code) => (literal, f code)⟩

/-- The parts with every code part changed by something that can fail. -/
def mapCodeM (f : Text → Except Fault Text) (a : Alternation) : Except Fault Alternation := do
  let first ← f a.first
  let rest ← a.rest.mapM fun (literal, code) => do return (literal, ← f code)
  return ⟨first, rest⟩

end Alternation

/-! ## Names replaced by values

Names in an expression replaced by the texts of their values. First come tag names in double quotes,
wherever they stand; then bound names outside of string literals, in the spelling in which they are
bound. A name does not touch a word character or a point on its left, nor one of these or a `#` on
its right. -/

/-- Something between double quotes that is not empty; the text between them. -/
def quotedName : Pattern Text := fun _ t =>
  match t with
  | .char '"' :: body =>
    match body.takeWhile (· != .char '"'), body.dropWhile (· != .char '"') with
    | [], _ => none
    | _, [] => none
    | name, _ :: rest => some (name, rest)
  | _ => none

namespace Substitution

/-- The text with every match replaced by what `f` makes of it. -/
def replaceAllM (p : Pattern Text) (f : Text → Except Fault Text) (t : Text) : Except Fault Text := do
  let parts ← (Text.cut p t).mapM fun piece =>
    match piece with
    | .plain c => .ok [c]
    | .found _ name => f name
  return parts.flatten

/-- Whether a name may start behind this character. -/
def allowsNameAfter (back : Text) : Bool := !back.head?.any fun c => isWord c || c == '.'

def allowsNameBefore (t : Text) : Bool := !t.head?.any fun c => isWord c || c == '.' || c == '#'

/-- The first of the names that stands at this point. -/
def nameAt? (names : List Text) (back t : Text) : Option Text :=
  if allowsNameAfter back then
    names.find? fun name =>
      match Text.dropPart? name t with
      | some rest => allowsNameBefore rest
      | none => false
  else none

/-- The text from a point on with the names replaced. The first `skip` characters belong to the name
before, and `back` is the text before the point, reversed. An empty name stands at every point where it
may stand. -/
def replaceNames (names : List Text) (f : Text → Except Fault Text) (skip : Nat) (back : Text) :
    Text → Except Fault Text
  | [] =>
    match nameAt? names back [] with
    | none => .ok []
    | some name => f name
  | c :: rest =>
    match skip with
    | n + 1 => replaceNames names f n (c :: back) rest
    | 0 =>
      match nameAt? names back (c :: rest) with
      | none => do return c :: (← replaceNames names f 0 (c :: back) rest)
      | some [] => do
        let value ← f []
        return value ++ c :: (← replaceNames names f 0 (c :: back) rest)
      | some (d :: ds) => do
        let value ← f (d :: ds)
        return value ++ (← replaceNames names f ds.length (c :: back) rest)

end Substitution

/-- An expression with its names replaced by the texts of their values. -/
def Environment.substitute (env : Environment) (expression : Text) : Except Fault Text := do
  let t ← Substitution.replaceAllM quotedName env.source expression
  match env.names with
  | [] => return t
  | names => do
    let parts ← (Alternation.ofText t).mapCodeM (Substitution.replaceNames names env.source 0 [])
    return parts.text

/-! ## Operator words

The operator words of the language and the symbols that the expression grammar has for them. Words are
whole words in any letter case; string literals are left alone. -/

namespace Vocabulary

def word (keyword replacement : Text) : Pattern Text := fun back t =>
  (dropKeyword? keyword back t).map (replacement, ·)

/-- The word for negation with the blanks behind it. -/
def negation : Pattern Text := fun back t =>
  (dropKeyword? "not".toText back t).map fun rest => (['!'], rest.dropWhile isBlank)

def inequality : Pattern Text := fun _ t =>
  match t with
  | .char '<' :: .char '>' :: rest => some (['!', '='], rest)
  | _ => none

/-- Whether a character makes an equals sign behind it part of another sign. -/
def extendsEquals (c : CodePoint) : Bool := c == '<' || c == '>' || c == '!' || c == '=' || c == ':'

def equality : Pattern Text := fun back t =>
  match t with
  | .char '=' :: rest =>
    if back.head?.any extendsEquals || rest.head? = some '=' then none
    else some (['=', '='], rest)
  | _ => none

def replacements : List (Pattern Text) :=
  [word "and".toText ['&', '&'], word "xor".toText ['!', '='], word "or".toText ['|', '|'],
    negation, word "mod".toText ['%'], word "true".toText "true".toText,
    word "false".toText "false".toText, inequality, equality]

/-- A code part with its operator words and signs replaced. -/
def symbolizeCode (t : Text) : Text := replacements.foldl (fun t p => Text.replaceAll p t) t

/-- A text with operator words and signs replaced outside of string literals. -/
def symbolize (t : Text) : Text := ((Alternation.ofText t).mapCode symbolizeCode).text

end Vocabulary

end SclNarrator
