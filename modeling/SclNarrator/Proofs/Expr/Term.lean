import Mathlib.Algebra.Group.Nat.Defs
import Mathlib.Data.List.Chain
import SclNarrator.Expr.Evaluate
import SclNarrator.Proofs.Text.Cut
import SclNarrator.Proofs.Text.Stretch

/-!
Expressions as a programmer writes them: with every operation in parentheses and a space between any
two words. A term has a text, and it has an expression, which can be evaluated without going through
the text. Numerals, quoted texts and names carry the proof that they are such.

The text of a term is also a flat list of items: marks and operators, the word for negation, the spaces,
and the leaves of the term. What the stages of evaluation do to the text they do item by item, so the
items and what may stand next to what (`Item.meets`) are all that the later modules need to know about
it.
-/

namespace SclNarrator

/-! ## Terms -/

namespace Term

/-- The words that stand for operators and constants, folded. -/
def reservedWords : List Text :=
  ["and", "or", "xor", "not", "mod", "true", "false", "null", "infinity", "nan"].map String.toText

/-- Whether a text is an identifier: a letter or `_`, then word characters. -/
def isIdentifier : Text → Bool
  | [] => false
  | c :: rest => isNameStart c && rest.all isWord

/-- Whether a text can be a name: an identifier that is no reserved word in any letter case. -/
def isName (t : Text) : Bool := isIdentifier t && !reservedWords.contains t.fold

theorem isWord_of_isIdentifier {t : Text} (h : isIdentifier t = true) : ∀ c ∈ t, isWord c = true := by
  cases t with
  | nil => simp
  | cons c rest =>
    simp only [isIdentifier, Bool.and_eq_true, List.all_eq_true] at h
    exact List.forall_mem_cons.mpr ⟨isWord_of_isNameStart h.1, h.2⟩

theorem ne_nil_of_isIdentifier {t : Text} (h : isIdentifier t = true) : t ≠ [] := by
  rintro rfl
  cases h

/-- Whether a character can stand in a quoted text. -/
def isQuotable (c : CodePoint) : Bool := c != '\'' && c != '"'

structure Name where
  text : Text
  valid : isName text = true

/-- A natural number that is not too long to be written. -/
structure Natural where
  value : Nat
  short : value < 10 ^ Numeral.digitLimit

/-- A text that can stand between apostrophes. -/
structure Quotable where
  text : Text
  valid : text.all isQuotable = true

end Term

inductive Term where
  | number (n : Term.Natural)
  | truth (b : Bool)
  | quoted (t : Term.Quotable)
  | variable (name : Term.Name)
  | binary (op : BinaryOp) (left right : Term)
  | not (operand : Term)
  | neg (operand : Term)
  | call (function : Term.Name) (args : List Term)

def BinaryOp.sign : BinaryOp → Text
  | .add => "+".toText
  | .sub => "-".toText
  | .mul => "*".toText
  | .div => "/".toText
  | .mod => "MOD".toText
  | .and => "AND".toText
  | .or => "OR".toText
  | .eq => "=".toText
  | .ne => "<>".toText
  | .gt => ">".toText
  | .ge => ">=".toText
  | .lt => "<".toText
  | .le => "<=".toText

namespace Term

mutual

/-- The words of a term. Every operation stands in parentheses. -/
def words : Term → List Text
  | .number n => [Numeral.natText n.value]
  | .truth b => [(if b then "TRUE" else "FALSE").toText]
  | .quoted t => [.char '\'' :: t.text ++ [.char '\'']]
  | .variable name => [name.text]
  | .binary op left right => ["(".toText] ++ left.words ++ [op.sign] ++ right.words ++ [")".toText]
  | .not operand => ["(".toText, "NOT".toText] ++ operand.words ++ [")".toText]
  | .neg operand => ["(".toText, "-".toText] ++ operand.words ++ [")".toText]
  | .call function args => [function.text, "(".toText] ++ argWords args ++ [")".toText]

/-- The words of arguments, with a comma between any two of them. -/
def argWords : List Term → List Text
  | [] => []
  | [arg] => arg.words
  | arg :: next :: args => arg.words ++ [",".toText] ++ argWords (next :: args)

end

/-- The text of a term: its words with a space between them. -/
def text (t : Term) : Text := Text.join " ".toText t.words

mutual

/-- The expression that a term stands for. A function goes by its name in capitals. -/
def expr : Term → Expr
  | .number n => .literal (.int n.value)
  | .truth b => .literal (.bool b)
  | .quoted t => .literal (.text t.text)
  | .variable name => .variable name.text
  | .binary op left right => .binary op left.expr right.expr
  | .not operand => .unary .not operand.expr
  | .neg operand => .unary .neg operand.expr
  | .call function args => .call function.text.upper (argExprs args)

def argExprs : List Term → List Expr
  | [] => []
  | arg :: args => arg.expr :: argExprs args

end

mutual

def functions : Term → List Name
  | .number _ | .truth _ | .quoted _ | .variable _ => []
  | .binary _ left right => left.functions ++ right.functions
  | .not operand | .neg operand => operand.functions
  | .call function args => function :: argFunctions args

def argFunctions : List Term → List Name
  | [] => []
  | arg :: args => arg.functions ++ argFunctions args

end

end Term

/-- Whether a value can be written inside an expression and read back: it is not complex, and no whole
number that is too long. -/
def Value.isWritable : Value → Bool
  | .complex _ => false
  | .int n => Numeral.fits n
  | _ => true

/-- An environment whose bindings can be written inside an expression. -/
structure Environment.Writable (env : Environment) : Prop where
  names : ∀ b ∈ env.bindings, Term.isName b.name = true
  values : ∀ b ∈ env.bindings, b.value.isWritable = true

/-! ## Items -/

/-- Parentheses, the comma and the binary operators. A sign in front of an operand is the operator of
subtraction. -/
inductive Mark where
  | opening | closing | comma
  | op (o : BinaryOp)

def Mark.text : Mark → Text
  | .opening => "(".toText
  | .closing => ")".toText
  | .comma => ",".toText
  | .op o => o.sign

def Mark.symbol : Mark → Text
  | .opening => "(".toText
  | .closing => ")".toText
  | .comma => ",".toText
  | .op .mod => "%".toText
  | .op .and => "&&".toText
  | .op .or => "||".toText
  | .op .eq => "==".toText
  | .op .ne => "!=".toText
  | .op o => o.sign

/-- An item of a text: a space, the word for negation with the space behind it, a mark, or a leaf. -/
inductive Item (α : Type) where
  | space
  | not
  | mark (m : Mark)
  | leaf (a : α)

namespace Item

variable {α β : Type}

def map (f : α → β) : Item α → Item β
  | space => space
  | not => not
  | mark m => mark m
  | leaf a => leaf (f a)

def isStart : Item α → Bool
  | mark .opening | leaf _ => true
  | _ => false

/-- Whether an item can stand in front of another. Words have spaces between them, and the word for
negation stands in front of an operand. -/
def meets : Item α → Item α → Bool
  | space, space => false
  | space, _ => true
  | not, next => next.isStart
  | mark _, space | leaf _, space => true
  | _, _ => false

theorem eq_space_of_meets {a b : Item α} (h : a.meets b = true) (ne : a ≠ space) (ne' : a ≠ not) :
    b = space := by
  cases a with
  | space => exact absurd rfl ne
  | not => exact absurd rfl ne'
  | mark m | leaf x => cases b <;> first | rfl | cases h

/-- The items with spaces between them; the word for negation has its own. -/
def spaced : List (Item α) → List (Item α)
  | [] => []
  | [item] => [item]
  | not :: next :: rest => not :: spaced (next :: rest)
  | item :: next :: rest => item :: space :: spaced (next :: rest)

/-- Whether items are words, and an operand stands behind every negation. -/
def proper : List (Item α) → Bool
  | [] => true
  | space :: _ => false
  | not :: rest => (rest.head?.any isStart) && proper rest
  | mark _ :: rest | leaf _ :: rest => proper rest

theorem proper_append {xs ys : List (Item α)} (hx : proper xs = true) (hy : proper ys = true) :
    proper (xs ++ ys) = true := by
  induction xs with
  | nil => exact hy
  | cons x xs ih =>
    cases x with
    | space => simp [proper] at hx
    | not =>
      simp only [proper, Bool.and_eq_true] at hx
      cases xs with
      | nil => simp at hx
      | cons next rest =>
        simp only [List.cons_append, proper, Bool.and_eq_true] at ih ⊢
        exact ⟨hx.1, ih hx.2⟩
    | mark m => exact ih hx
    | leaf a => exact ih hx

theorem exists_spaced_cons (item : Item α) (rest : List (Item α)) :
    ∃ more, spaced (item :: rest) = item :: more := by
  cases rest with
  | nil => exact ⟨[], rfl⟩
  | cons next rest =>
    cases item with
    | not => exact ⟨_, rfl⟩
    | space | mark m | leaf a => exact ⟨_, rfl⟩

theorem space_meets {item : Item α} {rest : List (Item α)} (h : proper (item :: rest) = true) :
    (space : Item α).meets item = true := by
  cases item with
  | space => simp [proper] at h
  | not | mark m | leaf a => rfl

theorem isChain_spaced {items : List (Item α)} (h : proper items = true) :
    (spaced items).IsChain fun a b => a.meets b = true := by
  induction items with
  | nil => exact .nil
  | cons item rest ih =>
    cases rest with
    | nil => exact .singleton _
    | cons next rest =>
      obtain ⟨more, same⟩ := exists_spaced_cons next rest
      rw [same] at ih
      cases item with
      | space => simp [proper] at h
      | not =>
        rw [proper, Bool.and_eq_true] at h
        rw [spaced, same]
        exact .cons_cons h.1 (ih h.2)
      | mark m =>
        rw [spaced, same]
        · exact .cons_cons rfl (.cons_cons (space_meets h) (ih h))
        · simp
      | leaf a =>
        rw [spaced, same]
        · exact .cons_cons rfl (.cons_cons (space_meets h) (ih h))
        · simp

end Item

/-! ### The items of a term -/

inductive Leaf where
  | number (n : Term.Natural)
  | truth (b : Bool)
  | quoted (t : Term.Quotable)
  | name (n : Term.Name)

def Leaf.text : Leaf → Text
  | .number n => Numeral.natText n.value
  | .truth b => (if b then "TRUE" else "FALSE").toText
  | .quoted t => .char '\'' :: t.text ++ [.char '\'']
  | .name n => n.text

def Item.word : Item Leaf → Text
  | .space => []
  | .not => "NOT".toText
  | .mark m => m.text
  | .leaf a => a.text

/-- The text of an item; the word for negation has the space behind it. -/
def Item.text {α : Type} (f : α → Text) : Item α → Text
  | .space => " ".toText
  | .not => "NOT ".toText
  | .mark m => m.text
  | .leaf a => f a

namespace Term

mutual

def items : Term → List (Item Leaf)
  | .number n => [.leaf (.number n)]
  | .truth b => [.leaf (.truth b)]
  | .quoted t => [.leaf (.quoted t)]
  | .variable name => [.leaf (.name name)]
  | .binary op left right =>
    [.mark .opening] ++ left.items ++ [.mark (.op op)] ++ right.items ++ [.mark .closing]
  | .not operand => [.mark .opening, .not] ++ operand.items ++ [.mark .closing]
  | .neg operand => [.mark .opening, .mark (.op .sub)] ++ operand.items ++ [.mark .closing]
  | .call function args =>
    [.leaf (.name function), .mark .opening] ++ argItems args ++ [.mark .closing]

def argItems : List Term → List (Item Leaf)
  | [] => []
  | [arg] => arg.items
  | arg :: next :: args => arg.items ++ [.mark .comma] ++ argItems (next :: args)

end

mutual

theorem words_eq : (t : Term) → t.words = t.items.map Item.word
  | .number _ | .truth _ | .quoted _ | .variable _ => rfl
  | .binary op left right => by
    simp [words, items, words_eq left, words_eq right, Item.word, Mark.text]
  | .not operand => by simp [words, items, words_eq operand, Item.word, Mark.text]
  | .neg operand => by simp [words, items, words_eq operand, Item.word, Mark.text, BinaryOp.sign]
  | .call function args => by simp [words, items, argWords_eq args, Item.word, Mark.text, Leaf.text]

theorem argWords_eq : (args : List Term) → argWords args = (argItems args).map Item.word
  | [] => rfl
  | [arg] => by simp [argWords, argItems, words_eq arg]
  | arg :: next :: args => by
    simp [argWords, argItems, words_eq arg, argWords_eq (next :: args), Item.word, Mark.text]

end

theorem exists_items_eq (t : Term) : ∃ first rest, t.items = first :: rest ∧ first.isStart = true := by
  cases t <;> exact ⟨_, _, rfl, rfl⟩

mutual

theorem proper_items : (t : Term) → Item.proper t.items = true
  | .number _ | .truth _ | .quoted _ | .variable _ => rfl
  | .binary op left right => by
    rw [items]
    exact Item.proper_append (Item.proper_append (Item.proper_append (Item.proper_append rfl
      (proper_items left)) rfl) (proper_items right)) rfl
  | .not operand => by
    obtain ⟨first, rest, same, start⟩ := exists_items_eq operand
    have inner := proper_items operand
    have negated : Item.proper (.not :: operand.items) = true := by
      rw [Item.proper, inner, same]
      simpa using start
    rw [items]
    exact Item.proper_append negated rfl
  | .neg operand => by
    rw [items]
    exact Item.proper_append (Item.proper_append rfl (proper_items operand)) rfl
  | .call function args => by
    rw [items]
    exact Item.proper_append (Item.proper_append rfl (proper_argItems args)) rfl

theorem proper_argItems : (args : List Term) → Item.proper (argItems args) = true
  | [] => rfl
  | [arg] => by
    rw [argItems]
    exact proper_items arg
  | arg :: next :: args => by
    rw [argItems]
    exact Item.proper_append (Item.proper_append (proper_items arg) rfl) (proper_argItems (next :: args))

end

theorem join_eq {items : List (Item Leaf)} (h : Item.proper items = true) :
    Text.join " ".toText (items.map Item.word)
      = (Item.spaced items).flatMap (Item.text Leaf.text) := by
  induction items with
  | nil => rfl
  | cons item rest ih =>
    cases rest with
    | nil =>
      cases item with
      | space | not => simp [Item.proper] at h
      | mark m | leaf a => simp [Text.join, Item.spaced, Item.word, Item.text]
    | cons next rest =>
      cases item with
      | space => simp [Item.proper] at h
      | not =>
        rw [Item.proper, Bool.and_eq_true] at h
        have later := ih h.2
        simp only [List.map_cons, Text.join, Item.spaced, List.flatMap_cons] at later ⊢
        rw [later]
        rfl
      | mark m =>
        have later := ih h
        simp only [List.map_cons, Text.join, Item.spaced, List.flatMap_cons] at later ⊢
        rw [later, List.append_assoc]
        rfl
      | leaf a =>
        have later := ih h
        simp only [List.map_cons, Text.join, Item.spaced, List.flatMap_cons] at later ⊢
        rw [later, List.append_assoc]
        rfl

theorem text_eq (t : Term) : t.text = (Item.spaced t.items).flatMap (Item.text Leaf.text) := by
  rw [text, words_eq, join_eq (proper_items t)]

end Term

end SclNarrator
