import SclNarrator.Proofs.Expr.Scan

/-!
Tokens of a term as an expression. Every operation stands in parentheses, so an operand is what the
parser reads at any level (`yields_or_of_unary`), a binary operation is read at the level of its
operator (`yields_or_of_binary`), and the tokens of a term are read as the term, with what stands
for its leaves in their place (`yields_term`).
-/

namespace SclNarrator

def BinaryOp.level : BinaryOp → Level
  | .or => .or
  | .and => .and
  | .eq | .ne => .equality
  | .lt | .gt | .le | .ge => .relation
  | .add | .sub => .sum
  | .mul | .div | .mod => .product

def Level.rank : Level → Nat
  | .or => 0
  | .and => 1
  | .equality => 2
  | .relation => 3
  | .sum => 4
  | .product => 5

namespace Level

theorem rank_le (level : Level) : level.rank ≤ 5 := by cases level <;> decide

theorem rank_inj {a b : Level} (h : a.rank = b.rank) : a = b := by
  cases a <;> cases b <;> first | rfl | cases h

theorem exists_tighter {level : Level} (h : level.rank < 5) :
    ∃ tighter, level.tighter? = some tighter ∧ tighter.rank = level.rank + 1 := by
  cases level with
  | product => simp [rank] at h
  | or | and | equality | relation | sum => exact ⟨_, rfl, rfl⟩

theorem exists_looser {level : Level} (h : 0 < level.rank) :
    ∃ looser : Level, looser.tighter? = some level ∧ looser.rank + 1 = level.rank := by
  cases level with
  | or => simp [rank] at h
  | and => exact ⟨.or, rfl, rfl⟩
  | equality => exact ⟨.and, rfl, rfl⟩
  | relation => exact ⟨.equality, rfl, rfl⟩
  | sum => exact ⟨.relation, rfl, rfl⟩
  | product => exact ⟨.sum, rfl, rfl⟩

theorem lookup_symbol (level : Level) (o : BinaryOp) :
    level.operators.lookup (Mark.op o).symbol = if level = o.level then some o else none := by
  cases level <;> cases o <;> rfl

theorem lookup_closing (level : Level) : level.operators.lookup Mark.closing.symbol = none := by
  cases level <;> rfl

theorem lookup_comma (level : Level) : level.operators.lookup Mark.comma.symbol = none := by
  cases level <;> rfl

end Level

namespace Token

variable {token : Token} {u v : Text} {kind : TokenKind}

theorem isOp_eq (h : token.shape = (kind, u)) (v : Text) :
    token.isOp v = (decide (kind = .op) && decide (u = v)) := by
  cases h
  rfl

theorem isOp_eq_false (h : token.shape ≠ (.op, v)) : token.isOp v = false := by
  rw [isOp_eq (Prod.mk.eta.symm : token.shape = (token.kind, token.text)), Bool.and_eq_false_iff,
    decide_eq_false_iff_not, decide_eq_false_iff_not, ← not_and_or]
  rintro ⟨kind, text⟩
  exact h (Prod.ext kind text)

theorem binary?_eq (h : token.shape = (kind, u)) (level : Level) :
    token.binary? level = if kind = .op then level.operators.lookup u else none := by
  cases h
  rfl

/-- Whether no operator of a level comes next. -/
def Halts (level : Level) (rest : List Token) : Prop :=
  ∀ token ∈ rest.head?, token.binary? level = none

/-- Whether no arguments come next. -/
def NoCall (rest : List Token) : Prop := ∀ token ∈ rest.head?, token.isOp ['('] = false

/-- Whether an operand is over here: nothing is left, or a comma or a closing parenthesis. -/
def Closed (rest : List Token) : Prop :=
  ∀ token ∈ rest.head?, token.shape = (.op, Mark.closing.symbol) ∨
    token.shape = (.op, Mark.comma.symbol)

theorem Closed.halts {rest : List Token} (closed : Closed rest) (level : Level) : Halts level rest := by
  intro token mem
  rcases closed token mem with shape | shape
  · rw [binary?_eq shape, if_pos rfl, level.lookup_closing]
  · rw [binary?_eq shape, if_pos rfl, level.lookup_comma]

theorem Closed.noCall {rest : List Token} (closed : Closed rest) : NoCall rest := by
  intro token mem
  rcases closed token mem with shape | shape
  · rw [isOp_eq shape]
    decide
  · rw [isOp_eq shape]
    decide

end Token
namespace Expr

open Token

variable {α : Type} {n m : Nat} {level : Level} {tokens rest : List Token} {e left right : Expr}

/-- Whether a step of parsing yields something from some amount of fuel on. -/
def Yields (n : Nat) (step : Nat → Parsed α) (a : α) (rest : List Token) : Prop :=
  ∀ fuel, n ≤ fuel → step fuel = .ok (a, rest)

theorem Yields.mono {step : Nat → Parsed α} {a : α} (h : Yields n step a rest) (le : n ≤ m) :
    Yields m step a rest :=
  fun fuel enough => h fuel (Nat.le_trans le enough)

theorem yields_succ {step : Nat → Parsed α} {a : α}
    (h : ∀ fuel, n ≤ fuel → step (fuel + 1) = .ok (a, rest)) : Yields (n + 1) step a rest := by
  intro fuel enough
  obtain ⟨fuel, rfl⟩ := Nat.exists_eq_add_of_le' (Nat.le_trans (Nat.le_add_left 1 n) enough)
  exact h fuel (by omega)

/-! ## Levels -/

theorem parseTail_of_halts (stop : Halts level rest) (fuel : Nat) (left : Expr) :
    parseTail (fuel + 1) level left rest = .ok (left, rest) := by
  cases rest with
  | nil => rfl
  | cons token rest => simp only [parseTail, stop token rfl]

theorem yields_level_of_operand (h : Yields (n + 1) (parseOperand · level tokens) e rest)
    (stop : Halts level rest) : Yields (n + 2) (parseLevel · level tokens) e rest := by
  apply yields_succ
  intro fuel enough
  obtain ⟨fuel, rfl⟩ := Nat.exists_eq_add_of_le' (Nat.le_trans (Nat.le_add_left 1 n) enough)
  simp only [parseLevel, h (fuel + 1) enough]
  exact parseTail_of_halts stop fuel e

theorem yields_operand_of_tighter {tighter : Level} (next : level.tighter? = some tighter)
    (h : Yields n (parseLevel · tighter tokens) e rest) :
    Yields (n + 1) (parseOperand · level tokens) e rest := by
  apply yields_succ
  intro fuel enough
  simp only [parseOperand, next]
  exact h fuel enough

theorem yields_operand_of_unary (h : Yields n (parseUnary · tokens) e rest)
    (stop : ∀ other : Level, level.rank < other.rank → Halts other rest) :
    Yields (n + 11) (parseOperand · level tokens) e rest := by
  -- By the number of levels that are tighter.
  have general : ∀ k level, level.rank + k = 5 →
      (∀ other : Level, level.rank < other.rank → Halts other rest) →
      Yields (n + 2 * k + 1) (parseOperand · level tokens) e rest := by
    intro k
    induction k with
    | zero =>
      intro level last _
      obtain rfl : level = .product := Level.rank_inj last
      exact yields_succ fun fuel enough => h fuel enough
    | succ k ih =>
      intro level below stop
      obtain ⟨tighter, next, rank⟩ := @Level.exists_tighter level (by omega)
      have operand := ih tighter (by omega) fun other lt => stop other (by omega)
      have whole := yields_level_of_operand operand (stop tighter (by omega))
      exact yields_operand_of_tighter next whole
  have := level.rank_le
  exact (general (5 - level.rank) level (by omega) stop).mono (by omega)

/-- What is read at a level and not followed by an operator is read at the loosest. -/
theorem yields_or_of_level (h : Yields n (parseLevel · level tokens) e rest)
    (stop : ∀ level, Halts level rest) : Yields (n + 2 * level.rank) (parseLevel · .or tokens) e rest := by
  generalize rank : level.rank = k
  induction k generalizing level n with
  | zero =>
    obtain rfl : level = .or := Level.rank_inj rank
    exact h
  | succ k ih =>
    obtain ⟨looser, next, below⟩ := @Level.exists_looser level (by omega)
    have wider := yields_level_of_operand (yields_operand_of_tighter next h) (stop looser)
    exact (ih wider (by omega)).mono (by omega)

theorem yields_or_of_unary (h : Yields n (parseUnary · tokens) e rest) (stop : ∀ level, Halts level rest) :
    Yields (n + 12) (parseLevel · .or tokens) e rest :=
  yields_level_of_operand (yields_operand_of_unary h fun other _ => stop other) (stop .or)

/-- Two operands with an operator between them are read as the operation. -/
theorem yields_or_of_binary {op : Token} {o : BinaryOp} {ls rs : List Token}
    (shape : op.shape = (.op, (Mark.op o).symbol))
    (hl : Yields n (parseUnary · (ls ++ op :: (rs ++ rest))) left (op :: (rs ++ rest)))
    (hr : Yields n (parseUnary · (rs ++ rest)) right rest) (stop : ∀ level, Halts level rest) :
    Yields (n + 24) (parseLevel · .or (ls ++ op :: (rs ++ rest))) (.binary o left right) rest := by
  have here : op.binary? o.level = some o := by
    rw [binary?_eq shape, if_pos rfl, Level.lookup_symbol, if_pos rfl]
  have apart (other : Level) (lt : o.level.rank < other.rank) : Halts other (op :: (rs ++ rest)) := by
    intro token mem
    cases mem
    rw [binary?_eq shape, if_pos rfl, Level.lookup_symbol, if_neg]
    rintro rfl
    exact Nat.lt_irrefl _ lt
  have first := yields_operand_of_unary hl apart
  have second := @yields_operand_of_unary _ o.level _ _ _ hr fun other _ => stop other
  have whole : Yields (n + 13) (parseLevel · o.level (ls ++ op :: (rs ++ rest)))
      (.binary o left right) rest := by
    apply yields_succ
    intro fuel enough
    obtain ⟨fuel, rfl⟩ : ∃ k, fuel = k + 2 := ⟨fuel - 2, by omega⟩
    simp only [parseLevel, first (fuel + 2) (by omega)]
    simp only [parseTail, here, second (fuel + 1) (by omega)]
    exact parseTail_of_halts (stop _) fuel _
  have rank := o.level.rank_le
  exact (yields_or_of_level whole stop).mono (by omega)

/-! ## Operands -/

variable {token opening closing : Token}

theorem parseUnary_of_not_sign (fuel : Nat) (not : token.isOp ['!'] = false)
    (minus : token.isOp ['-'] = false) (plus : token.isOp ['+'] = false) (rest : List Token) :
    parseUnary (fuel + 1) (token :: rest) = parsePrimary fuel token rest := by
  simp [parseUnary, not, minus, plus]

theorem yields_primary_parens (first : opening.shape = (.op, Mark.opening.symbol))
    (last : closing.shape = (.op, Mark.closing.symbol))
    (h : Yields n (parseLevel · .or (tokens ++ closing :: rest)) e (closing :: rest)) :
    Yields (n + 1) (parsePrimary · opening (tokens ++ closing :: rest)) e rest := by
  have kind : opening.kind = .op := congrArg Prod.fst first
  have begins : opening.isOp ['('] = true := isOp_eq first ['(']
  have ends : closing.isOp [')'] = true := isOp_eq last [')']
  apply yields_succ
  intro fuel enough
  simp [parsePrimary, literal?, kind, begins, h fuel enough, ends]

theorem yields_parens (first : opening.shape = (.op, Mark.opening.symbol))
    (last : closing.shape = (.op, Mark.closing.symbol))
    (h : Yields n (parseLevel · .or (tokens ++ closing :: rest)) e (closing :: rest)) :
    Yields (n + 2) (parseUnary · (opening :: (tokens ++ closing :: rest))) e rest := by
  have is (v : Text) := isOp_eq first v
  apply yields_succ
  intro fuel enough
  rw [parseUnary_of_not_sign fuel (is ['!']) (is ['-']) (is ['+'])]
  exact yields_primary_parens first last h fuel enough

def unarySymbol : UnaryOp → Text
  | .not => "!".toText
  | .neg => "-".toText

theorem yields_unary {o : UnaryOp} (shape : token.shape = (.op, unarySymbol o))
    (h : Yields n (parseUnary · tokens) e rest) :
    Yields (n + 1) (parseUnary · (token :: tokens)) (.unary o e) rest := by
  have is (v : Text) := isOp_eq shape v
  apply yields_succ
  intro fuel enough
  cases o with
  | not =>
    have bang : token.isOp ['!'] = true := is ['!']
    simp only [parseUnary, bang, h fuel enough]
    rfl
  | neg =>
    have bang : token.isOp ['!'] = false := is ['!']
    have minus : token.isOp ['-'] = true := is ['-']
    simp only [parseUnary, bang, minus, h fuel enough]
    rfl

/-! ## Leaves -/

theorem constant?_of_isName {t : Text} (h : Term.isName t = true) : constant? t = none := by
  have other {w : Text} (reserved : Term.isName w = false) : (t == w) = false := by
    rw [beq_eq_false_iff_ne]
    rintro rfl
    rw [h] at reserved
    cases reserved
  simp only [constant?, List.lookup_cons, other (w := "true".toText) (by decide),
    other (w := "false".toText) (by decide), other (w := "null".toText) (by decide),
    other (w := "Infinity".toText) (by decide), other (w := "NaN".toText) (by decide)]
  rfl

theorem dropLeading_of_isIdentifier {t : Text} (h : Term.isIdentifier t = true) :
    Text.dropLeading '#' t = t := by
  cases t with
  | nil => rfl
  | cons c t =>
    rw [Term.isIdentifier, Bool.and_eq_true] at h
    have := forall_nameStart (P := fun c => !(c == .char '#')) (by decide) h.1
    exact dropWhile_of_stops (stops_cons.mpr (by simpa using this))

theorem dropLeading_of_name {w : Term.Name} (text : token.text = w.text) :
    Text.dropLeading '#' token.text = w.text ∧
      constant? (Text.dropLeading '#' token.text) = none := by
  rw [text, dropLeading_of_isIdentifier w.isIdentifier]
  exact ⟨rfl, constant?_of_isName w.valid⟩

theorem parsePrimary_of_constant {v : Value} (fuel : Nat) (kind : token.kind = .name)
    (word : constant? (Text.dropLeading '#' token.text) = some v) (rest : List Token) :
    parsePrimary (fuel + 1) token rest = .ok (.literal v, rest) := by
  simp [parsePrimary, literal?, kind, word]

theorem parsePrimary_of_number {v : Value} (fuel : Nat) (kind : token.kind = .number)
    (value : numberValue token.text = .ok v) (rest : List Token) :
    parsePrimary (fuel + 1) token rest = .ok (.literal v, rest) := by
  simp [parsePrimary, literal?, kind, value]

theorem parsePrimary_of_string (fuel : Nat) (kind : token.kind = .string) (rest : List Token) :
    parsePrimary (fuel + 1) token rest = .ok (.literal (.text (unquote token.text)), rest) := by
  simp [parsePrimary, literal?, kind]

theorem parsePrimary_of_variable (fuel : Nat) (kind : token.kind = .name)
    (word : constant? (Text.dropLeading '#' token.text) = none) (free : NoCall rest) :
    parsePrimary (fuel + 1) token rest = .ok (.variable (Text.dropLeading '#' token.text), rest) := by
  cases rest with
  | nil => simp [parsePrimary, literal?, kind, word]
  | cons next rest => simp [parsePrimary, literal?, kind, word, free next rfl]

theorem parsePrimary_of_name {w : Term.Name} (fuel : Nat) (shape : token.shape = (.name, w.text))
    (free : NoCall rest) : parsePrimary (fuel + 1) token rest = .ok (.variable w.text, rest) := by
  have kind : token.kind = .name := congrArg Prod.fst shape
  obtain ⟨bare, word⟩ := dropLeading_of_name (congrArg Prod.snd shape : token.text = w.text)
  rw [parsePrimary_of_variable fuel kind word free, bare]

theorem yields_core {core : Core} (shape : token.shape = core.shape) (rest : List Token) :
    Yields 2 (parseUnary · (token :: rest)) (.literal core.value) rest := by
  have other (v : Text) : token.isOp v = false := by
    cases core with
    | number n => exact isOp_eq shape v
    | truth b => exact isOp_eq shape v
    | constant c => exact isOp_eq shape v
  apply yields_succ
  intro fuel enough
  obtain ⟨fuel, rfl⟩ : ∃ k, fuel = k + 1 := ⟨fuel - 1, by omega⟩
  rw [parseUnary_of_not_sign _ (other _) (other _) (other _)]
  cases core with
  | number n =>
    have text : token.text = n.text := congrArg Prod.snd shape
    exact parsePrimary_of_number fuel (congrArg Prod.fst shape) (text ▸ n.valued) rest
  | truth b =>
    have text : token.text = (Constant.ofBool b).text := congrArg Prod.snd shape
    refine parsePrimary_of_constant fuel (congrArg Prod.fst shape) ?_ rest
    rw [text]
    cases b <;> rfl
  | constant c =>
    have text : token.text = c.text := congrArg Prod.snd shape
    refine parsePrimary_of_constant fuel (congrArg Prod.fst shape) ?_ rest
    rw [text]
    cases c <;> rfl

theorem yields_slot {o : Slot Operand} (shapes : tokens.map shape = o.shapes) (free : NoCall rest) :
    Yields 3 (parseUnary · (tokens ++ rest)) o.expr rest := by
  -- A token that is no sign is a primary expression by itself.
  have single {token : Token} {e : Expr} {kind : TokenKind} {u : Text} (shape : token.shape = (kind, u))
      (ne : kind ≠ .op) (h : ∀ fuel, parsePrimary (fuel + 1) token rest = .ok (e, rest)) :
      Yields 3 (parseUnary · ([token] ++ rest)) e rest := by
    have other (v : Text) : token.isOp v = false := by
      rw [isOp_eq shape, decide_eq_false ne, Bool.false_and]
    intro fuel enough
    obtain ⟨fuel, rfl⟩ : ∃ k, fuel = k + 1 + 1 := ⟨fuel - 2, by omega⟩
    show parseUnary (fuel + 1 + 1) (token :: rest) = _
    rw [parseUnary_of_not_sign _ (other _) (other _) (other _), h]
  rcases o with q | ⟨_ | _, core⟩ | n
  · obtain ⟨token, rfl, shape⟩ := List.map_eq_singleton_iff.mp shapes
    have text : token.text = q := congrArg Prod.snd shape
    refine single shape (by decide) fun fuel => ?_
    rw [parsePrimary_of_string fuel (congrArg Prod.fst shape), text, Slot.expr]
  · obtain ⟨token, rfl, shape⟩ := List.map_eq_singleton_iff.mp shapes
    exact (yields_core shape rest).mono (by omega)
  · obtain ⟨sign, tokens, rfl, minus, others⟩ := List.map_eq_cons_iff.mp shapes
    obtain ⟨token, rfl, shape⟩ := List.map_eq_singleton_iff.mp others
    exact yields_unary (o := .neg) minus (yields_core shape rest)
  · obtain ⟨token, rfl, shape⟩ := List.map_eq_singleton_iff.mp shapes
    exact single shape (by decide) fun fuel => parsePrimary_of_name fuel shape free

/-! ## Calls -/

theorem yields_primary_call {args : List Expr} (kind : token.kind = .name)
    (word : constant? (Text.dropLeading '#' token.text) = none)
    (first : opening.shape = (.op, Mark.opening.symbol)) (h : Yields n (parseArgs · tokens) args rest) :
    Yields (n + 1) (parsePrimary · token (opening :: tokens))
      (.call (Text.dropLeading '#' token.text).upper args) rest := by
  have begins : opening.isOp ['('] = true := isOp_eq first ['(']
  apply yields_succ
  intro fuel enough
  simp [parsePrimary, literal?, kind, word, begins, h fuel enough, Except.map]

theorem yields_call {w : Term.Name} {args : List Expr} (shape : token.shape = (.name, w.text))
    (first : opening.shape = (.op, Mark.opening.symbol)) (h : Yields n (parseArgs · tokens) args rest) :
    Yields (n + 2) (parseUnary · (token :: opening :: tokens)) (.call w.text.upper args) rest := by
  have kind : token.kind = .name := congrArg Prod.fst shape
  have other (v : Text) : token.isOp v = false := isOp_eq shape v
  obtain ⟨bare, word⟩ := dropLeading_of_name (congrArg Prod.snd shape : token.text = w.text)
  apply yields_succ
  intro fuel enough
  rw [parseUnary_of_not_sign fuel (other _) (other _) (other _), ← bare]
  exact yields_primary_call kind word first h fuel enough

theorem yields_noArgs (last : closing.shape = (.op, Mark.closing.symbol)) :
    Yields 1 (parseArgs · (closing :: rest)) [] rest := by
  have ends : closing.isOp [')'] = true := isOp_eq last [')']
  exact yields_succ fun fuel _ => by simp [parseArgs, ends]

theorem yields_args {args : List Expr} (other : token.isOp [')'] = false)
    (h : Yields n (parseMoreArgs · (token :: tokens)) args rest) :
    Yields (n + 1) (parseArgs · (token :: tokens)) args rest :=
  yields_succ fun fuel enough => by simp [parseArgs, other, h fuel enough]

theorem yields_lastArg (last : closing.shape = (.op, Mark.closing.symbol))
    (h : Yields n (parseLevel · .or tokens) e (closing :: rest)) :
    Yields (n + 1) (parseMoreArgs · tokens) [e] rest := by
  have ends : closing.isOp [')'] = true := isOp_eq last [')']
  exact yields_succ fun fuel enough => by simp [parseMoreArgs, h fuel enough, ends]

theorem yields_nextArg {comma : Token} {args : List Expr} {others : List Token}
    (mark : comma.shape = (.op, Mark.comma.symbol))
    (h : Yields n (parseLevel · .or tokens) e (comma :: others))
    (more : Yields n (parseMoreArgs · others) args rest) :
    Yields (n + 1) (parseMoreArgs · tokens) (e :: args) rest := by
  have apart : comma.isOp [')'] = false := isOp_eq mark [')']
  have next : comma.isOp [','] = true := isOp_eq mark [',']
  exact yields_succ fun fuel enough => by
    simp [parseMoreArgs, h fuel enough, apart, next, more fuel enough, Except.map]

end Expr

/-! ## Terms -/

namespace Term

mutual

/-- The expression of a term, with what stands for its leaves in their place. -/
def read (o : Leaf → Slot Operand) : Term → Expr
  | .number n => (o (.number n)).expr
  | .truth b => (o (.truth b)).expr
  | .quoted t => (o (.quoted t)).expr
  | .variable name => (o (.name name)).expr
  | .binary op left right => .binary op (left.read o) (right.read o)
  | .not operand => .unary .not (operand.read o)
  | .neg operand => .unary .neg (operand.read o)
  | .call function args => .call function.text.upper (argReads o args)

def argReads (o : Leaf → Slot Operand) : List Term → List Expr
  | [] => []
  | arg :: args => arg.read o :: argReads o args

end

def shapesOf (o : Leaf → Slot Operand) (items : List (Item Leaf)) : List (TokenKind × Text) :=
  items.flatMap fun b => (b.map o).shapes

variable {o : Leaf → Slot Operand}

theorem shapesOf_append (xs ys : List (Item Leaf)) :
    shapesOf o (xs ++ ys) = shapesOf o xs ++ shapesOf o ys := List.flatMap_append

theorem shapesOf_mark (m : Mark) : shapesOf o [.mark m] = [(.op, m.symbol)] := rfl

theorem shapesOf_leaf (a : Leaf) : shapesOf o [.leaf a] = (o a).shapes := List.append_nil _

theorem exists_shapes_eq (o : Leaf → Slot Operand) (t : Term) :
    ∃ first rest, shapesOf o t.items = first :: rest ∧ first ≠ (.op, Mark.closing.symbol) := by
  have leaf (s : Slot Operand) (more : List (TokenKind × Text)) :
      ∃ first rest, s.shapes ++ more = first :: rest ∧ first ≠ (.op, Mark.closing.symbol) := by
    rcases s with q | ⟨_ | _, core⟩ | n
    · exact ⟨_, _, rfl, by simp⟩
    · refine ⟨core.shape, more, rfl, ?_⟩
      cases core <;> simp [Core.shape]
    · exact ⟨_, _, rfl, by decide⟩
    · exact ⟨_, _, rfl, by simp⟩
  match t with
  | .number n => exact leaf (o (.number n)) []
  | .truth b => exact leaf (o (.truth b)) []
  | .quoted q => exact leaf (o (.quoted q)) []
  | .variable w => exact leaf (o (.name w)) []
  | .call f args => exact leaf (o (.name f)) _
  | .binary op left right => exact ⟨_, _, rfl, by decide⟩
  | .not operand => exact ⟨_, _, rfl, by decide⟩
  | .neg operand => exact ⟨_, _, rfl, by decide⟩

theorem exists_argShapes_eq (o : Leaf → Slot Operand) (arg : Term) (args : List Term) :
    ∃ first rest, shapesOf o (argItems (arg :: args)) = first :: rest ∧
      first ≠ (.op, Mark.closing.symbol) := by
  obtain ⟨first, rest, same, other⟩ := exists_shapes_eq o arg
  cases args with
  | nil => exact ⟨first, rest, by rw [argItems, same], other⟩
  | cons next args =>
    refine ⟨first, rest ++ shapesOf o (.mark .comma :: argItems (next :: args)), ?_, other⟩
    rw [argItems, List.append_assoc, shapesOf_append, same]
    rfl

def Keeps (o : Leaf → Slot Operand) (functions : List Name) : Prop :=
  ∀ f ∈ functions, o (.name f) = .code (.name f)

end Term

namespace Expr

open Term Token

variable {o : Leaf → Slot Operand} {tokens rest : List Token}

theorem yields_leaf {a : Leaf} (shapes : tokens.map shape = shapesOf o [.leaf a]) (free : NoCall rest) :
    Yields (16 * tokens.length) (parseUnary · (tokens ++ rest)) (o a).expr rest := by
  rw [shapesOf_leaf] at shapes
  refine (yields_slot shapes free).mono ?_
  cases tokens with
  | nil =>
    obtain ⟨first, more, same, -⟩ : ∃ first more, (o a).shapes = first :: more ∧ True := by
      rcases o a with q | ⟨_ | _, core⟩ | n <;> exact ⟨_, _, rfl, trivial⟩
    rw [same] at shapes
    cases shapes
  | cons token tokens =>
    rw [List.length_cons]
    omega

theorem closed_of_shape {closing : Token} (last : closing.shape = (.op, Mark.closing.symbol))
    (rest : List Token) : Closed (closing :: rest) := by
  rintro token ⟨⟩
  exact .inl last

def unaryItem : UnaryOp → Item Leaf
  | .not => .not
  | .neg => .mark (.op .sub)

theorem yields_signed (op : UnaryOp) {inner : List (Item Leaf)} {e : Expr}
    (shapes : tokens.map shape
      = shapesOf o ([.mark .opening, unaryItem op] ++ inner ++ [.mark .closing]))
    (h : ∀ {tokens rest : List Token}, tokens.map shape = shapesOf o inner → NoCall rest →
      Yields (16 * tokens.length) (parseUnary · (tokens ++ rest)) e rest) :
    Yields (16 * tokens.length) (parseUnary · (tokens ++ rest)) (.unary op e) rest := by
  have front : shapesOf o [.mark .opening, unaryItem op]
      = [(.op, Mark.opening.symbol), (.op, unarySymbol op)] := by
    cases op <;> rfl
  rw [shapesOf_append, shapesOf_append, front, shapesOf_mark] at shapes
  obtain ⟨opening, tokens, rfl, first, shapes⟩ := List.map_eq_cons_iff.mp shapes
  obtain ⟨sign, tokens, rfl, second, shapes⟩ := List.map_eq_cons_iff.mp shapes
  obtain ⟨xs, tokens, rfl, middle, shapes⟩ := List.map_eq_append_iff.mp shapes
  obtain ⟨closing, rfl, last⟩ := List.map_eq_singleton_iff.mp shapes
  have closed := closed_of_shape last rest
  have signed := yields_unary second (h middle closed.noCall)
  have whole := @yields_parens _ (sign :: xs) _ _ _ _ first last
    (yields_or_of_unary signed closed.halts)
  have same : opening :: sign :: (xs ++ [closing]) ++ rest
      = opening :: (sign :: xs ++ closing :: rest) := by simp
  rw [same]
  refine whole.mono ?_
  simp only [List.length_cons, List.length_append, List.length_nil]
  omega

mutual

/-- The tokens of a term are read as the term. -/
theorem yields_term : (t : Term) → Keeps o t.functions → ∀ {tokens rest : List Token},
    tokens.map shape = shapesOf o t.items → NoCall rest →
    Yields (16 * tokens.length) (parseUnary · (tokens ++ rest)) (t.read o) rest
  | .number n, _, tokens, rest, shapes, free => yields_leaf shapes free
  | .truth b, _, tokens, rest, shapes, free => yields_leaf shapes free
  | .quoted q, _, tokens, rest, shapes, free => yields_leaf shapes free
  | .variable w, _, tokens, rest, shapes, free => yields_leaf shapes free
  | .binary op left right, keeps, tokens, rest, shapes, free => by
    simp only [items, shapesOf_append, shapesOf_mark, List.append_assoc, List.singleton_append] at shapes
    obtain ⟨opening, tokens, rfl, first, shapes⟩ := List.map_eq_cons_iff.mp shapes
    obtain ⟨ls, tokens, rfl, lefts, shapes⟩ := List.map_eq_append_iff.mp shapes
    obtain ⟨sign, tokens, rfl, middle, shapes⟩ := List.map_eq_cons_iff.mp shapes
    obtain ⟨rs, tokens, rfl, rights, shapes⟩ := List.map_eq_append_iff.mp shapes
    obtain ⟨closing, rfl, last⟩ := List.map_eq_singleton_iff.mp shapes
    have closed := closed_of_shape last rest
    have called : NoCall (sign :: (rs ++ closing :: rest)) := by
      rintro token ⟨⟩
      rw [isOp_eq middle]
      cases op <;> decide
    have hl := yields_term left (fun f mem => keeps f (List.mem_append_left _ mem)) lefts called
    have hr := yields_term right (fun f mem => keeps f (List.mem_append_right _ mem)) rights
      closed.noCall
    have inner := yields_or_of_binary middle (hl.mono (Nat.le_add_right _ (16 * rs.length)))
      (hr.mono (Nat.le_add_left _ (16 * ls.length))) closed.halts
    have same : opening :: (ls ++ sign :: (rs ++ [closing])) ++ rest
        = opening :: ((ls ++ sign :: rs) ++ closing :: rest) := by simp
    rw [same, Term.read]
    refine (yields_parens first last (by simpa using inner)).mono ?_
    simp only [List.length_cons, List.length_append, List.length_nil]
    omega
  | .not operand, keeps, tokens, rest, shapes, free => by
    rw [items] at shapes
    exact yields_signed .not shapes fun mid free => yields_term operand keeps mid free
  | .neg operand, keeps, tokens, rest, shapes, free => by
    rw [items] at shapes
    exact yields_signed .neg shapes fun mid free => yields_term operand keeps mid free
  | .call function args, keeps, tokens, rest, shapes, free => by
    have front : shapesOf o [.leaf (.name function), .mark .opening]
        = [(.name, function.text), (.op, Mark.opening.symbol)] := by
      show (o (.name function)).shapes ++ _ = _
      rw [keeps function List.mem_cons_self]
      rfl
    rw [items, shapesOf_append, shapesOf_append, front, shapesOf_mark] at shapes
    obtain ⟨token, tokens, rfl, name, shapes⟩ := List.map_eq_cons_iff.mp shapes
    obtain ⟨opening, tokens, rfl, first, shapes⟩ := List.map_eq_cons_iff.mp shapes
    obtain ⟨xs, tokens, rfl, middle, shapes⟩ := List.map_eq_append_iff.mp shapes
    obtain ⟨closing, rfl, last⟩ := List.map_eq_singleton_iff.mp shapes
    have same : token :: opening :: (xs ++ [closing]) ++ rest
        = token :: opening :: (xs ++ closing :: rest) := by simp
    have arguments (ne : args ≠ []) := yields_argTerms args ne
      (fun f mem => keeps f (List.mem_cons_of_mem _ mem)) rest middle last
    have inside : Yields (16 * xs.length + 14) (parseArgs · (xs ++ closing :: rest))
        (argReads o args) rest := by
      cases args with
      | nil =>
        obtain rfl : xs = [] := List.map_eq_nil_iff.mp middle
        exact (yields_noArgs last).mono (by omega)
      | cons arg args =>
        obtain ⟨shape, more, start, other⟩ := exists_argShapes_eq o arg args
        rw [start] at middle
        obtain ⟨token, xs, rfl, same, -⟩ := List.map_eq_cons_iff.mp middle
        exact yields_args (isOp_eq_false (same ▸ other)) (arguments (by simp))
    rw [same, Term.read]
    refine (yields_call name first inside).mono ?_
    simp only [List.length_cons, List.length_append, List.length_nil]
    omega

theorem yields_argTerms : (args : List Term) → args ≠ [] → Keeps o (argFunctions args) →
    ∀ {tokens : List Token} {closing : Token} (rest : List Token),
    tokens.map shape = shapesOf o (argItems args) → closing.shape = (.op, Mark.closing.symbol) →
    Yields (16 * tokens.length + 13) (parseMoreArgs · (tokens ++ closing :: rest)) (argReads o args) rest
  | [], ne, _, _, _, _, _, _ => absurd rfl ne
  | [arg], _, keeps, tokens, closing, rest, shapes, last => by
    have closed := closed_of_shape last rest
    rw [argItems] at shapes
    have keeps : Keeps o arg.functions := fun f mem => keeps f (List.mem_append_left _ mem)
    exact yields_lastArg last
      (yields_or_of_unary (yields_term arg keeps shapes closed.noCall) closed.halts)
  | arg :: next :: more, _, keeps, tokens, closing, rest, shapes, last => by
    rw [argItems, shapesOf_append, shapesOf_append, shapesOf_mark, List.append_assoc,
      List.singleton_append] at shapes
    obtain ⟨xs, tokens, rfl, here, shapes⟩ := List.map_eq_append_iff.mp shapes
    obtain ⟨comma, tokens, rfl, mark, later⟩ := List.map_eq_cons_iff.mp shapes
    have closed : Closed (comma :: (tokens ++ closing :: rest)) := by
      rintro token ⟨⟩
      exact .inr mark
    have first := yields_or_of_unary (yields_term arg
      (fun f mem => keeps f (List.mem_append_left _ mem)) here closed.noCall) closed.halts
    have others := yields_argTerms (next :: more) (by simp)
      (fun f mem => keeps f (List.mem_append_right _ mem)) rest later last
    have count : (xs ++ comma :: tokens).length = xs.length + tokens.length + 1 := by
      simp only [List.length_append, List.length_cons]
      omega
    rw [count, List.append_assoc, List.cons_append, argReads]
    refine Yields.mono (n := 16 * xs.length + 16 * tokens.length + 13 + 1) ?_ (by omega)
    exact yields_nextArg mark (first.mono (by omega)) (others.mono (by omega))

end

end Expr
end SclNarrator
