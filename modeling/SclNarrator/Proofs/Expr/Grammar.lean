import SclNarrator.Proofs.Except
import SclNarrator.Proofs.Expr.Parsing

/-!
The grammar of expressions, and that the parser returns only what it derives.

The grammar has a symbol for each level of binary operators, one for signs and one for primary
expressions:

    or       -> and ("||" and)*
    and      -> equality ("&&" equality)*
    equality -> relation (("==" | "!=") relation)*
    relation -> sum (("<" | ">" | "<=" | ">=") sum)*
    sum      -> product (("+" | "-") product)*
    product  -> unary (("*" | "/" | "%") unary)*
    unary    -> ("!" | "-" | "+") unary | primary
    primary  -> literal | constant | name | name "(" [or ("," or)*] ")" | "(" or ")"

`Derives` says which tokens a symbol derives and with which tree: the operators of a level associate to
the left, and a plus sign leaves no trace. Whatever a function of the parser returns, with any amount of
fuel, has a derivation from the tokens it used up (`sound`).
-/

namespace SclNarrator.Grammar

open SclNarrator.Expr Token

/-! ## The grammar -/

inductive Symbol where
  | level (level : Level)
  | unary
  | primary

def operandOf : Level → Symbol
  | .or => .level .and
  | .and => .level .equality
  | .equality => .level .relation
  | .relation => .level .sum
  | .sum => .level .product
  | .product => .unary

/-- The operators of each level and how they are written. -/
inductive Writes : Level → Text → BinaryOp → Prop where
  | or : Writes .or "||".toText .or
  | and : Writes .and "&&".toText .and
  | eq : Writes .equality "==".toText .eq
  | ne : Writes .equality "!=".toText .ne
  | lt : Writes .relation "<".toText .lt
  | gt : Writes .relation ">".toText .gt
  | le : Writes .relation "<=".toText .le
  | ge : Writes .relation ">=".toText .ge
  | add : Writes .sum "+".toText .add
  | sub : Writes .sum "-".toText .sub
  | mul : Writes .product "*".toText .mul
  | div : Writes .product "/".toText .div
  | mod : Writes .product "%".toText .mod

def Denotes (token : Token) (level : Level) (op : BinaryOp) : Prop :=
  token.kind = .op ∧ Writes level token.text op

/-- The name that a token spells: its text without the marks of a local variable. -/
def nameOf (token : Token) : Text := Text.dropLeading '#' token.text

/-- A token and what stands behind it: an operator with its right operand, or a comma with an
argument. -/
structure Segment where
  mark : Token
  tokens : List Token
  expr : Expr

def Segment.written (s : Segment) : List Token := s.mark :: s.tokens

/-- Operands put together by the operators between them, from the left. -/
def chain (left : Expr) (steps : List (BinaryOp × Segment)) : Expr :=
  steps.foldl (fun left s => .binary s.1 left s.2.expr) left

/-- The tokens of operators and their right operands. -/
def stepTokens (steps : List (BinaryOp × Segment)) : List Token :=
  steps.flatMap fun s => s.2.written

theorem stepTokens_eq (steps : List (BinaryOp × Segment)) :
    stepTokens steps = (steps.map Prod.snd).flatMap Segment.written := by
  rw [stepTokens, List.flatMap_map]

/-- What a symbol derives: some tokens, with the tree that they make up. -/
inductive Derives : Symbol → List Token → Expr → Prop where
  | level {level : Level} {tokens : List Token} {e : Expr} {steps : List (BinaryOp × Segment)}
      (first : Derives (operandOf level) tokens e)
      (operators : ∀ s ∈ steps, Denotes s.2.mark level s.1)
      (operands : ∀ s ∈ steps, Derives (operandOf level) s.2.tokens s.2.expr) :
      Derives (.level level) (tokens ++ stepTokens steps) (chain e steps)
  | not {sign : Token} {tokens : List Token} {e : Expr} (mark : sign.shape = (.op, "!".toText))
      (operand : Derives .unary tokens e) : Derives .unary (sign :: tokens) (.unary .not e)
  | minus {sign : Token} {tokens : List Token} {e : Expr} (mark : sign.shape = (.op, "-".toText))
      (operand : Derives .unary tokens e) : Derives .unary (sign :: tokens) (.unary .neg e)
  /-- A plus sign leaves no trace in the tree. -/
  | plus {sign : Token} {tokens : List Token} {e : Expr} (mark : sign.shape = (.op, "+".toText))
      (operand : Derives .unary tokens e) : Derives .unary (sign :: tokens) e
  | primary {tokens : List Token} {e : Expr} (operand : Derives .primary tokens e) :
      Derives .unary tokens e
  | literal {token : Token} {v : Value} (decoded : token.literal? = some (.ok v)) :
      Derives .primary [token] (.literal v)
  | constant {token : Token} {v : Value} (kind : token.kind = .name)
      (stands : constant? (nameOf token) = some v) : Derives .primary [token] (.literal v)
  | name {token : Token} (kind : token.kind = .name) (free : constant? (nameOf token) = none) :
      Derives .primary [token] (.variable (nameOf token))
  | callEmpty {token opening closing : Token} (kind : token.kind = .name)
      (free : constant? (nameOf token) = none) (opens : opening.shape = (.op, "(".toText))
      (closes : closing.shape = (.op, ")".toText)) :
      Derives .primary [token, opening, closing] (.call (nameOf token).upper [])
  | call {token opening closing : Token} {tokens : List Token} {e : Expr} {others : List Segment}
      (kind : token.kind = .name) (free : constant? (nameOf token) = none)
      (opens : opening.shape = (.op, "(".toText)) (closes : closing.shape = (.op, ")".toText))
      (first : Derives (.level .or) tokens e) (commas : ∀ s ∈ others, s.mark.shape = (.op, ",".toText))
      (args : ∀ s ∈ others, Derives (.level .or) s.tokens s.expr) :
      Derives .primary
        (token :: opening :: (tokens ++ others.flatMap Segment.written ++ [closing]))
        (.call (nameOf token).upper (e :: others.map Segment.expr))
  | parens {opening closing : Token} {tokens : List Token} {e : Expr}
      (opens : opening.shape = (.op, "(".toText)) (closes : closing.shape = (.op, ")".toText))
      (inner : Derives (.level .or) tokens e) : Derives .primary (opening :: (tokens ++ [closing])) e

variable {level : Level} {token : Token} {tokens rest : List Token} {op : BinaryOp} {e left : Expr}
  {fuel : Nat}

/-! ## Symbols by how tightly they hold together -/

/-- The symbol for what holds together so tightly. -/
def symbolOf : Nat → Symbol
  | 0 => .level .or
  | 1 => .level .and
  | 2 => .level .equality
  | 3 => .level .relation
  | 4 => .level .sum
  | 5 => .level .product
  | 6 => .unary
  | _ => .primary

theorem symbolOf_rank (level : Level) : symbolOf level.rank = .level level := by
  cases level <;> rfl

theorem symbolOf_rank_succ (level : Level) : symbolOf (level.rank + 1) = operandOf level := by
  cases level <;> rfl

theorem Derives.of_operand (level : Level) (h : Derives (operandOf level) tokens e) :
    Derives (.level level) tokens e := by
  have alone := @Derives.level level tokens e [] h (by simp) (by simp)
  rwa [stepTokens, List.flatMap_nil, List.append_nil] at alone

theorem Derives.loosen {j k : Nat} (h : Derives (symbolOf k) tokens e) (le : j ≤ k) :
    Derives (symbolOf j) tokens e := by
  have step (k : Nat) (h : Derives (symbolOf (k + 1)) tokens e) : Derives (symbolOf k) tokens e := by
    match k with
    | 0 => exact .of_operand .or h
    | 1 => exact .of_operand .and h
    | 2 => exact .of_operand .equality h
    | 3 => exact .of_operand .relation h
    | 4 => exact .of_operand .sum h
    | 5 => exact .of_operand .product h
    | 6 => exact .primary h
    | _ + 7 => exact h
  induction le with
  | refl => exact h
  | step _ ih => exact ih (step _ h)

/-! ## Operators as tokens -/

theorem writes_iff_lookup {text : Text} : Writes level text op ↔ level.operators.lookup text = some op := by
  constructor
  · rintro (_ | _) <;> rfl
  · intro h
    have mem := mem_of_lookup h
    cases level <;> simp only [Level.operators, List.mem_cons, List.not_mem_nil, or_false,
      Prod.mk.injEq] at mem
    · obtain ⟨rfl, rfl⟩ := mem
      exact .or
    · obtain ⟨rfl, rfl⟩ := mem
      exact .and
    · rcases mem with ⟨rfl, rfl⟩ | ⟨rfl, rfl⟩
      · exact .eq
      · exact .ne
    · rcases mem with ⟨rfl, rfl⟩ | ⟨rfl, rfl⟩ | ⟨rfl, rfl⟩ | ⟨rfl, rfl⟩
      · exact .lt
      · exact .gt
      · exact .le
      · exact .ge
    · rcases mem with ⟨rfl, rfl⟩ | ⟨rfl, rfl⟩
      · exact .add
      · exact .sub
    · rcases mem with ⟨rfl, rfl⟩ | ⟨rfl, rfl⟩ | ⟨rfl, rfl⟩
      · exact .mul
      · exact .div
      · exact .mod

theorem denotes_iff : Denotes token level op ↔ token.binary? level = some op := by
  unfold Denotes Token.binary?
  rw [writes_iff_lookup]
  split
  · next kind => exact ⟨And.right, fun h => ⟨kind, h⟩⟩
  · next kind => exact ⟨fun h => absurd h.1 kind, fun h => nomatch h⟩

theorem Denotes.binary?_of_ne {other : Level} (h : Denotes token level op) (ne : other ≠ level) :
    token.binary? other = none := by
  obtain ⟨kind, writes⟩ := h
  rw [Token.binary?, if_pos kind]
  generalize token.text = text at writes
  cases writes <;> cases other <;> first | rfl | exact absurd rfl ne

theorem Denotes.isOp_opening (h : Denotes token level op) : token.isOp ['('] = false := by
  obtain ⟨kind, writes⟩ := h
  apply isOp_eq_false
  intro shape
  have text : token.text = ['('] := congrArg Prod.snd shape
  rw [text] at writes
  nomatch writes

theorem isOp_iff {text : Text} : token.isOp text = true ↔ token.shape = (.op, text) := by
  simp [Token.isOp, Token.shape, Prod.ext_iff]

/-! ## What the parser returns is derived

By induction on the fuel, with one lemma for each of the parser's functions. -/

/-- The parser used up some tokens, which a symbol derives, and left the others. -/
def Uses (symbol : Symbol) (tokens : List Token) (e : Expr) (rest : List Token) : Prop :=
  ∃ used, tokens = used ++ rest ∧ Derives symbol used e

/-- The parser used up operators of a level with their operands, and left the other tokens. -/
def UsesSteps (level : Level) (left : Expr) (tokens : List Token) (e : Expr) (rest : List Token) :
    Prop :=
  ∃ steps, tokens = stepTokens steps ++ rest ∧ e = chain left steps ∧
    (∀ s ∈ steps, Denotes s.2.mark level s.1) ∧
    ∀ s ∈ steps, Derives (operandOf level) s.2.tokens s.2.expr

/-- The parser used up one argument or more and the parenthesis behind them. -/
def UsesArgs (tokens : List Token) (es : List Expr) (rest : List Token) : Prop :=
  ∃ (first : List Token) (e : Expr) (others : List Segment) (closing : Token),
    tokens = first ++ others.flatMap Segment.written ++ closing :: rest ∧
    es = e :: others.map Segment.expr ∧ closing.shape = (.op, ")".toText) ∧
    Derives (.level .or) first e ∧ (∀ s ∈ others, s.mark.shape = (.op, ",".toText)) ∧
    ∀ s ∈ others, Derives (.level .or) s.tokens s.expr

/-- With some fuel, every function of the parser returns only what is derived. -/
structure Sound (fuel : Nat) : Prop where
  level : ∀ {level tokens e rest}, parseLevel fuel level tokens = .ok (e, rest) →
    Uses (.level level) tokens e rest
  operand : ∀ {level tokens e rest}, parseOperand fuel level tokens = .ok (e, rest) →
    Uses (operandOf level) tokens e rest
  tail : ∀ {level left tokens e rest}, parseTail fuel level left tokens = .ok (e, rest) →
    UsesSteps level left tokens e rest
  unary : ∀ {tokens e rest}, parseUnary fuel tokens = .ok (e, rest) → Uses .unary tokens e rest
  primary : ∀ {token tokens e rest}, parsePrimary fuel token tokens = .ok (e, rest) →
    Uses .primary (token :: tokens) e rest
  args : ∀ {tokens es rest}, parseArgs fuel tokens = .ok (es, rest) →
    (∃ closing, tokens = closing :: rest ∧ es = [] ∧ closing.shape = (.op, ")".toText)) ∨
      UsesArgs tokens es rest
  moreArgs : ∀ {tokens es rest}, parseMoreArgs fuel tokens = .ok (es, rest) →
    UsesArgs tokens es rest

namespace Sound

variable (sound : Sound fuel)
include sound

theorem level_succ (h : parseLevel (fuel + 1) level tokens = .ok (e, rest)) :
    Uses (.level level) tokens e rest := by
  simp only [parseLevel] at h
  split at h
  · cases h
  · next first middle parsed =>
    obtain ⟨used, rfl, derived⟩ := sound.operand parsed
    obtain ⟨steps, rfl, rfl, operators, operands⟩ := sound.tail h
    refine ⟨used ++ stepTokens steps, ?_, .level derived operators operands⟩
    rw [List.append_assoc]

theorem operand_succ (h : parseOperand (fuel + 1) level tokens = .ok (e, rest)) :
    Uses (operandOf level) tokens e rest := by
  cases level with
  | product => exact sound.unary h
  | or | and | equality | relation | sum => exact sound.level h

theorem tail_succ (h : parseTail (fuel + 1) level left tokens = .ok (e, rest)) :
    UsesSteps level left tokens e rest := by
  cases tokens with
  | nil =>
    cases h
    exact ⟨[], rfl, rfl, by simp, by simp⟩
  | cons token tokens =>
    simp only [parseTail] at h
    split at h
    · -- no operator of the level comes next
      cases h
      exact ⟨[], rfl, rfl, by simp, by simp⟩
    · next op found =>
      split at h
      · cases h
      · next right middle parsed =>
        obtain ⟨used, rfl, derived⟩ := sound.operand parsed
        obtain ⟨steps, rfl, rfl, operators, operands⟩ := sound.tail h
        refine ⟨(op, ⟨token, used, right⟩) :: steps, ?_, rfl, ?_, ?_⟩
        · simp [stepTokens, Segment.written]
        · exact List.forall_mem_cons.mpr ⟨denotes_iff.mpr found, operators⟩
        · exact List.forall_mem_cons.mpr ⟨derived, operands⟩

theorem unary_succ (h : parseUnary (fuel + 1) tokens = .ok (e, rest)) : Uses .unary tokens e rest := by
  cases tokens with
  | nil => cases h
  | cons token tokens =>
    simp only [parseUnary] at h
    split at h
    · next mark =>
      obtain ⟨⟨operand, middle⟩, parsed, made⟩ := ok_of_map h
      cases made
      obtain ⟨used, rfl, derived⟩ := sound.unary parsed
      exact ⟨token :: used, rfl, .not (isOp_iff.mp mark) derived⟩
    · split at h
      · next mark =>
        obtain ⟨⟨operand, middle⟩, parsed, made⟩ := ok_of_map h
        cases made
        obtain ⟨used, rfl, derived⟩ := sound.unary parsed
        exact ⟨token :: used, rfl, .minus (isOp_iff.mp mark) derived⟩
      · split at h
        · next mark =>
          obtain ⟨used, rfl, derived⟩ := sound.unary h
          exact ⟨token :: used, rfl, .plus (isOp_iff.mp mark) derived⟩
        · obtain ⟨used, same, derived⟩ := sound.primary h
          exact ⟨used, same, .primary derived⟩

theorem primary_succ (h : parsePrimary (fuel + 1) token tokens = .ok (e, rest)) :
    Uses .primary (token :: tokens) e rest := by
  simp only [parsePrimary] at h
  split at h
  · next v decoded =>
    cases h
    exact ⟨[token], rfl, .literal decoded⟩
  · cases h
  · split at h
    · next kind =>
      -- a name: a constant, a variable, or a call
      split at h
      · next v stands =>
        cases h
        exact ⟨[token], rfl, .constant kind stands⟩
      · next free =>
        cases tokens with
        | nil =>
          cases h
          exact ⟨[token], rfl, .name kind free⟩
        | cons next tokens =>
          simp only at h
          split at h
          · next opens =>
            obtain ⟨⟨es, left⟩, parsed, made⟩ := ok_of_map h
            cases made
            have opens := isOp_iff.mp opens
            rcases sound.args parsed with ⟨closing, rfl, rfl, closes⟩ |
              ⟨first, arg, others, closing, rfl, rfl, closes, derived, commas, args⟩
            · exact ⟨[token, next, closing], rfl, .callEmpty kind free opens closes⟩
            · exact ⟨_, by simp, .call kind free opens closes derived commas args⟩
          · cases h
            exact ⟨[token], rfl, .name kind free⟩
    · split at h
      · next opens =>
        split at h
        · cases h
        · next inner middle parsed =>
          obtain ⟨used, rfl, derived⟩ := sound.level parsed
          cases middle with
          | nil => cases h
          | cons closing middle =>
            simp only at h
            split at h
            · next closes =>
              cases h
              exact ⟨token :: (used ++ [closing]), by simp,
                .parens (isOp_iff.mp opens) (isOp_iff.mp closes) derived⟩
            · cases h
      · cases h

theorem args_succ {es : List Expr} (h : parseArgs (fuel + 1) tokens = .ok (es, rest)) :
    (∃ closing, tokens = closing :: rest ∧ es = [] ∧ closing.shape = (.op, ")".toText)) ∨
      UsesArgs tokens es rest := by
  cases tokens with
  | nil => exact .inr (sound.moreArgs h)
  | cons token tokens =>
    simp only [parseArgs] at h
    split at h
    · next closes =>
      cases h
      exact .inl ⟨token, rfl, rfl, isOp_iff.mp closes⟩
    · exact .inr (sound.moreArgs h)

theorem moreArgs_succ {es : List Expr} (h : parseMoreArgs (fuel + 1) tokens = .ok (es, rest)) :
    UsesArgs tokens es rest := by
  simp only [parseMoreArgs] at h
  split at h
  · cases h
  · next arg middle parsed =>
    obtain ⟨used, rfl, derived⟩ := sound.level parsed
    cases middle with
    | nil => cases h
    | cons token middle =>
      simp only at h
      split at h
      · next closes =>
        cases h
        exact ⟨used, arg, [], token, by simp, rfl, isOp_iff.mp closes, derived, by simp, by simp⟩
      · split at h
        · next comma =>
          obtain ⟨⟨more, left⟩, later, made⟩ := ok_of_map h
          cases made
          obtain ⟨first, e, others, closing, rfl, rfl, closes, next, commas, args⟩ :=
            sound.moreArgs later
          refine ⟨used, arg, ⟨token, first, e⟩ :: others, closing, ?_, rfl, closes, derived, ?_, ?_⟩
          · simp [Segment.written]
          · exact List.forall_mem_cons.mpr ⟨isOp_iff.mp comma, commas⟩
          · exact List.forall_mem_cons.mpr ⟨next, args⟩
        · cases h

end Sound

/-- What any function of the parser returns is derived. -/
theorem sound (fuel : Nat) : Sound fuel := by
  induction fuel with
  | zero =>
    constructor <;> intros <;> contradiction
  | succ fuel ih =>
    exact ⟨ih.level_succ, ih.operand_succ, ih.tail_succ, ih.unary_succ, ih.primary_succ,
      ih.args_succ, ih.moreArgs_succ⟩

end SclNarrator.Grammar
