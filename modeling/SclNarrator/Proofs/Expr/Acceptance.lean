import SclNarrator.Proofs.Expr.Grammar

/-!
The parser accepts exactly what the grammar derives.

What is proved:
  1. what has a derivation the parser returns, whatever comes behind it, as long as that cannot go on
     with the expression: no operator of the level or of a tighter one, and no opening parenthesis,
     which would make a call of a name (`Follows`). A token pays for sixteen steps of the parser, and
     every symbol has a small overhead (`yields_of_derives`);
  2. a list of tokens is accepted with a tree exactly if the tree is derived from the whole list, and
     there is one such tree at most (`ofTokens_eq_ok_iff_derives`).

Correspondence (analyzer ↔ here):
  `_Parser.parse` ↔ `Expr.ofTokens`
-/

namespace SclNarrator.Grammar

open SclNarrator.Expr Token

variable {level : Level} {token : Token} {tokens rest : List Token} {op : BinaryOp} {e left : Expr}
  {fuel : Nat}

/-! ## What may follow, and what it costs -/

def parserOf : Symbol → List Token → Nat → Parsed Expr
  | .level level, tokens, fuel => parseLevel fuel level tokens
  | .unary, tokens, fuel => parseUnary fuel tokens
  | .primary, [], _ => .error .endOfExpression
  | .primary, token :: tokens, fuel => parsePrimary fuel token tokens

/-- Whether these tokens can stand behind what a symbol derives, and not be part of it. -/
def Follows : Symbol → List Token → Prop
  | .level level, rest => NoCall rest ∧ ∀ other : Level, level.rank ≤ other.rank → Halts other rest
  | _, rest => NoCall rest

/-- The fuel that a symbol takes beyond what its tokens pay for: two steps for each level that is not
looser, and one for the signs. -/
def overhead : Symbol → Nat
  | .level level => 13 - 2 * level.rank
  | .unary => 1
  | .primary => 0

/-- Whether the parser of a symbol returns a tree and leaves the tokens behind it, given enough fuel. -/
def Accepts (symbol : Symbol) (tokens : List Token) (e : Expr) : Prop :=
  ∀ rest, Follows symbol rest →
    Yields (16 * tokens.length + overhead symbol) (parserOf symbol (tokens ++ rest)) e rest

theorem overhead_operandOf (level : Level) :
    overhead (operandOf level) + 2 = overhead (.level level) := by
  cases level <;> rfl

theorem Follows.operandOf (h : Follows (.level level) rest) : Follows (operandOf level) rest := by
  cases level with
  | product => exact h.1
  | or | and | equality | relation | sum =>
    exact ⟨h.1, fun other le => h.2 other (Nat.le_trans (by decide) le)⟩

theorem Denotes.follows (h : Denotes token level op) (rest : List Token) :
    Follows (operandOf level) (token :: rest) := by
  have noCall : NoCall (token :: rest) := by
    rintro other ⟨⟩
    exact h.isOp_opening
  have halts (other : Level) (lt : level.rank < other.rank) : Halts other (token :: rest) := by
    rintro _ ⟨⟩
    apply h.binary?_of_ne
    rintro rfl
    exact Nat.lt_irrefl _ lt
  cases level with
  | product => exact noCall
  | or | and | equality | relation | sum =>
    exact ⟨noCall, fun other le => halts other (Nat.lt_of_lt_of_le (by decide) le)⟩

/-! ## Levels -/

theorem yields_operand {n : Nat} (h : Yields n (parserOf (operandOf level) tokens) e rest) :
    Yields (n + 1) (parseOperand · level tokens) e rest := by
  apply yields_succ
  intro fuel enough
  cases level with
  | product | or | and | equality | relation | sum => exact h fuel enough

theorem follows_steps {steps : List (BinaryOp × Segment)} (stop : Follows (.level level) rest)
    (operators : ∀ s ∈ steps, Denotes s.2.mark level s.1) :
    Follows (operandOf level) (stepTokens steps ++ rest) := by
  cases steps with
  | nil => exact stop.operandOf
  | cons next steps => exact (operators next List.mem_cons_self).follows _

theorem yields_steps {steps : List (BinaryOp × Segment)} (stop : Follows (.level level) rest)
    (operators : ∀ s ∈ steps, Denotes s.2.mark level s.1)
    (operands : ∀ s ∈ steps, Accepts (operandOf level) s.2.tokens s.2.expr) (left : Expr) :
    Yields (16 * (stepTokens steps).length + 1)
      (parseTail · level left (stepTokens steps ++ rest)) (chain left steps) rest := by
  induction steps generalizing left with
  | nil =>
    apply yields_succ
    intro fuel _
    exact parseTail_of_halts (stop.2 level (Nat.le_refl _)) fuel left
  | cons s steps ih =>
    obtain ⟨op, mark, tokens, right⟩ := s
    obtain ⟨operator, operators⟩ := List.forall_mem_cons.mp operators
    obtain ⟨operand, operands⟩ := List.forall_mem_cons.mp operands
    have first : Yields (16 * tokens.length + overhead (operandOf level) + 1)
        (parseOperand · level (tokens ++ (stepTokens steps ++ rest))) right (stepTokens steps ++ rest) :=
      yields_operand (operand _ (follows_steps stop operators))
    have later := ih operators operands (.binary op left right)
    have cost := overhead_operandOf level
    have bound : overhead (.level level) ≤ 13 := Nat.sub_le ..
    have length : (stepTokens ((op, ⟨mark, tokens, right⟩) :: steps)).length
        = tokens.length + 1 + (stepTokens steps).length := by
      simp [stepTokens, Segment.written]
      omega
    have same : stepTokens ((op, ⟨mark, tokens, right⟩) :: steps) ++ rest
        = mark :: (tokens ++ (stepTokens steps ++ rest)) := by
      simp [stepTokens, Segment.written]
    rw [length, same]
    apply yields_succ
    intro fuel enough
    simp only [parseTail, denotes_iff.mp operator, first fuel (by omega)]
    exact later fuel (by omega)

theorem accepts_level {steps : List (BinaryOp × Segment)} (first : Accepts (operandOf level) tokens e)
    (operators : ∀ s ∈ steps, Denotes s.2.mark level s.1)
    (operands : ∀ s ∈ steps, Accepts (operandOf level) s.2.tokens s.2.expr) :
    Accepts (.level level) (tokens ++ stepTokens steps) (chain e steps) := by
  intro rest stop
  have operand := yields_operand (first _ (follows_steps stop operators))
  have tail := yields_steps stop operators operands e
  have cost := overhead_operandOf level
  rw [List.length_append, ← cost, List.append_assoc]
  refine Yields.mono (n := 16 * (tokens.length + (stepTokens steps).length) +
    (overhead (operandOf level) + 1) + 1) ?_ (Nat.le_refl _)
  apply yields_succ
  intro fuel enough
  simp only [parserOf, parseLevel, operand fuel (by omega)]
  exact tail fuel (by omega)

/-- The first token of a primary expression is no operator or mark but an opening parenthesis. -/
theorem exists_cons_of_primary (h : Derives .primary tokens e) :
    ∃ token others, tokens = token :: others ∧
      ∀ text : Text, text ≠ "(".toText → token.isOp text = false := by
  have other {token : Token} (kind : token.kind ≠ .op) (text : Text) : token.isOp text = false :=
    isOp_eq_false fun shape => kind (congrArg Prod.fst shape)
  have named {token : Token} (kind : token.kind = .name) (text : Text) : token.isOp text = false :=
    other (by rw [kind]; decide) text
  cases h with
  | literal decoded =>
    refine ⟨_, _, rfl, fun text _ => other (fun kind => ?_) text⟩
    rw [Token.literal?, kind] at decoded
    cases decoded
  | constant kind stands => exact ⟨_, _, rfl, fun text _ => named kind text⟩
  | name kind free => exact ⟨_, _, rfl, fun text _ => named kind text⟩
  | callEmpty kind free opens closes => exact ⟨_, _, rfl, fun text _ => named kind text⟩
  | call kind free opens closes first commas args => exact ⟨_, _, rfl, fun text _ => named kind text⟩
  | parens opens closes inner =>
    refine ⟨_, _, rfl, fun text ne => isOp_eq_false fun shape => ne ?_⟩
    exact congrArg Prod.snd (shape.symm.trans opens)

theorem exists_cons_of_derives {symbol : Symbol} (h : Derives symbol tokens e) :
    ∃ token others, tokens = token :: others ∧ token.isOp ")".toText = false := by
  induction h with
  | level first operators operands ih _ =>
    obtain ⟨token, others, rfl, apart⟩ := ih
    exact ⟨token, _, rfl, apart⟩
  | not mark operand _ | minus mark operand _ | plus mark operand _ =>
    exact ⟨_, _, rfl, isOp_eq mark _⟩
  | primary operand ih => exact ih
  | literal decoded =>
    obtain ⟨token, others, same, apart⟩ := exists_cons_of_primary (.literal decoded)
    exact ⟨token, others, same, apart _ (by decide)⟩
  | constant kind _ | name kind _ | callEmpty kind _ _ _ | call kind _ _ _ _ _ _ _ _ =>
    exact ⟨_, _, rfl, isOp_eq (Prod.ext kind rfl) _⟩
  | parens opens _ _ _ => exact ⟨_, _, rfl, isOp_eq opens _⟩

/-! ## Signs and primary expressions -/

theorem accepts_unary (derived : Derives .primary tokens e) (h : Accepts .primary tokens e) :
    Accepts .unary tokens e := by
  intro rest stop
  obtain ⟨token, others, rfl, other⟩ := exists_cons_of_primary derived
  have primary := h rest stop
  apply yields_succ
  intro fuel enough
  have signless := parseUnary_of_not_sign fuel (other ['!'] (by decide)) (other ['-'] (by decide))
    (other ['+'] (by decide)) (others ++ rest)
  exact signless.trans (primary fuel enough)

theorem accepts_plus {sign : Token} (mark : sign.shape = (.op, "+".toText)) (h : Accepts .unary tokens e) :
    Accepts .unary (sign :: tokens) e := by
  intro rest stop
  have operand := h rest stop
  have is (text : Text) := isOp_eq mark text
  have bang : sign.isOp ['!'] = false := is ['!']
  have minus : sign.isOp ['-'] = false := is ['-']
  have plus : sign.isOp ['+'] = true := is ['+']
  have signed : Yields (16 * tokens.length + 1 + 1) (parseUnary · (sign :: (tokens ++ rest))) e rest := by
    apply yields_succ
    intro fuel enough
    simp only [parseUnary, bang, minus, plus, if_true]
    exact operand fuel enough
  refine signed.mono ?_
  simp only [List.length_cons, overhead]
  omega

theorem accepts_sign {sign : Token} {o : UnaryOp} (mark : sign.shape = (.op, unarySymbol o))
    (h : Accepts .unary tokens e) : Accepts .unary (sign :: tokens) (.unary o e) := by
  intro rest stop
  refine (yields_unary mark (h rest stop)).mono ?_
  simp only [List.length_cons, overhead]
  omega

theorem accepts_literal {v : Value} (decoded : token.literal? = some (.ok v)) :
    Accepts .primary [token] (.literal v) := by
  intro rest _ fuel enough
  obtain ⟨fuel, rfl⟩ : ∃ k, fuel = k + 1 := ⟨fuel - 1, by simp at enough; omega⟩
  simp [parserOf, parsePrimary, decoded]

theorem accepts_constant {v : Value} (kind : token.kind = .name)
    (stands : constant? (nameOf token) = some v) : Accepts .primary [token] (.literal v) := by
  intro rest _ fuel enough
  obtain ⟨fuel, rfl⟩ : ∃ k, fuel = k + 1 := ⟨fuel - 1, by simp at enough; omega⟩
  exact parsePrimary_of_constant fuel kind stands rest

theorem accepts_name (kind : token.kind = .name) (free : constant? (nameOf token) = none) :
    Accepts .primary [token] (.variable (nameOf token)) := by
  intro rest stop fuel enough
  obtain ⟨fuel, rfl⟩ : ∃ k, fuel = k + 1 := ⟨fuel - 1, by simp at enough; omega⟩
  exact parsePrimary_of_variable fuel kind free stop

/-- A closing parenthesis or a comma can stand behind any expression. -/
theorem follows_closed (closed : Closed rest) : Follows (.level .or) rest :=
  ⟨closed.noCall, fun other _ => closed.halts other⟩

theorem follows_closing {closing : Token} (closes : closing.shape = (.op, ")".toText))
    (rest : List Token) : Follows (.level .or) (closing :: rest) :=
  follows_closed (closed_of_shape closes rest)

theorem follows_comma {comma : Token} (mark : comma.shape = (.op, ",".toText)) (rest : List Token) :
    Follows (.level .or) (comma :: rest) := by
  apply follows_closed
  rintro token ⟨⟩
  exact .inr mark

theorem accepts_parens {opening closing : Token} (opens : opening.shape = (.op, "(".toText))
    (closes : closing.shape = (.op, ")".toText)) (inner : Accepts (.level .or) tokens e) :
    Accepts .primary (opening :: (tokens ++ [closing])) e := by
  intro rest _
  have whole := yields_primary_parens opens closes (inner _ (follows_closing closes rest))
  have same : opening :: (tokens ++ [closing]) ++ rest = opening :: (tokens ++ closing :: rest) := by
    simp
  rw [same]
  refine whole.mono ?_
  simp only [List.length_cons, List.length_append, List.length_nil, overhead, Level.rank]
  omega

/-! ## Calls -/

theorem yields_moreArgs {others : List Segment} {closing : Token}
    (closes : closing.shape = (.op, ")".toText)) (first : Accepts (.level .or) tokens e)
    (commas : ∀ s ∈ others, s.mark.shape = (.op, ",".toText))
    (args : ∀ s ∈ others, Accepts (.level .or) s.tokens s.expr) (rest : List Token) :
    Yields (16 * (tokens ++ others.flatMap Segment.written).length + 14)
      (parseMoreArgs · (tokens ++ others.flatMap Segment.written ++ closing :: rest))
      (e :: others.map Segment.expr) rest := by
  induction others generalizing tokens e with
  | nil =>
    have last := first _ (follows_closing closes rest)
    simpa [overhead, Level.rank] using yields_lastArg closes last
  | cons s others ih =>
    obtain ⟨comma, more, next⟩ := s
    obtain ⟨mark, commas⟩ := List.forall_mem_cons.mp commas
    obtain ⟨second, args⟩ := List.forall_mem_cons.mp args
    have later := ih second commas args
    have here := first _ (follows_comma mark (more ++ others.flatMap Segment.written ++ closing :: rest))
    have same : tokens ++ List.flatMap Segment.written (⟨comma, more, next⟩ :: others) ++ closing :: rest
        = tokens ++ comma :: (more ++ others.flatMap Segment.written ++ closing :: rest) := by
      simp [Segment.written]
    have count : (tokens ++ List.flatMap Segment.written (⟨comma, more, next⟩ :: others)).length
        = tokens.length + 1 + (more ++ others.flatMap Segment.written).length := by
      simp only [List.flatMap_cons, Segment.written, List.length_append, List.length_cons]
      omega
    rw [same, count, List.map_cons]
    have bound : overhead (.level .or) = 13 := rfl
    have arg := here.mono
      (m := 16 * (tokens.length + (more ++ others.flatMap Segment.written).length) + 14) (by omega)
    exact (yields_nextArg mark arg (later.mono (by dsimp only; omega))).mono (by omega)

theorem accepts_callEmpty {opening closing : Token} (kind : token.kind = .name)
    (free : constant? (nameOf token) = none) (opens : opening.shape = (.op, "(".toText))
    (closes : closing.shape = (.op, ")".toText)) :
    Accepts .primary [token, opening, closing] (.call (nameOf token).upper []) := by
  intro rest _
  exact (yields_primary_call kind free opens (yields_noArgs closes)).mono (by simp [overhead])

theorem accepts_call {opening closing : Token} {others : List Segment} (kind : token.kind = .name)
    (free : constant? (nameOf token) = none) (opens : opening.shape = (.op, "(".toText))
    (closes : closing.shape = (.op, ")".toText)) (derived : Derives (.level .or) tokens e)
    (first : Accepts (.level .or) tokens e) (commas : ∀ s ∈ others, s.mark.shape = (.op, ",".toText))
    (args : ∀ s ∈ others, Accepts (.level .or) s.tokens s.expr) :
    Accepts .primary (token :: opening :: (tokens ++ others.flatMap Segment.written ++ [closing]))
      (.call (nameOf token).upper (e :: others.map Segment.expr)) := by
  intro rest _
  have more := yields_moreArgs closes first commas args rest
  -- the first argument does not start with a closing parenthesis, which would be an empty list
  obtain ⟨head, tail, rfl, apart⟩ := exists_cons_of_derives derived
  have whole := yields_primary_call kind free opens (yields_args apart more)
  have same : token :: opening :: (head :: tail ++ others.flatMap Segment.written ++ [closing]) ++ rest
      = token :: opening :: (head :: tail ++ others.flatMap Segment.written ++ closing :: rest) := by
    simp
  rw [same]
  refine whole.mono ?_
  simp only [List.length_cons, List.length_append, List.length_nil]
  omega

/-! ## The parser accepts its grammar -/

/-- What is derived the parser returns. -/
theorem yields_of_derives {symbol : Symbol} (h : Derives symbol tokens e) : Accepts symbol tokens e := by
  induction h with
  | level _ operators _ first operands => exact accepts_level first operators operands
  | not mark _ operand => exact accepts_sign (o := .not) mark operand
  | minus mark _ operand => exact accepts_sign (o := .neg) mark operand
  | plus mark _ operand => exact accepts_plus mark operand
  | primary derived operand => exact accepts_unary derived operand
  | literal decoded => exact accepts_literal decoded
  | constant kind stands => exact accepts_constant kind stands
  | name kind free => exact accepts_name kind free
  | callEmpty kind free opens closes => exact accepts_callEmpty kind free opens closes
  | call kind free opens closes derived commas _ first args =>
    exact accepts_call kind free opens closes derived first commas args
  | parens opens closes _ inner => exact accepts_parens opens closes inner

theorem derives_of_ofTokens (h : Expr.ofTokens tokens = .ok e) : Derives (.level .or) tokens e := by
  simp only [Expr.ofTokens] at h
  split at h
  · cases h
  · next parsed =>
    cases h
    obtain ⟨used, same, derived⟩ := (sound (parseFuel tokens)).level parsed
    rw [List.append_nil] at same
    exact same ▸ derived
  · cases h

theorem ofTokens_of_derives (h : Derives (.level .or) tokens e) : Expr.ofTokens tokens = .ok e := by
  have nothing : Follows (.level .or) [] := follows_closed nofun
  have enough : 16 * tokens.length + overhead (.level .or) ≤ parseFuel tokens := by
    simp only [overhead, Level.rank, parseFuel]
    omega
  have parsed := yields_of_derives h [] nothing (parseFuel tokens) enough
  simp only [parserOf, List.append_nil] at parsed
  simp only [Expr.ofTokens, parsed]

/-- **The parser accepts exactly its grammar.** A list of tokens is parsed into a tree exactly if the
whole list is derived with that tree, and no list of tokens is derived with two trees. -/
theorem ofTokens_eq_ok_iff_derives (tokens : List Token) :
    (∀ e, Expr.ofTokens tokens = .ok e ↔ Derives (.level .or) tokens e) ∧
    ∀ e e', Derives (.level .or) tokens e → Derives (.level .or) tokens e' → e = e' := by
  refine ⟨fun e => ⟨derives_of_ofTokens, ofTokens_of_derives⟩, ?_⟩
  intro e e' h h'
  have same := (ofTokens_of_derives h).symm.trans (ofTokens_of_derives h')
  exact Except.ok.inj same

/-- The tokens of `a - -1 - f(b, +c)`. -/
def sampleTokens : List Token :=
  [⟨.name, "a".toText, 0⟩, ⟨.op, "-".toText, 2⟩, ⟨.op, "-".toText, 4⟩, ⟨.number, "1".toText, 5⟩,
    ⟨.op, "-".toText, 7⟩, ⟨.name, "f".toText, 9⟩, ⟨.op, "(".toText, 10⟩, ⟨.name, "b".toText, 11⟩,
    ⟨.op, ",".toText, 12⟩, ⟨.op, "+".toText, 14⟩, ⟨.name, "c".toText, 15⟩, ⟨.op, ")".toText, 16⟩]

/-- The tree of `a - -1 - f(b, +c)`. -/
def sampleTree : Expr :=
  .binary .sub
    (.binary .sub (.variable "a".toText) (.unary .neg (.literal (.int 1))))
    (.call "F".toText [.variable "b".toText, .variable "c".toText])

/-- Differences associate to the left, a sign binds tighter, and a plus sign leaves no trace. -/
theorem derives_sample_unique :
    Derives (.level .or) sampleTokens sampleTree ∧
      ∀ e, Derives (.level .or) sampleTokens e → e = sampleTree := by
  have derived := ((ofTokens_eq_ok_iff_derives sampleTokens).1 sampleTree).mp rfl
  exact ⟨derived, fun e other => (ofTokens_eq_ok_iff_derives sampleTokens).2 e sampleTree other derived⟩

end SclNarrator.Grammar
