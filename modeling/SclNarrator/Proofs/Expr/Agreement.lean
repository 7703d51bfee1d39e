import SclNarrator.Proofs.Expr.Parsing
import SclNarrator.Proofs.Expr.Symbolize
import SclNarrator.Proofs.Run.Environment

/-!
The way through the text and the direct way give the same value.

What is proved:
  1. the text of a term, with names and words replaced, scanned and parsed, is the expression of the
     term with the values of bound names in the place of the names (`parse_operands`);
  2. that expression has the value that the term has (`eval_read`);
  3. so a term is evaluated from its text to the value of its expression, or to none where that has a
     fault (`evaluate_text`).

Asked for: the values of the environment can be written as text, and no function that the term calls
has the name of a binding.

Correspondence (analyzer ↔ here):
  `substitute`, `rewrite_operators` ↔ `Environment.substitute`, `Vocabulary.symbolize`
  `ExpressionEvaluator.evaluate`    ↔ `Environment.evaluate`
  `_eval`                           ↔ `Expr.eval`
-/

namespace SclNarrator

open Text

/-! ## Operands and the words -/

theorem forall_decimalChar {P : CodePoint → Bool}
    (digits : (rangeMembers [(48, 57)]).all fun n => P (CodePoint.ofNat n))
    (others : ".e+-".toText.all P = true) {c : CodePoint} (h : Decimal.isDecimalChar c = true) :
    P c = true := by
  have other := List.all_eq_true.mp others
  simp only [Decimal.isDecimalChar, Bool.or_eq_true, beq_iff_eq] at h
  rcases h with (((digit | rfl) | rfl) | rfl) | rfl
  · exact forall_digit digits digit
  · exact other _ (by decide)
  · exact other _ (by decide)
  · exact other _ (by decide)
  · exact other _ (by decide)

namespace Operand

theorem isDecimalChar_number (negative : Bool) (n : NumberText) :
    ∀ c ∈ (signed negative (.number n)).text, Decimal.isDecimalChar c = true := by
  intro c mem
  rcases List.mem_append.mp mem with sign | digits
  · cases negative with
    | false => cases sign
    | true =>
      rw [List.mem_singleton.mp sign]
      decide
  · exact n.chars c digits

theorem isQuotable_text (o : Operand) : ∀ c ∈ o.text, Term.isQuotable c = true := by
  rcases o with ⟨negative, n | b | c⟩ | n
  · exact fun c mem => forall_decimalChar (by decide) (by decide) (isDecimalChar_number negative n c mem)
  · cases negative <;> cases b <;> decide
  · cases negative <;> cases c <;> decide
  · exact fun c mem => Term.isQuotable_of_isWord (Term.isWord_of_isIdentifier n.isIdentifier c mem)

/-- The replacement of words changes the truth values of an operand and nothing else. -/
theorem symbolizes (o : Operand) : Item.Symbolizes (.leaf o) o.text o.symbol := by
  rcases o with ⟨negative, n | b | c⟩ | n
  · have chars := isDecimalChar_number negative n
    have steady : Item.IsSteady (signed negative (.number n)).text := by
      apply Item.isSteady_of_letters
      intro c mem
      have := forall_decimalChar (P := fun c => !"axonmtf<=".toText.contains (looseLetter c))
        (by decide) (by decide) (chars c mem)
      simpa using this
    obtain ⟨c, more, same, -⟩ := n.first
    have ne : (signed negative (.number n)).text ≠ [] := by simp [text, Core.text, same]
    refine Item.symbolizes_leaf _ steady ne fun c mem => ?_
    have := forall_decimalChar (P := fun c => !isBlank c) (by decide) (by decide)
      (chars c (List.mem_of_mem_head? mem))
    simpa using this
  · cases negative <;> cases b <;> exact ⟨by decide, by decide⟩
  · cases negative <;> cases c <;> exact ⟨by decide, by decide⟩
  · obtain ⟨c, more, same, blank, -⟩ := first_of_isIdentifier n.isIdentifier
    have ne : n.text ≠ [] := by simp [same]
    refine Item.symbolizes_leaf _ (Item.isSteady_of_isName n.valid) ne ?_
    rw [text, same]
    exact stops_cons.mpr blank

end Operand
namespace Item

/-- How an item without literals is written once the words are replaced. -/
def symbolic : Item Operand → Text
  | space => " ".toText
  | not => "!".toText
  | mark m => m.symbol
  | leaf o => o.symbol

theorem symbolizes_symbolic (b : Item Operand) : Symbolizes b (Item.text Operand.text b) b.symbolic := by
  cases b with
  | space => exact symbolizes_space
  | not => exact symbolizes_not
  | mark m => exact symbolizes_mark m
  | leaf o => exact o.symbolizes

theorem spell_symbolic (items : List (Item (Slot Operand))) :
    spell symbolic items = items.flatMap symbol := by
  refine List.flatMap_congr fun item _ => ?_
  rcases item with _ | _ | m | (q | o) <;> rfl

theorem flatMap_spaced {α β : Type} {f : Item α → List β} (h : f space = []) (items : List (Item α)) :
    (spaced items).flatMap f = items.flatMap f := by
  induction items with
  | nil => rfl
  | cons item rest ih =>
    cases rest with
    | nil => rfl
    | cons next rest =>
      cases item <;> simp [spaced, h, ih]

end Item

/-! ## From the text to the expression -/

namespace Term

/-- The items of a term, with what stands for its leaves in their place. -/
def operands (o : Leaf → Slot Operand) (t : Term) : List (Item (Slot Operand)) :=
  (Item.spaced t.items).map (Item.map o)

variable {o : Leaf → Slot Operand}

theorem isChain_operands (t : Term) : (t.operands o).IsChain fun a b => a.meets b = true :=
  Item.isChain_map _ (Item.isChain_spaced (proper_items t))

theorem isValid_operands (valid : ∀ a, (o a).IsValid) (t : Term) : ∀ b ∈ t.operands o, b.IsValid := by
  intro b mem
  obtain ⟨item, -, rfl⟩ := List.mem_map.mp mem
  cases item with
  | leaf a => exact valid a
  | space | not | mark m => trivial

theorem isPlaced_operands (valid : ∀ a, (o a).IsValid) (t : Term) :
    ∀ b ∈ t.operands o, Item.IsPlaced (Item.text Operand.text) b := by
  intro b mem
  have := isValid_operands valid t b mem
  rcases b with _ | _ | m | (q | x)
  · exact List.all_eq_true.mp (by decide : " ".toText.all isQuotable = true)
  · exact List.all_eq_true.mp (by decide : "NOT ".toText.all isQuotable = true)
  · exact m.isQuotable_text
  · exact this
  · exact x.isQuotable_text

theorem symbolize_operands (valid : ∀ a, (o a).IsValid) (t : Term) :
    Vocabulary.symbolize ((Item.spaced t.items).flatMap (Item.text fun a => (o a).text Operand.text))
      = (t.operands o).flatMap Item.symbol := by
  have spelled : (Item.spaced t.items).flatMap (Item.text fun a => (o a).text Operand.text)
      = Item.spell (Item.text Operand.text) (t.operands o) := by
    rw [Item.spell_text, operands, Item.flatMap_text_map]
  rw [spelled, Item.symbolize_spell (isPlaced_operands valid t)
    (fun _ _ b _ => Item.symbolizes_symbolic b) t.isChain_operands, Item.spell_symbolic]

theorem flatMap_shapes_operands (t : Term) :
    (t.operands o).flatMap Item.shapes = shapesOf o t.items := by
  rw [operands, List.flatMap_map, Item.flatMap_spaced rfl]
  rfl

/-- The symbols of a term are parsed as the term. -/
theorem parse_operands (valid : ∀ a, (o a).IsValid) {t : Term} (keeps : Keeps o t.functions) :
    Expr.parse ((t.operands o).flatMap Item.symbol) = .ok (t.read o) := by
  obtain ⟨tokens, scanned, shapes⟩ := Item.scan_items (isValid_operands valid t) t.isChain_operands
  rw [flatMap_shapes_operands] at shapes
  have read := @Expr.yields_term o t keeps tokens [] shapes (by rintro token ⟨⟩)
  rw [List.append_nil] at read
  have whole := Expr.yields_or_of_unary read (by rintro level token ⟨⟩) (Expr.parseFuel tokens)
    (by rw [Expr.parseFuel]; omega)
  rw [Expr.parse, scanned]
  cases tokens with
  | nil =>
    obtain ⟨first, more, same, -⟩ := exists_shapes_eq o t
    rw [same] at shapes
    cases shapes
  | cons token tokens => simp only [Expr.ofTokens, whole]

/-! ## The value -/

mutual

theorem eval_read {env : Environment} (value : ∀ a, (o a).expr.eval env = a.expr.eval env) :
    (t : Term) → (t.read o).eval env = t.expr.eval env
  | .number n => value (.number n)
  | .truth b => value (.truth b)
  | .quoted q => value (.quoted q)
  | .variable w => value (.name w)
  | .binary op left right => by
    rw [read, expr, Expr.eval, Expr.eval, eval_read value left, eval_read value right]
  | .not operand => by rw [read, expr, Expr.eval, Expr.eval, eval_read value operand]
  | .neg operand => by rw [read, expr, Expr.eval, Expr.eval, eval_read value operand]
  | .call function args => by rw [read, expr, Expr.eval, Expr.eval, eval_argReads value args]

theorem eval_argReads {env : Environment} (value : ∀ a, (o a).expr.eval env = a.expr.eval env) :
    (args : List Term) → Expr.evalArgs env (argReads o args) = Expr.evalArgs env (argExprs args)
  | [] => rfl
  | arg :: args => by
    rw [argReads, argExprs, Expr.evalArgs, Expr.evalArgs, eval_read value arg, eval_argReads value args]

end

end Term

/-! ## Agreement -/

/-- An assignment to a name keeps an environment writable, unless the number is too long. Complex
numbers cannot be assigned. -/
theorem Environment.Writable.bind {env env' : Environment} {name type : Text} {value : Value}
    (writable : env.Writable) (named : Term.isName name = true)
    (short : ∀ n, value = .int n → Numeral.fits n = true) (h : env.bind name value type = .ok env') :
    env'.Writable := by
  have written : value.isWritable = true := by
    cases value with
    | complex z => cases h
    | int n => exact short n rfl
    | none | bool b | float x | text t => rfl
  have bound : ∀ b ∈ env'.bindings, b ∈ env.bindings ∨ b = ⟨name, value, type, .computed⟩ := by
    intro b mem
    obtain ⟨e, entry, rfl⟩ := List.mem_map.mp mem
    have old (was : e ∈ env.entries) : e.2 ∈ env.bindings := List.mem_map_of_mem was
    rcases bind_cases h with ⟨_, -, -, entries⟩ | ⟨-, entries⟩
    · rw [entries, List.mem_append, List.mem_singleton] at entry
      rcases entry with kept | rfl
      · exact .inl (old (List.mem_of_mem_filter kept))
      · exact .inr rfl
    · rw [entries] at entry
      rcases mem_putKey entry with rfl | kept
      · exact .inr rfl
      · exact .inl (old kept)
  constructor
  · intro b mem
    rcases bound b mem with old | rfl
    · exact writable.names b old
    · exact named
  · intro b mem
    rcases bound b mem with old | rfl
    · exact writable.values b old
    · exact written

namespace Term

/-- The value of a term's text is the value of the term: names are bound in any letter case, a name that
is not bound is zero, and a failure leaves no value. -/
theorem evaluate_text (env : Environment) (writable : env.Writable) (t : Term)
    (free : ∀ f ∈ t.functions, ∀ b ∈ env.bindings, b.name.fold ≠ f.text.fold) :
    env.evaluate t.text = match t.expr.eval env with
      | .ok v => v
      | .error _ => .none := by
  have fine (n : Text) (mem : n ∈ env.names) : isName n = true := by
    obtain ⟨b, bound, rfl⟩ := Environment.mem_names.mp mem
    exact writable.names b bound
  choose o valid replaced value kept using Leaf.exists_operand writable
  have keeps : Keeps o t.functions := by
    intro f called
    refine kept (.name f) f rfl fun mem => ?_
    obtain ⟨b, bound, same⟩ := Environment.mem_names.mp mem
    exact free f called b bound (by rw [same])
  have substituted := Environment.substitute_text fine replaced t
  cases walked : t.expr.eval env with
  | ok v | error fault =>
    simp only [Environment.evaluate, Environment.trace, substituted, symbolize_operands valid t,
      parse_operands valid keeps, Trace.value, ok_bind, eval_read value t, walked]

/-- A negative number is written in the place of its name behind a minus, and is looked up where the name
is spelled in another way: `( ( MAX ( ( - Level ) , level ) = 5 ) AND ( NOT ( LEVEL <> Level ) ) )`. -/
theorem evaluate_text_negative_level :
    let env : Environment :=
      ⟨[("level".toText, ⟨"Level".toText, .int (-5), "INT".toText, .computed⟩)]⟩
    let level : Term := .variable ⟨"Level".toText, by decide⟩
    let small : Term := .variable ⟨"level".toText, by decide⟩
    let capital : Term := .variable ⟨"LEVEL".toText, by decide⟩
    let five : Term := .number ⟨5, by decide +kernel⟩
    let largest : Term := .call ⟨"MAX".toText, by decide⟩ [.neg level, small]
    let t : Term := .binary .and (.binary .eq largest five) (.not (.binary .ne capital level))
    env.Writable ∧ (∀ f ∈ t.functions, ∀ b ∈ env.bindings, b.name.fold ≠ f.text.fold) ∧
      env.evaluate t.text = .bool true := by
  intro env level small capital five largest t
  have writable : env.Writable := by
    constructor
    · decide
    · decide +kernel
  have free : ∀ f ∈ t.functions, ∀ b ∈ env.bindings, b.name.fold ≠ f.text.fold := by
    decide
  refine ⟨writable, free, ?_⟩
  rw [evaluate_text env writable t free]
  rfl

end Term
end SclNarrator
