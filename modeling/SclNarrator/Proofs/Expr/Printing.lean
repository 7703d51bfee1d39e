import SclNarrator.Proofs.Expr.Acceptance

/-!
Expressions written with as few parentheses as possible. An operand has parentheses where its operator
is looser than the one that it is an operand of, and a right operand also where the two are of one
level, since operators associate to the left.

What is proved:
  1. every token so written is one that the scanner takes up to the next space (`isLexeme_of_mem`);
  2. the grammar derives from the tokens the expression that they were written for
     (`derives_lexemes`);
  3. so parsing undoes the writing (`parse_text`).

Asked for: the numbers, texts and names in the expression can be written (`Expr.IsPrintable`).

Correspondence (analyzer ↔ here):
  `parse_expression` ↔ `Expr.parse`
-/

namespace SclNarrator

/-- Whether a text is a name: an identifier, or several with points between them. -/
def isPath (t : Text) : Bool := (Text.partsAt '.' t).all Term.isIdentifier

namespace Value

/-- Whether a value can stand in an expression as one literal: without a sign, and not too long. -/
def IsLiteral : Value → Prop
  | none | bool _ | text _ => True
  | int n => 0 ≤ n ∧ n.natAbs < 10 ^ Numeral.digitLimit
  | float x => x = Double.infinity ∨ x = Double.nan
  | complex _ => False

/-- The kind of token that a literal is; the values without digits and quotes have names. -/
def lexemeKind : Value → TokenKind
  | int _ => .number
  | text _ => .string
  | _ => .name

def lexeme (v : Value) : TokenKind × Text := (v.lexemeKind, v.source.toOption.getD [])

end Value

namespace Expr

/-- Whether a text can be the name of a variable: it is a name, and stands for no constant. -/
def IsFree (name : Text) : Prop := isPath name = true ∧ Token.constant? name = none

mutual

/-- Whether an expression can be written: it has no literals with a sign, and its functions go by names in
capitals. -/
def IsPrintable : Expr → Prop
  | .literal v => v.IsLiteral
  | .variable name => IsFree name
  | .binary _ left right => left.IsPrintable ∧ right.IsPrintable
  | .unary _ operand => operand.IsPrintable
  | .call name args => (IsFree name ∧ name.upper = name) ∧ ArePrintable args

def ArePrintable : List Expr → Prop
  | [] => True
  | arg :: args => arg.IsPrintable ∧ ArePrintable args

end

/-- How tightly an expression holds together: as the level of its operator, more tightly behind a sign, and
most tightly without an operator. -/
def rank : Expr → Nat
  | .binary op _ _ => op.level.rank
  | .unary _ _ => 6
  | .literal _ | .variable _ | .call _ _ => 7

def enclosed (needed : Bool) (lexemes : List (TokenKind × Text)) : List (TokenKind × Text) :=
  if needed then [(.op, "(".toText)] ++ lexemes ++ [(.op, ")".toText)] else lexemes

mutual

/-- The tokens of an expression with as few parentheses as possible. -/
def lexemes : Expr → List (TokenKind × Text)
  | .literal v => [v.lexeme]
  | .variable name => [(.name, name)]
  | .binary op left right =>
    enclosed (left.rank < op.level.rank) left.lexemes ++ [(.op, (Mark.op op).symbol)] ++
      enclosed (right.rank ≤ op.level.rank) right.lexemes
  | .unary op operand => [(.op, unarySymbol op)] ++ enclosed (operand.rank < 6) operand.lexemes
  | .call name args => [(.name, name), (.op, "(".toText)] ++ argLexemes args ++ [(.op, ")".toText)]

/-- The tokens of arguments, with a comma between any two of them. -/
def argLexemes : List Expr → List (TokenKind × Text)
  | [] => []
  | [arg] => arg.lexemes
  | arg :: next :: args => arg.lexemes ++ [(.op, ",".toText)] ++ argLexemes (next :: args)

end

/-- The text of an expression: its tokens with a space between them. -/
def text (e : Expr) : Text := Text.join " ".toText (e.lexemes.map Prod.snd)

end Expr

/-! ## Names with members -/

theorem exists_of_isPath {t : Text} (h : isPath t = true) :
    ∃ (first : Text) (members : List Text), t = first ++ members.flatMap (.char '.' :: ·) ∧
      Term.isIdentifier first = true ∧ ∀ m ∈ members, Term.isIdentifier m = true := by
  obtain ⟨first, members, split, whole⟩ := @partsAt_eq_cons t (.char '.')
  rw [isPath, split, List.all_cons, Bool.and_eq_true, List.all_eq_true] at h
  exact ⟨first, members, whole, h⟩

namespace Lexeme

variable {rest : Text}

theorem next?_path {t : Text} (dotted : isPath t = true) (ends : Ends rest) :
    next? (t ++ rest) = some (some .name, t, rest) := by
  obtain ⟨w, members, rfl, identifier, identifiers⟩ := exists_of_isPath dotted
  exact next?_members identifier identifiers ends

end Lexeme

/-! ## Tokens with spaces between them -/

/-- Whether a token is what the scanner takes up to a space. -/
structure IsLexeme (l : TokenKind × Text) : Prop where
  ne : l.2 ≠ []
  start : Stops isBlank l.2
  read : ∀ rest, Ends rest → Lexeme.next? (l.2 ++ rest) = some (some l.1, l.2, rest)

namespace Token

theorem stops_join {l : TokenKind × Text} {ls : List (TokenKind × Text)} (h : IsLexeme l) :
    Stops isBlank (Text.join " ".toText ((l :: ls).map Prod.snd)) := by
  cases ls with
  | nil => exact h.start
  | cons next ls =>
    rw [List.map_cons, List.map_cons, Text.join, List.append_assoc]
    exact h.start.append h.ne

theorem scans_join {ls : List (TokenKind × Text)} (h : ∀ l ∈ ls, IsLexeme l) :
    Scans (Text.join " ".toText (ls.map Prod.snd)) ls [] := by
  induction ls with
  | nil => exact fun position tokens later => ⟨[], later, rfl⟩
  | cons l ls ih =>
    obtain ⟨here, later⟩ := List.forall_mem_cons.mp h
    have word {rest : Text} (ends : Ends rest) : Scans l.2 [l] rest :=
      scans_of_next? here.ne (here.read rest ends)
    cases ls with
    | nil => exact word stops_nil
    | cons next ls =>
      have stop : Stops isBlank (Text.join " ".toText ((next :: ls).map Prod.snd) ++ []) := by
        rw [List.append_nil]
        exact stops_join (List.forall_mem_cons.mp later).1
      have space := scans_of_next? (List.cons_ne_nil _ _) (Lexeme.next?_space stop)
      have front : Scans (l.2 ++ " ".toText) [l] (Text.join " ".toText ((next :: ls).map Prod.snd) ++ []) :=
        (word (stops_cons.mpr rfl)).append space
      exact front.append (ih later)

theorem scan_join {ls : List (TokenKind × Text)} (h : ∀ l ∈ ls, IsLexeme l) :
    ∃ tokens, scan (Text.join " ".toText (ls.map Prod.snd)) = .ok tokens ∧ tokens.map shape = ls := by
  obtain ⟨tokens, scanned, shapes⟩ := scans_join h 0 [] rfl
  rw [List.append_nil, List.append_nil] at scanned
  exact ⟨tokens, scanned, shapes⟩

end Token

/-! ## Every token is one -/

namespace Value

/-- A whole number without sign is written with its digits. -/
theorem lexeme_int {n : Int} (h : (int n).IsLiteral) :
    (int n).lexeme = (.number, Numeral.natText n.natAbs) := by
  have fits : Numeral.fits n = true := Numeral.fits_iff.mpr h.2
  simp only [lexeme, source, intText, if_pos fits, Numeral.text, if_neg (Int.not_lt.mpr h.1)]
  rfl

end Value

theorem isPath_of_isIdentifier {t : Text} (h : Term.isIdentifier t = true) : isPath t = true := by
  obtain ⟨first, members, split, whole⟩ := @partsAt_eq_cons t (.char '.')
  have words := Term.isWord_of_isIdentifier h
  cases members with
  | nil =>
    rw [List.flatMap_nil, List.append_nil] at whole
    rw [isPath, split, ← whole, List.all_cons, h]
    rfl
  | cons m members =>
    have point : isWord (.char '.') = true := words _ (by rw [whole]; simp)
    cases point

theorem isLexeme_name {t : Text} (h : isPath t = true) : IsLexeme (.name, t) := by
  obtain ⟨first, members, whole, identifier, -⟩ := exists_of_isPath h
  obtain ⟨c, more, same, blank, -⟩ := first_of_isIdentifier identifier
  rw [same] at whole
  refine ⟨?_, ?_, fun rest ends => Lexeme.next?_path h ends⟩
  · rw [whole]
    exact List.cons_ne_nil _ _
  · rw [whole]
    exact stops_cons.mpr blank

theorem isLexeme_constant (c : Constant) : IsLexeme (.name, c.text) :=
  isLexeme_name (isPath_of_isIdentifier (isIdentifier_constant c))

theorem isLexeme_mark (m : Mark) : IsLexeme (.op, m.symbol) := by
  have first : m.symbol ≠ [] ∧ Stops isBlank m.symbol := by
    rcases m with _ | _ | _ | o
    · exact ⟨by decide, stops_cons.mpr (by decide)⟩
    · exact ⟨by decide, stops_cons.mpr (by decide)⟩
    · exact ⟨by decide, stops_cons.mpr (by decide)⟩
    · cases o <;> exact ⟨by decide, stops_cons.mpr (by decide)⟩
  exact ⟨first.1, first.2, fun rest ends => Lexeme.next?_mark m ends⟩

theorem isLexeme_sign (o : UnaryOp) : IsLexeme (.op, Expr.unarySymbol o) := by
  cases o with
  | neg => exact isLexeme_mark (.op .sub)
  | not =>
    refine ⟨by decide, stops_cons.mpr (by decide), fun rest ends => Lexeme.next?_bang fun equals => ?_⟩
    exact absurd (ends _ equals) (by decide)

theorem isLexeme_literal {v : Value} (h : v.IsLiteral) : IsLexeme v.lexeme := by
  cases v with
  | none => exact isLexeme_constant .null
  | bool b =>
    cases b with
    | false => exact isLexeme_constant .false
    | true => exact isLexeme_constant .true
  | int n =>
    rw [Value.lexeme_int h]
    let number := NumberText.ofNat n.natAbs h.2
    obtain ⟨c, more, same, digit⟩ := number.first
    have blank := forall_digit (P := fun c => !isBlank c) (by decide) digit
    have text : Numeral.natText n.natAbs = c :: more := same
    refine ⟨?_, ?_, fun rest ends => Lexeme.next?_number number ends⟩
    · rw [text]
      exact List.cons_ne_nil _ _
    · rw [text]
      exact stops_cons.mpr (by simpa using blank)
  | float x =>
    rcases h with rfl | rfl
    · exact isLexeme_constant .infinity
    · exact isLexeme_constant .nan
  | text t =>
    have string := isString_quotedSource t
    exact ⟨string.ne, stops_cons.mpr (by decide), fun rest _ => Lexeme.next?_string string rest⟩
  | complex z => cases h

namespace Expr

theorem isLexeme_enclosed {needed : Bool} {ls : List (TokenKind × Text)} (h : ∀ l ∈ ls, IsLexeme l) :
    ∀ l ∈ enclosed needed ls, IsLexeme l := by
  cases needed with
  | false => exact h
  | true =>
    simp only [enclosed, if_true, List.mem_append, List.mem_singleton]
    rintro l ((rfl | mem) | rfl)
    · exact isLexeme_mark .opening
    · exact h l mem
    · exact isLexeme_mark .closing

mutual

theorem isLexeme_of_mem : (e : Expr) → e.IsPrintable → ∀ l ∈ e.lexemes, IsLexeme l
  | .literal v, h => by
    rw [lexemes]
    exact List.forall_mem_singleton.mpr (isLexeme_literal h)
  | .variable name, h => by
    rw [lexemes]
    exact List.forall_mem_singleton.mpr (isLexeme_name h.1)
  | .binary op left right, h => by
    have first := isLexeme_of_mem left h.1
    have second := isLexeme_of_mem right h.2
    simp only [lexemes, List.mem_append, List.mem_singleton]
    rintro l ((mem | rfl) | mem)
    · exact isLexeme_enclosed first l mem
    · exact isLexeme_mark (.op op)
    · exact isLexeme_enclosed second l mem
  | .unary op operand, h => by
    have inner := isLexeme_of_mem operand h
    simp only [lexemes, List.mem_append, List.mem_singleton]
    rintro l (rfl | mem)
    · exact isLexeme_sign op
    · exact isLexeme_enclosed inner l mem
  | .call name args, h => by
    have inner := isLexeme_of_mem_args args h.2
    simp only [lexemes, List.mem_append, List.mem_cons, List.not_mem_nil, or_false]
    rintro l (((rfl | rfl) | mem) | rfl)
    · exact isLexeme_name h.1.1.1
    · exact isLexeme_mark .opening
    · exact inner l mem
    · exact isLexeme_mark .closing

theorem isLexeme_of_mem_args : (args : List Expr) → ArePrintable args → ∀ l ∈ argLexemes args, IsLexeme l
  | [], _ => by simp [argLexemes]
  | [arg], h => by
    rw [argLexemes]
    exact isLexeme_of_mem arg h.1
  | arg :: next :: args, h => by
    have first := isLexeme_of_mem arg h.1
    have others := isLexeme_of_mem_args (next :: args) h.2
    simp only [argLexemes, List.mem_append, List.mem_singleton]
    rintro l ((mem | rfl) | mem)
    · exact first l mem
    · exact isLexeme_mark .comma
    · exact others l mem

end

end Expr

/-! ## The tokens are derived -/

namespace Grammar

open SclNarrator.Expr Token

variable {tokens : List Token} {e : Expr} {j k : Nat}

theorem Derives.append_step {level : Level} {mark : Token} {op : BinaryOp} {ls rs : List Token}
    {left right : Expr}
    (first : Derives (.level level) ls left) (operator : Denotes mark level op)
    (operand : Derives (operandOf level) rs right) :
    Derives (.level level) (ls ++ mark :: rs) (.binary op left right) := by
  cases first with
  | @level _ tokens e steps first operators operands =>
    have longer := @Derives.level level tokens e (steps ++ [(op, ⟨mark, rs, right⟩)]) first
      (List.forall_mem_append.mpr ⟨operators, List.forall_mem_singleton.mpr operator⟩)
      (List.forall_mem_append.mpr ⟨operands, List.forall_mem_singleton.mpr operand⟩)
    simpa [stepTokens, chain, Segment.written] using longer

/-- An operand is derived where it stands, if it has parentheses wherever it is too loose. -/
theorem derives_enclosed {needed : Bool} (shapes : tokens.map shape = enclosed needed e.lexemes)
    (tight : needed = false → j ≤ e.rank) (bound : j ≤ 7)
    (h : ∀ {tokens : List Token}, tokens.map shape = e.lexemes → Derives (symbolOf e.rank) tokens e) :
    Derives (symbolOf j) tokens e := by
  cases needed with
  | false => exact (h shapes).loosen (tight rfl)
  | true =>
    simp only [enclosed, if_true, List.singleton_append] at shapes
    obtain ⟨opening, tokens, rfl, opens, shapes⟩ := List.map_eq_cons_iff.mp shapes
    obtain ⟨inner, tokens, rfl, middle, shapes⟩ := List.map_eq_append_iff.mp shapes
    obtain ⟨closing, rfl, closes⟩ := List.map_eq_singleton_iff.mp shapes
    have whole : Derives (symbolOf 7) (opening :: (inner ++ [closing])) e :=
      .parens opens closes ((h middle).loosen (Nat.zero_le _))
    exact whole.loosen bound

theorem derives_string {token : Token} {q : Text} (shape : token.shape = (.string, q)) :
    Derives .primary [token] (.literal (.text (unquote q))) := by
  obtain ⟨kind, text⟩ := Prod.ext_iff.mp shape
  change token.kind = .string at kind
  change token.text = q at text
  refine .literal ?_
  rw [Token.literal?, kind]
  simp only [text]

theorem derives_number {token : Token} (n : NumberText) (shape : token.shape = (.number, n.text)) :
    Derives .primary [token] (.literal n.value) := by
  obtain ⟨kind, text⟩ := Prod.ext_iff.mp shape
  change token.kind = .number at kind
  change token.text = n.text at text
  refine .literal ?_
  rw [Token.literal?, kind]
  simp only [text, n.valued]

theorem derives_constant {token : Token} (c : Constant) (kind : token.kind = .name)
    (name : nameOf token = c.text) :
    Derives .primary [token] (.literal c.value) := by
  refine .constant kind ?_
  rw [name]
  cases c <;> rfl

theorem derives_word {token : Token} (c : Constant) (shape : token.shape = (.name, c.text)) :
    Derives .primary [token] (.literal c.value) := by
  have text : token.text = c.text := congrArg Prod.snd shape
  refine derives_constant c (congrArg Prod.fst shape) ?_
  rw [nameOf, text]
  cases c <;> rfl

theorem derives_literal {token : Token} {v : Value} (literal : v.IsLiteral) (shape : token.shape = v.lexeme) :
    Derives .primary [token] (.literal v) := by
  cases v with
  | none => exact derives_word .null shape
  | bool b =>
    cases b with
    | false => exact derives_word .false shape
    | true => exact derives_word .true shape
  | int n =>
    rw [Value.lexeme_int literal] at shape
    have derived := derives_number (.ofNat n.natAbs literal.2) shape
    rwa [show (NumberText.ofNat n.natAbs literal.2).value = .int n.natAbs from rfl,
      Int.natAbs_of_nonneg literal.1] at derived
  | float x =>
    rcases literal with rfl | rfl
    · exact derives_word .infinity shape
    · exact derives_word .nan shape
  | text t =>
    have quoted : token.shape = (.string, Value.quotedSource t) := shape
    have derived := derives_string quoted
    rwa [unquote_quotedSource t] at derived
  | complex z => cases literal

theorem nameOf_of_isFree {token : Token} {name : Text} (free : IsFree name)
    (shape : token.shape = (.name, name)) :
    token.kind = .name ∧ nameOf token = name ∧ constant? (nameOf token) = none := by
  have text : token.text = name := congrArg Prod.snd shape
  have bare : nameOf token = name := by
    obtain ⟨first, members, whole, identifier, -⟩ := exists_of_isPath free.1
    rw [nameOf, text, whole, Text.dropLeading]
    refine dropWhile_of_stops fun c mem => ?_
    have hash : ∀ c ∈ first, c ≠ '#' := by
      rintro c among rfl
      exact absurd (Term.isWord_of_isIdentifier identifier _ among) (by decide)
    cases first with
    | nil => cases identifier
    | cons d first =>
      cases mem
      simpa using hash c List.mem_cons_self
  exact ⟨congrArg Prod.fst shape, bare, by rw [bare]; exact free.2⟩

mutual

/-- The tokens of an expression are derived with that expression. -/
theorem derives_lexemes : (e : Expr) → e.IsPrintable → ∀ {tokens : List Token},
    tokens.map shape = e.lexemes → Derives (symbolOf e.rank) tokens e
  | .literal v, h, tokens, shapes => by
    obtain ⟨token, rfl, shape⟩ := List.map_eq_singleton_iff.mp (by rwa [lexemes] at shapes)
    exact derives_literal h shape
  | .variable name, h, tokens, shapes => by
    obtain ⟨token, rfl, shape⟩ := List.map_eq_singleton_iff.mp (by rwa [lexemes] at shapes)
    obtain ⟨kind, bare, free⟩ := nameOf_of_isFree h shape
    have derived := Derives.name kind free
    rwa [bare] at derived
  | .binary op left right, h, tokens, shapes => by
    rw [lexemes, List.append_assoc, List.singleton_append] at shapes
    obtain ⟨ls, tokens, rfl, lefts, shapes⟩ := List.map_eq_append_iff.mp shapes
    obtain ⟨sign, rs, rfl, middle, rights⟩ := List.map_eq_cons_iff.mp shapes
    have bound := op.level.rank_le
    have first := derives_enclosed (j := op.level.rank) lefts (by simp) (by omega)
      fun shapes => derives_lexemes left h.1 shapes
    have second := derives_enclosed (j := op.level.rank + 1) rights (by simp) (by omega)
      fun shapes => derives_lexemes right h.2 shapes
    rw [symbolOf_rank] at first
    rw [symbolOf_rank_succ] at second
    rw [rank, symbolOf_rank]
    refine first.append_step (denotes_iff.mpr ?_) second
    rw [binary?_eq middle, if_pos rfl, Level.lookup_symbol, if_pos rfl]
  | .unary op operand, h, tokens, shapes => by
    rw [lexemes, List.singleton_append] at shapes
    obtain ⟨sign, rest, rfl, mark, inner⟩ := List.map_eq_cons_iff.mp shapes
    have derived := derives_enclosed (j := 6) inner (by simp) (by omega)
      fun shapes => derives_lexemes operand h shapes
    cases op with
    | not => exact .not mark derived
    | neg => exact .minus mark derived
  | .call name args, h, tokens, shapes => by
    rw [lexemes, List.append_assoc, List.cons_append, List.singleton_append] at shapes
    obtain ⟨token, tokens, rfl, first, shapes⟩ := List.map_eq_cons_iff.mp shapes
    obtain ⟨opening, tokens, rfl, opens, shapes⟩ := List.map_eq_cons_iff.mp shapes
    obtain ⟨inner, tokens, rfl, middle, shapes⟩ := List.map_eq_append_iff.mp shapes
    obtain ⟨closing, rfl, closes⟩ := List.map_eq_singleton_iff.mp shapes
    obtain ⟨kind, bare, free⟩ := nameOf_of_isFree h.1.1 first
    have capitals : (nameOf token).upper = name := by rw [bare, h.1.2]
    cases args with
    | nil =>
      obtain rfl : inner = [] := List.map_eq_nil_iff.mp middle
      have derived := Derives.callEmpty kind free opens closes
      rwa [capitals] at derived
    | cons arg args =>
      obtain ⟨front, others, rfl, same, derivedFirst, commas, derivedOthers⟩ :=
        derives_argLexemes (arg :: args) h.2 (by simp) middle
      have derived := Derives.call kind free opens closes derivedFirst commas derivedOthers
      rwa [capitals, same] at derived

/-- The tokens of arguments are those of the first, and of the others behind commas. -/
theorem derives_argLexemes : (args : List Expr) → ArePrintable args → (filled : args ≠ []) →
    ∀ {tokens : List Token},
    tokens.map shape = argLexemes args →
    ∃ (first : List Token) (others : List Segment), tokens = first ++ others.flatMap Segment.written ∧
      args.head filled :: others.map Segment.expr = args ∧ Derives (.level .or) first (args.head filled) ∧
      (∀ s ∈ others, s.mark.shape = (.op, ",".toText)) ∧ ∀ s ∈ others, Derives (.level .or) s.tokens s.expr
  | [], _, filled, _, _ => absurd rfl filled
  | [arg], h, _, tokens, shapes => by
    rw [argLexemes] at shapes
    exact ⟨tokens, [], by simp, rfl, (derives_lexemes arg h.1 shapes).loosen (Nat.zero_le _),
      by simp, by simp⟩
  | arg :: next :: args, h, _, tokens, shapes => by
    rw [argLexemes, List.append_assoc, List.singleton_append] at shapes
    obtain ⟨first, tokens, rfl, here, shapes⟩ := List.map_eq_append_iff.mp shapes
    obtain ⟨comma, tokens, rfl, mark, later⟩ := List.map_eq_cons_iff.mp shapes
    obtain ⟨second, others, rfl, same, derived, commas, each⟩ :=
      derives_argLexemes (next :: args) h.2 (by simp) later
    refine ⟨first, ⟨comma, second, next⟩ :: others, by simp [Segment.written], ?_,
      (derives_lexemes arg h.1 here).loosen (Nat.zero_le _), List.forall_mem_cons.mpr ⟨mark, commas⟩,
      List.forall_mem_cons.mpr ⟨derived, each⟩⟩
    exact congrArg (arg :: ·) same

end

theorem parse_of_derives {t : Text} {tokens : List Token} {e : Expr} (scanned : Token.scan t = .ok tokens)
    (derived : Derives (.level .or) tokens e) : Expr.parse t = .ok e := by
  have parsed := ofTokens_of_derives derived
  rw [Expr.parse, scanned]
  cases tokens with
  | nil => cases parsed
  | cons token tokens => exact parsed

end Grammar

namespace Expr

/-- **Parsing undoes writing.** The text of an expression, with parentheses only where the levels of
the operators or the association to the left call for them, is parsed as that expression. -/
theorem parse_text (e : Expr) (h : e.IsPrintable) : parse e.text = .ok e := by
  obtain ⟨tokens, scanned, shapes⟩ := Token.scan_join (isLexeme_of_mem e h)
  exact Grammar.parse_of_derives scanned ((Grammar.derives_lexemes e h shapes).loosen (Nat.zero_le _))

/-- Operators of three levels and two signs, with the operands that need parentheses. -/
def crowded : Expr :=
  .binary .mul
    (.binary .sub (.variable "Tank.Level".toText)
      (.binary .sub (.literal (.int 3)) (.literal (.float Double.infinity))))
    (.unary .neg (.call "MAX".toText
      [.binary .sub (.binary .sub (.variable "x".toText) (.literal (.text "a\\'\"b".toText)))
        (.literal .none),
        .unary .not (.binary .or (.literal (.bool true)) (.unary .not (.variable "ok".toText)))]))

theorem parse_text_crowded : crowded.IsPrintable ∧
    crowded.text =
      "( Tank.Level - ( 3 - Infinity ) ) * - MAX ( x - \"a\\\\'\\\"b\" - null , ! ( true || ! ok ) )".toText ∧
    parse crowded.text = .ok crowded := by
  have printable : crowded.IsPrintable := by
    simp only [crowded, IsPrintable, ArePrintable, Value.IsLiteral, IsFree]
    decide +kernel
  exact ⟨printable, by decide +kernel, parse_text crowded printable⟩

end Expr
end SclNarrator
