import SclNarrator.Proofs.Expr.Printing
import SclNarrator.Proofs.Expr.Segments
import SclNarrator.Proofs.Program.LiteralText

/-!
Values read back.

What is proved:
  1. the text of a value has no operator word to be replaced and is parsed as an expression of that
     value, also behind the `#` that is left of a local name (`symbolize_source`, `parse_source`);
  2. a bound name gives way to the text of its value; if it was written in double quotes, names are
     looked for once more in that text, and there are none (`replaceNames_source`);
  3. so a bound name has the value that it was bound to, however it is written (`Value.read_back`).

Asked for: the value can be written as text (`Value.isWritable`).

Correspondence (analyzer ↔ here):
  `to_source`  ↔ `Value.source`
  `substitute` ↔ `Environment.substitute`
-/

namespace SclNarrator

/-! ## Behind a hash -/

namespace Lexeme

theorem next?_of_hash (t : Text) : next? (.char '#' :: t) =
    ((name? (.char '#' :: t)).map (some .name, ·) <|> some (none, [.char '#'], t)) := by
  have noDuration : duration? (.char '#' :: t) = none := rfl
  have noOperator : operator? (.char '#' :: t) = none := rfl
  rw [next?, blanks?_eq_none (stops_cons.mpr (by decide)), noDuration, based?_of_not_isWord (by decide),
    number?_eq_none (by decide) (by decide), string?_eq_none (by decide), noOperator]
  rfl

/-- A `#` that no name follows stands alone. -/
theorem next?_hash {t : Text} (stop : Stops isNameStart t) :
    next? (.char '#' :: t) = some (none, [.char '#'], t) := by
  have noName : name? (.char '#' :: t) = none := by
    cases t with
    | nil => rfl
    | cons c t => simp [name?, stops_cons.mp stop]
  rw [next?_of_hash, noName]
  rfl

/-- An identifier behind a `#` is one token with it. -/
theorem next?_local {w rest : Text} (identifier : Term.isIdentifier w = true) (ends : Ends rest) :
    next? (.char '#' :: w ++ rest) = some (some .name, .char '#' :: w, rest) := by
  have taken := taken_left (.char '#' :: w) rest
  have words := Term.isWord_of_isIdentifier identifier
  cases w with
  | nil => cases identifier
  | cons c w =>
    rw [Term.isIdentifier, Bool.and_eq_true] at identifier
    rw [List.forall_mem_cons] at words
    have left := dropWhile_append_of_stops words.2 (ends.stops (by decide))
    simp only [List.cons_append] at taken ⊢
    have read : name? (.char '#' :: c :: (w ++ rest)) = some (.char '#' :: c :: w, rest) := by
      simp [name?, identifier.1, left, afterMembers_of_ends _ ends, taken]
    rw [next?_of_hash, read]
    rfl

end Lexeme

theorem Token.scans_hash {rest : Text} (stop : Stops isNameStart rest) : Token.Scans [.char '#'] [] rest :=
  Token.scans_of_next? (List.cons_ne_nil _ _) (Lexeme.next?_hash stop)

theorem Token.scan_of_scans {u : Text} {shapes : List (TokenKind × Text)} (h : Token.Scans u shapes []) :
    ∃ tokens, Token.scan u = .ok tokens ∧ tokens.map Token.shape = shapes := by
  obtain ⟨tokens, scanned, same⟩ := h 0 [] rfl
  rw [List.append_nil, List.append_nil] at scanned
  exact ⟨tokens, scanned, same⟩

/-! ## The text of a value -/

/-- What stands before a value: nothing, or the `#` of a local name. -/
def hashText (isLocal : Bool) : Text := if isLocal then "#".toText else []

namespace Slot

variable {o : Slot Operand}

/-- The replacement of words leaves the text of a value alone. -/
theorem symbolize_source (written : o.IsSource) (isLocal : Bool) :
    Vocabulary.symbolize (hashText isLocal ++ o.text Operand.text) =
      hashText isLocal ++ o.text Operand.text := by
  have plain : Unquoted (hashText isLocal) := by
    rw [Unquoted]
    cases isLocal <;> decide
  have code (o : Operand)
      (kept : Vocabulary.symbolizeCode (hashText isLocal ++ o.text) = hashText isLocal ++ o.text) :
      Vocabulary.symbolize (hashText isLocal ++ o.text) = hashText isLocal ++ o.text := by
    rw [Vocabulary.symbolize_code (plain.append o.isQuotable_text), kept]
  rcases o with q | ⟨negative, n | b | c⟩ | n
  · have kept : Vocabulary.symbolizeCode (hashText isLocal) = hashText isLocal := by
      cases isLocal <;> decide
    have made := Vocabulary.symbolize_string plain written []
    rwa [List.append_nil, kept, show Vocabulary.symbolize [] = [] from rfl, List.append_nil] at made
  · have steady : Item.IsSteady (hashText isLocal ++ (Operand.signed negative (.number n)).text) := by
      have hash : ∀ c ∈ hashText isLocal, looseLetter c ∉ "axonmtf<=".toText := by
        cases isLocal <;> decide
      refine Item.isSteady_of_letters fun c mem => ?_
      rcases List.mem_append.mp mem with sign | digit
      · exact hash c sign
      · have := forall_decimalChar (P := fun c => !"axonmtf<=".toText.contains (looseLetter c))
          (by decide) (by decide) (Operand.isDecimalChar_number negative n c digit)
        simpa using this
    exact code (.signed negative (.number n))
      (Item.symbolizeCode_of_fixed fun p => Item.replaceAll_of_isSteady steady)
  · cases written
  · refine code (.signed negative (.constant c)) ?_
    cases isLocal <;> cases negative <;> cases c <;> decide
  · cases written

theorem derives_source (written : o.IsSource) {tokens : List Token}
    (shapes : tokens.map Token.shape = o.shapes) :
    Grammar.Derives .unary tokens o.expr := by
  have signed (negative : Bool) (core : Core)
      (inner : ∀ token : Token, token.shape = core.shape →
        Grammar.Derives .primary [token] (.literal core.value))
      (shapes : tokens.map Token.shape = (Operand.signed negative core).shapes) :
      Grammar.Derives .unary tokens (Operand.signed negative core).expr := by
    cases negative with
    | false =>
      obtain ⟨token, rfl, shape⟩ := List.map_eq_singleton_iff.mp shapes
      exact .primary (inner token shape)
    | true =>
      obtain ⟨sign, tokens, rfl, mark, shapes⟩ := List.map_eq_cons_iff.mp shapes
      obtain ⟨token, rfl, shape⟩ := List.map_eq_singleton_iff.mp shapes
      exact .minus mark (.primary (inner token shape))
  rcases o with q | ⟨negative, n | b | c⟩ | n
  · obtain ⟨token, rfl, shape⟩ := List.map_eq_singleton_iff.mp shapes
    exact .primary (Grammar.derives_string shape)
  · exact signed negative _ (fun token shape => Grammar.derives_number n shape) shapes
  · cases written
  · exact signed negative _ (fun token shape => Grammar.derives_word c shape) shapes
  · cases written

theorem parse_local_constant (c : Constant) : Expr.parse (.char '#' :: c.text) = .ok (.literal c.value) := by
  have whole : Token.Scans (.char '#' :: c.text) [(.name, .char '#' :: c.text)] [] :=
    Token.scans_of_next? (List.cons_ne_nil _ _) (Lexeme.next?_local (isIdentifier_constant c) stops_nil)
  obtain ⟨tokens, scanned, shapes⟩ := Token.scan_of_scans whole
  obtain ⟨token, rfl, shape⟩ := List.map_eq_singleton_iff.mp shapes
  have text : token.text = .char '#' :: c.text := congrArg Prod.snd shape
  have name : Grammar.nameOf token = c.text := by
    rw [Grammar.nameOf, text]
    cases c <;> rfl
  have derived := Grammar.derives_constant c (congrArg Prod.fst shape) name
  exact Grammar.parse_of_derives scanned (derived.loosen (j := 0) (k := 7) (by decide))

/-- The text of a value is parsed as an expression of that value. -/
theorem parse_source (written : o.IsSource) (isLocal : Bool) :
    Expr.parse (hashText isLocal ++ o.text Operand.text) = .ok o.expr := by
  have same : o.text Operand.text = o.text Operand.symbol := by
    rcases o with q | ⟨negative, n | b | c⟩ | n
    · rfl
    · rfl
    · cases written
    · rfl
    · cases written
  have scans : Token.Scans (o.text Operand.symbol) o.shapes [] := o.scans written.isValid stops_nil
  -- the hash is left out unless a name follows it
  have alone (apart : isLocal = true → Stops isNameStart (o.text Operand.symbol ++ [])) :
      Expr.parse (hashText isLocal ++ o.text Operand.text) = .ok o.expr := by
    have whole : Token.Scans (hashText isLocal ++ o.text Operand.symbol) o.shapes [] := by
      cases isLocal with
      | false => exact scans
      | true => exact (Token.scans_hash (apart rfl)).append scans
    obtain ⟨tokens, scanned, shapes⟩ := Token.scan_of_scans whole
    rw [same]
    exact Grammar.parse_of_derives scanned
      ((derives_source written shapes).loosen (j := 0) (k := 6) (by decide))
  rcases o with q | ⟨negative, n | b | c⟩ | n
  · refine alone fun _ => ?_
    obtain ⟨c, more, rfl, quote⟩ := Lexeme.exists_quote written
    refine stops_cons.mpr ?_
    rcases quote with rfl | rfl <;> decide
  · refine alone fun _ => ?_
    obtain ⟨c, more, digits, digit⟩ := n.first
    cases negative with
    | false =>
      show Stops isNameStart (n.text ++ [])
      rw [digits]
      exact stops_cons.mpr (isNameStart_of_isDigit digit)
    | true => exact stops_cons.mpr (by decide)
  · cases written
  · cases negative with
    | true => exact alone fun _ => stops_cons.mpr (by decide)
    | false =>
      cases isLocal with
      | false => exact alone fun h => nomatch h
      | true => exact parse_local_constant c
  · cases written

end Slot

/-! ## Names in the text of a value -/

namespace Substitution

variable {names : List Text} {f : Text → Except Fault Text}

theorem nameAt?_whole {w back : Text} (letters : ∀ c ∈ w, isWord c = true)
    (before : allowsNameAfter back = true) : nameAt? names back w = if w ∈ names then some w else none := by
  -- a name that ends inside of the word is followed by a character of the word
  have whole {n : Text} (found : nameAt? names back w = some n) : n = w := by
    obtain ⟨-, after, same, behind⟩ := exists_of_nameAt? found
    cases after with
    | nil => rw [same, List.append_nil]
    | cons c after =>
      have word := letters c (by rw [same]; simp)
      simp [allowsNameBefore, word] at behind
  by_cases mem : w ∈ names
  · rw [if_pos mem]
    have present : nameAt? names back (w ++ []) ≠ none := nameAt?_ne_none mem before rfl
    rw [List.append_nil] at present
    obtain ⟨n, found⟩ := Option.ne_none_iff_exists'.mp present
    rw [found, whole found]
  · rw [if_neg mem, Option.eq_none_iff_forall_ne_some]
    intro n found
    have among := (exists_of_nameAt? found).1
    exact mem (whole found ▸ among)

theorem replaceNames_whole {w back : Text} (ne : w ≠ []) (letters : ∀ c ∈ w, isWord c = true)
    (before : allowsNameAfter back = true) :
    replaceNames names f 0 back w = if w ∈ names then f w else .ok w := by
  have here : nameAt? names back w = _ := nameAt?_whole letters before
  -- behind the word no name may start
  have done : replaceNames names f 0 (w.reverse ++ back) [] = .ok [] := by
    obtain ⟨c, more, last⟩ := List.exists_cons_of_ne_nil (List.reverse_ne_nil_iff.mpr ne)
    have word : isWord c = true := letters c (List.mem_reverse.mp (by rw [last]; simp))
    rw [last, List.cons_append, replaceNames, nameAt?_of_isWord word]
  by_cases mem : w ∈ names
  · rw [if_pos mem] at here ⊢
    obtain ⟨c, rest, rfl⟩ := List.exists_cons_of_ne_nil ne
    have skipped := replaceNames_skip names f (c :: back) rest []
    rw [List.append_nil] at skipped
    rw [List.reverse_cons, List.append_assoc, List.singleton_append] at done
    rw [replaceNames, here]
    simp only [skipped, done]
    cases f (c :: rest) <;> simp [pure, Except.pure, bind, Except.bind]
  · rw [if_neg mem] at here ⊢
    have kept := @replaceNames_of_none names f back [] w [] (fun x y same some => ?_) done
    · rwa [List.append_nil] at kept
    · rw [List.append_nil]
      cases x using List.reverseRecOn with
      | nil =>
        subst same
        exact here
      | append_singleton x c =>
        rw [List.reverse_append, List.reverse_singleton, List.cons_append]
        exact nameAt?_of_isWord (letters c (by rw [same]; simp))

/-- The mark of an exponent is the only letter in a number, and no name may start behind what it
stands behind. -/
theorem replaceNames_number (fine : ∀ n ∈ names, Term.isIdentifier n = true) (negative : Bool)
    (n : NumberText) :
    replaceNames names f 0 [] (Operand.signed negative (.number n)).text
      = .ok (Operand.signed negative (.number n)).text := by
  have chars := Operand.isDecimalChar_number negative n
  have tight : Decimal.MarksExponent (Operand.signed negative (.number n)).text := by
    cases negative with
    | false => exact n.tight
    | true =>
      refine List.isChain_cons.mpr ⟨fun d head letter => ?_, n.tight⟩
      obtain ⟨c, more, digits, digit⟩ := n.first
      rw [show Core.text (.number n) = n.text from rfl, digits] at head
      cases head
      exact absurd (letter ▸ digit) (by decide)
  have first : ∀ c ∈ (Operand.signed negative (.number n)).text.head?, c ≠ .char 'e' := by
    rintro c head rfl
    cases negative with
    | false =>
      obtain ⟨c, more, digits, digit⟩ := n.first
      rw [show (Operand.signed false (.number n)).text = n.text from rfl, digits] at head
      cases head
      exact absurd digit (by decide)
    | true => cases head
  generalize (Operand.signed negative (.number n)).text = u at chars tight first
  have kept := @replaceNames_of_none names f [] [] u [] ?_ (replaceNames_nil fine _)
  · rwa [List.append_nil] at kept
  intro x y whole ne
  rw [List.append_nil, List.append_nil]
  obtain ⟨c, y, rfl⟩ := List.exists_cons_of_ne_nil ne
  by_cases letter : c = .char 'e'
  · subst letter
    cases x using List.reverseRecOn with
    | nil => exact absurd rfl (first _ (by rw [whole]; rfl))
    | append_singleton x d =>
      subst whole
      have before := (List.isChain_append.mp tight).2.2 d (by simp) (.char 'e') rfl rfl
      rw [Decimal.isMantissaChar, Bool.or_eq_true, beq_iff_eq] at before
      have closed : allowsNameAfter (x ++ [d]).reverse = false := by
        rcases before with digit | rfl
        · have word := forall_digit (P := isWord) (by decide) digit
          simp [allowsNameAfter, word]
        · simp [allowsNameAfter]
      rw [nameAt?, closed]
      rfl
  · refine nameAt?_of_stops fine (stops_cons.mpr ?_)
    have plain := forall_decimalChar (P := fun c => !isNameStart c || c == .char 'e') (by decide) (by decide)
      (chars c (by rw [whole]; simp))
    simpa [letter] using plain

/-- The text of a value in code has no bound name in it, if the words for values are none. -/
theorem replaceNames_source (fine : ∀ n ∈ names, Term.isIdentifier n = true)
    (apart : ∀ c : Constant, c.text ∉ names)
    {o : Operand} (written : (Slot.code o).IsSource) : replaceNames names f 0 [] o.text = .ok o.text := by
  rcases o with ⟨negative, n | b | c⟩ | n
  · exact replaceNames_number fine negative n
  · cases written
  · have word (back : Text) (before : allowsNameAfter back = true) :
        replaceNames names f 0 back c.text = .ok c.text := by
      rw [replaceNames_whole (Term.ne_nil_of_isIdentifier (isIdentifier_constant c))
        (Term.isWord_of_isIdentifier (isIdentifier_constant c)) before, if_neg (apart c)]
    cases negative with
    | false => exact word [] rfl
    | true =>
      show replaceNames names f 0 [] (.char '-' :: c.text) = _
      rw [replaceNames_cons fine (by decide), word _ rfl]
      rfl
  · cases written

end Substitution

/-! ## Bound names -/

namespace Environment

variable {env : Environment} {name s t : Text}

/-- Whether the bound names are identifiers and none of the words for values. -/
def PlainlyNamed (env : Environment) : Prop :=
  ∀ n ∈ env.names, Term.isIdentifier n = true ∧ ∀ c : Constant, n ≠ c.text

theorem PlainlyNamed.identifiers (named : env.PlainlyNamed) : ∀ n ∈ env.names, Term.isIdentifier n = true :=
  fun n mem => (named n mem).1

theorem PlainlyNamed.apart (named : env.PlainlyNamed) (c : Constant) : c.text ∉ env.names :=
  fun mem => (named _ mem).2 c rfl

theorem unquoted_of_isIdentifier (h : Term.isIdentifier t = true) : Unquoted t :=
  fun c mem => Term.isQuotable_of_isWord (Term.isWord_of_isIdentifier h c mem)

/-- A bound name gives way to the text of its value, and a `#` before it stays. -/
theorem substitute_name (fine : ∀ n ∈ env.names, Term.isIdentifier n = true) (mem : name ∈ env.names)
    (source : env.source name = .ok s) (isLocal : Bool) :
    env.substitute (hashText isLocal ++ name) = .ok (hashText isLocal ++ s) := by
  have identifier := fine name mem
  have word (back : Text) (before : Substitution.allowsNameAfter back = true) :
      Substitution.replaceNames env.names env.source 0 back name = .ok s := by
    rw [Substitution.replaceNames_whole (Term.ne_nil_of_isIdentifier identifier)
      (Term.isWord_of_isIdentifier identifier) before, if_pos mem, source]
  have plain : Unquoted (hashText isLocal ++ name) := by
    refine Unquoted.append ?_ (unquoted_of_isIdentifier identifier)
    rw [Unquoted]
    cases isLocal <;> decide
  rw [substitute_of_unquoted env plain]
  cases isLocal with
  | false => exact word [] rfl
  | true =>
    show Substitution.replaceNames env.names env.source 0 [] (.char '#' :: name) = _
    rw [Substitution.replaceNames_cons fine (by decide), word _ rfl]
    rfl

/-- A name in double quotes gives way to the text of its value. -/
theorem replaceAllM_quoted (identifier : Term.isIdentifier name = true) (source : env.source name = .ok s) :
    Substitution.replaceAllM quotedName env.source (.char '"' :: name ++ [.char '"']) = .ok s := by
  have plain : .char '"' ∉ name :=
    fun mem => absurd (Term.isWord_of_isIdentifier identifier _ mem) (by decide)
  have found : quotedName [] (.char '"' :: name ++ [.char '"']) = some (name, []) :=
    quotedName_quoted (Term.ne_nil_of_isIdentifier identifier) plain [] []
  have pieces := Text.cutFrom_whole (by simp) found
  rw [Substitution.replaceAllM, Text.cut, pieces]
  simp [source, pure, Except.pure]

theorem evaluate_of_substitute {e : Expr} {v : Value} (made : env.substitute t = .ok s)
    (kept : Vocabulary.symbolize s = s) (parsed : Expr.parse s = .ok e) (value : e.eval env = .ok v) :
    env.evaluate t = v := by
  simp only [evaluate, trace, made, kept, parsed, ok_bind, value, Trace.value]

/-- Names are looked for once more in the text of a value that stands for a name in double quotes. -/
theorem evaluate_quoted (named : env.PlainlyNamed) (mem : name ∈ env.names) {o : Slot Operand} {v : Value}
    (written : o.IsSource) (source : env.source name = .ok (o.text Operand.text))
    (value : o.expr.eval env = .ok v) :
    env.evaluate (.char '"' :: name ++ [.char '"']) = v := by
  have replaced := replaceAllM_quoted (named.identifiers name mem) source
  cases o with
  | literal q =>
    have unnamed : [] ∉ env.names := fun empty => by cases named.identifiers [] empty
    rw [evaluate_string written unnamed replaced]
    cases value
    rfl
  | code o =>
    have plain := o.isQuotable_text
    have quoteless : Substitution.replaceAllM quotedName env.source o.text = .ok o.text := by
      refine Substitution.replaceAllM_of_none _ fun x y whole _ =>
        Substitution.quotedName_of_not_mem fun among => ?_
      exact absurd (plain _ (whole ▸ List.mem_append_right x among)) (by decide)
    have again : env.substitute (.char '"' :: name ++ [.char '"']) = env.substitute o.text := by
      rw [substitute, substitute, replaced, quoteless]
      rfl
    rw [substitute_of_unquoted env plain,
      Substitution.replaceNames_source named.identifiers named.apart written] at again
    exact evaluate_of_substitute again (Slot.symbolize_source written false)
      (Slot.parse_source written false) value

end Environment

/-- **Values read back.** The text of a value has no word or sign that is replaced, and is an
expression of that value; and a name that is bound to the value has it, plainly written, behind a
`#` or in double quotes, if the bound names are identifiers and none of the words for values. -/
theorem Value.read_back (v : Value) (writable : v.isWritable = true) :
    ∃ s e, v.source = .ok s ∧ Vocabulary.symbolize s = s ∧ Expr.parse s = .ok e ∧
      ∀ env : Environment, e.eval env = .ok v ∧
        (env.PlainlyNamed → ∀ name ∈ env.names, (env.lookup name).map Binding.value = some v →
          env.evaluate name = v ∧ env.evaluate (.char '#' :: name) = v ∧
            env.evaluate (.char '"' :: name ++ [.char '"']) = v) := by
  obtain ⟨o, written, source, value⟩ := exists_operand_of_value writable
  have kept := Slot.symbolize_source written
  have parsed := Slot.parse_source written
  refine ⟨_, _, source, kept false, parsed false, fun env => ⟨value env, fun named name mem bound => ?_⟩⟩
  have stands : env.source name = .ok (o.text Operand.text) := by
    obtain ⟨b, found, rfl⟩ := Option.map_eq_some_iff.mp bound
    rw [Environment.source, found]
    exact source
  have plain (isLocal : Bool) : env.evaluate (hashText isLocal ++ name) = v :=
    Environment.evaluate_of_substitute (Environment.substitute_name named.identifiers mem stands isLocal)
      (kept isLocal) (parsed isLocal) (value env)
  exact ⟨plain false, plain true, Environment.evaluate_quoted named mem written stands (value env)⟩

/-- A text with quotes and words in it, bound to a name that is an operator. -/
theorem Value.read_back_operator_name :
    let v : Value := .text "a\\ OR \"b\" 'c'".toText
    let env : Environment := ⟨[("and".toText, ⟨"AND".toText, v, "STRING".toText, .computed⟩)]⟩
    v.isWritable = true ∧ env.PlainlyNamed ∧ "AND".toText ∈ env.names ∧
      (env.lookup "AND".toText).map Binding.value = some v ∧ env.evaluate "AND".toText = v ∧
      env.evaluate "#AND".toText = v ∧ env.evaluate "\"AND\"".toText = v := by
  intro v env
  have names : env.names = ["AND".toText] := List.mergeSort_singleton _
  have named : env.PlainlyNamed := by
    intro n mem
    rw [names, List.mem_singleton] at mem
    subst mem
    refine ⟨by decide, fun c => ?_⟩
    cases c <;> decide
  have mem : "AND".toText ∈ env.names := by
    rw [names]
    exact List.mem_singleton_self _
  have bound : (env.lookup "AND".toText).map Binding.value = some v := by decide
  obtain ⟨s, e, -, -, -, reads⟩ := Value.read_back v rfl
  exact ⟨rfl, named, mem, bound, (reads env).2 named "AND".toText mem bound⟩

end SclNarrator
