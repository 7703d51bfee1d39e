import SclNarrator.Proofs.Program.Silence
import SclNarrator.Proofs.Source.Views
import SclNarrator.Proofs.Text.Words

/-!
The identifiers of an expression are its variables. An expression is a tree of literals, variables,
operations and calls (`Formula`), and its text is its words with a space between them.

What is proved:
  1. no word holds a double quote or an arrow, and a literal is emptied in its place, so that bare
     words are looked for in each word on its own (`findAll_append`);
  2. no literal has one, the names of functions and operators are keywords, and what is left are the
     variables as they are written, each spelling once (`Formula.identifiers_text`).

Correspondence (analyzer ↔ here):
  `find_identifiers`, `is_keyword` ↔ `Source.identifiers`, `isKeyword`
-/

namespace SclNarrator

/-! ## Expressions as words -/

namespace Formula

/-- Whether a text is a numeral: a digit, then digits and `_`. -/
def isNumeral : Text → Bool
  | [] => false
  | c :: rest => c.isDigit && rest.all fun d => d.isDigit || d == '_'

/-- A literal: an integer, perhaps with a minus, a numeral with a base such as `16#FF`, a duration
such as `T#5s`, or a text between apostrophes. -/
inductive Literal where
  | integer (negative : Bool) (digits : Text) (valid : isNumeral digits = true)
  | based (t : Text) (whole : Lexeme.based? t = some (t, []))
  | duration (t : Text) (whole : Lexeme.duration? t = some (t, []))
  | quoted (t : Term.Quotable)

/-- The name of a variable: a plain identifier that is no keyword. -/
structure Variable where
  text : Text
  valid : Program.isIdentifier text = true
  free : isKeyword text = false

/-- Whether a name in capitals is that of a function: a standard one, or a conversion such as
`INT_TO_REAL`. -/
inductive IsFunction : Text → Prop where
  | standard {name : Text} (known : (StandardFunction.ofName? name).isSome = true) : IsFunction name
  | conversion {source target : Text} (given : source ≠ [] ∧ ∀ c ∈ source, c.isUpper = true)
      (wanted : target ≠ [] ∧ ∀ c ∈ target, c.isUpper = true) : IsFunction (source ++ "_TO_".toText ++ target)

/-- The name of a function, in any letter case. -/
structure Function where
  text : Text
  valid : Term.isIdentifier text = true
  known : IsFunction text.upper

def operators : List Text :=
  ["+", "-", "*", "/", "**", "MOD", "AND", "&", "OR", "XOR", "NOT", "=", "<>", "<", "<=", ">",
    ">="].map String.toText

structure Operator where
  text : Text
  known : text ∈ operators

/-- What stands between parts of an expression. -/
inductive Mark where
  | opening | closing | comma

inductive Word where
  | literal (l : Literal)
  | variable (name : Variable)
  | function (name : Function)
  | operator (op : Operator)
  | mark (m : Mark)

end Formula

inductive Formula where
  | literal (l : Formula.Literal)
  | variable (name : Formula.Variable)
  | unary (op : Formula.Operator) (operand : Formula)
  | binary (op : Formula.Operator) (left right : Formula)
  | group (inner : Formula)
  | call (function : Formula.Function) (args : List Formula)

namespace Formula

def Literal.text : Literal → Text
  | .integer negative digits _ => (if negative then "-" else "").toText ++ digits
  | .based t _ | .duration t _ => t
  | .quoted t => .char '\'' :: (t.text ++ [.char '\''])

def Mark.text : Mark → Text
  | .opening => "(".toText
  | .closing => ")".toText
  | .comma => ",".toText

def Word.text : Word → Text
  | .literal l => l.text
  | .variable name => name.text
  | .function name => name.text
  | .operator op => op.text
  | .mark m => m.text

mutual

def words : Formula → List Word
  | .literal l => [.literal l]
  | .variable name => [.variable name]
  | .unary op operand => .operator op :: operand.words
  | .binary op left right => left.words ++ .operator op :: right.words
  | .group inner => .mark .opening :: inner.words ++ [.mark .closing]
  | .call function args => [.function function, .mark .opening] ++ argWords args ++ [.mark .closing]

/-- The words of arguments, with a comma between any two of them. -/
def argWords : List Formula → List Word
  | [] => []
  | [arg] => arg.words
  | arg :: next :: args => arg.words ++ .mark .comma :: argWords (next :: args)

end

/-- The text of an expression: its words with a space between them. -/
def text (e : Formula) : Text := Text.join " ".toText (e.words.map Word.text)

mutual

/-- The names of the variables of an expression, as often as they occur and from left to right. -/
def variableNames : Formula → List Text
  | .literal _ => []
  | .variable name => [name.text]
  | .unary _ operand => operand.variableNames
  | .binary _ left right => left.variableNames ++ right.variableNames
  | .group inner => inner.variableNames
  | .call _ args => argNames args

def argNames : List Formula → List Text
  | [] => []
  | arg :: args => arg.variableNames ++ argNames args

end

/-- The variables among the words of an expression: one if the word is its name. -/
def Word.names : Word → List Text
  | .variable name => [name.text]
  | _ => []

mutual

theorem names_words : ∀ e : Formula, e.words.flatMap Word.names = e.variableNames
  | .literal _ => rfl
  | .variable _ => rfl
  | .unary op operand => names_words operand
  | .binary op left right => by
    rw [words, List.flatMap_append, names_words left, List.flatMap_cons, names_words right]
    rfl
  | .group inner => by
    rw [words, List.flatMap_append, List.flatMap_cons, names_words inner]
    exact List.append_nil _
  | .call function args => by
    rw [words, List.flatMap_append, List.flatMap_append, names_argWords args]
    exact List.append_nil _

theorem names_argWords : ∀ args : List Formula, (argWords args).flatMap Word.names = argNames args
  | [] => rfl
  | [arg] => by
    rw [argWords, names_words arg]
    exact (List.append_nil _).symm
  | arg :: next :: args => by
    rw [argWords, List.flatMap_append, names_words arg, List.flatMap_cons, names_argWords (next :: args)]
    rfl

end

end Formula

namespace Source

/-! ## Bare words -/

/-- Whether a character is in a word or is a point. No bare word starts behind one. -/
def continues (c : CodePoint) : Bool := isWord c || c == '.'

theorem continues_of_isWord {c : CodePoint} (h : isWord c = true) : continues c = true := by
  rw [continues, h, Bool.true_or]

theorem bareWord_of_continues {c : CodePoint} (h : continues c = true) (back t : Text) :
    bareWord (c :: back) t = none := by
  rw [continues, Bool.or_eq_true, beq_iff_eq] at h
  refine if_pos ?_
  rcases h with word | rfl
  · simp [wordAhead, word]
  · simp

theorem bareWord_of_stops {t : Text} (h : Stops isNameStart t) (back : Text) : bareWord back t = none := by
  have noIdentifier : identifier? t = none := by
    cases t with
    | nil => rfl
    | cons c t => simp [identifier?, stops_cons.mp h]
  rw [bareWord, noIdentifier]
  split <;> rfl

/-- A word is a bare word as a whole, if it is a plain identifier and no `#` follows. -/
theorem bareWord_word {w after : Text} (letters : ∀ c ∈ w, isWord c = true) (stop : Stops isWord after) :
    bareWord [] (w ++ after) =
      if Program.isIdentifier w = true ∧ after.head? ≠ some '#' then some (w, after) else none := by
  have outside : Stops isNameChar after := fun c mem => by
    cases char : isNameChar c with
    | false => rfl
    | true =>
      rw [← stop c mem, isWord_of_isNameChar char]
  cases w with
  | nil =>
    rw [if_neg (by simp [Program.isIdentifier])]
    refine bareWord_of_stops (fun c mem => ?_) []
    cases start : isNameStart c with
    | false => rfl
    | true => rw [← outside c mem, isNameChar_of_isNameStart start]
  | cons c w =>
    by_cases start : isNameStart c = true
    · have read : identifier? (c :: w ++ after) =
          some (c :: w.takeWhile isNameChar, w.dropWhile isNameChar ++ after) := by
        rw [List.cons_append, identifier?, if_pos start, takeWhile_append_stops w outside,
          dropWhile_append_stops w outside]
      have whole := List.takeWhile_append_dropWhile (p := isNameChar) (l := w)
      rw [show bareWord [] (c :: w ++ after) = _ from if_neg (by decide), read]
      cases tail : w.dropWhile isNameChar with
      | nil =>
        rw [tail, List.append_nil] at whole
        have identifier : Program.isIdentifier (c :: w) = true := by
          rw [Program.isIdentifier, start, Bool.true_and, ← whole, List.all_eq_true]
          exact fun d => List.mem_takeWhile_imp
        have ahead : wordAhead after = false := any_head_eq_false.mpr stop
        simp only [whole, List.nil_append, ahead, identifier, Bool.false_or, decide_eq_true_eq,
          true_and, ite_not]
      | cons d rest =>
        have among : d ∈ w := by
          rw [← whole, tail]
          simp
        have ahead : wordAhead (d :: (rest ++ after)) = true := letters d (List.mem_cons_of_mem c among)
        have other : isNameChar d = false := stops_cons.mp (tail ▸ stops_dropWhile isNameChar w)
        have noIdentifier : Program.isIdentifier (c :: w) = false := by
          rw [Program.isIdentifier, start, Bool.true_and, List.all_eq_false]
          exact ⟨d, among, by simp [other]⟩
        simp [ahead, noIdentifier]
    · rw [if_neg (by simp [Program.isIdentifier, start])]
      exact bareWord_of_stops (stops_cons.mpr (by simpa using start)) []

/-- There is no bare word in a stretch behind a word character or a point that has only such characters. -/
theorem misses_of_continues {c : CodePoint} {u : Text} (first : continues c = true)
    (later : ∀ d ∈ u, continues d = true) (back after : Text) : Text.Misses bareWord (c :: back) u after := by
  induction u generalizing c back with
  | nil => trivial
  | cons d u ih =>
    rw [List.forall_mem_cons] at later
    exact ⟨bareWord_of_continues first back _, ih later.1 later.2 (c :: back)⟩

theorem misses_of_stops {u : Text} (h : ∀ d ∈ u, isNameStart d = false) (back after : Text) :
    Text.Misses bareWord back u after := by
  induction u generalizing back with
  | nil => trivial
  | cons d u ih =>
    rw [List.forall_mem_cons] at h
    exact ⟨bareWord_of_stops (stops_cons.mpr h.1) back, ih h.2 (d :: back)⟩

theorem findAll_word {w : Text} (letters : ∀ c ∈ w, isWord c = true) :
    Text.findAll bareWord w = if Program.isIdentifier w = true then [w] else [] := by
  have here := bareWord_word letters stops_nil
  rw [List.append_nil] at here
  split
  · next identifier =>
    rw [if_pos ⟨identifier, by simp⟩] at here
    have ne : w ≠ [] := by
      rintro rfl
      cases identifier
    have pieces := Text.cutFrom_found (b := []) ne (by rw [List.append_nil]; exact here)
    rw [List.append_nil] at pieces
    rw [Text.findAll, Text.cut, pieces]
    rfl
  · next other =>
    rw [if_neg fun both => other both.1] at here
    cases w with
    | nil => rfl
    | cons c w =>
      rw [List.forall_mem_cons] at letters
      refine Text.findAll_of_misses
        ⟨by rw [List.append_nil]; exact here, misses_of_continues ?_ (fun d mem => ?_) [] []⟩
      · exact continues_of_isWord letters.1
      · exact continues_of_isWord (letters.2 d mem)

/-! ## Words with spaces between them -/

theorem bounded_bareWord : Text.Bounded bareWord (.char ' ') := by
  intro x y b ne
  have read : identifier? (y ++ .char ' ' :: b) =
      (identifier? y).map fun found => (found.1, found.2 ++ .char ' ' :: b) := by
    obtain ⟨c, y, rfl⟩ := List.exists_cons_of_ne_nil ne
    have stop : Stops isNameChar (.char ' ' :: b) := stops_cons.mpr (by decide)
    rw [List.cons_append, identifier?, identifier?, takeWhile_append_stops y stop,
      dropWhile_append_stops y stop]
    split <;> rfl
  have goesOn (rest : Text) :
      (wordAhead (rest ++ .char ' ' :: b) || (rest ++ .char ' ' :: b).head? = some '#') =
      (wordAhead rest || rest.head? = some '#') := by
    cases rest <;> rfl
  rw [bareWord, bareWord, read]
  split
  · rfl
  · cases identifier? y with
    | none => rfl
    | some found =>
      simp only [Option.map_some, goesOn]
      split <;> rfl

theorem afterBase_append (x back : Text) : afterBase (x ++ .char ' ' :: back) = afterBase x := by
  cases x with
  | nil => rfl
  | cons c x =>
    by_cases hash : c = .char '#'
    · subst hash
      cases x <;> rfl
    · simp [afterBase, hash]

theorem fresh_bareWord : Text.Fresh bareWord (.char ' ') where
  here back b := by
    have missed (back b : Text) : bareWord back (.char ' ' :: b) = none :=
      bareWord_of_stops (stops_cons.mpr (by decide)) back
    rw [missed, missed]
    rfl
  behind x back y := by
    rw [bareWord, bareWord, afterBase_append]
    cases x <;> rfl

/-- Before and behind a space, bare words are found as if there were nothing on the other side. -/
theorem findAll_append (a b : Text) :
    Text.findAll bareWord (a ++ .char ' ' :: b) = Text.findAll bareWord a ++ Text.findAll bareWord b := by
  rw [Text.findAll, Text.cut_append_cons bounded_bareWord fresh_bareWord, List.filterMap_append,
    List.filterMap_append]
  rfl

/-! ## Arrows -/

theorem hasArrow_eq_false_iff {t : Text} : hasArrow t = false ↔ ∀ arrow ∈ arrows, ¬arrow <:+: t := by
  rw [hasArrow, Bool.or_eq_false_iff, Bool.eq_false_iff, Bool.eq_false_iff, Ne, hasPart_iff, Ne, hasPart_iff]
  simp [arrows]

theorem hasArrow_append {a b : Text} (left : hasArrow a = false) (right : hasArrow b = false) :
    hasArrow (a ++ .char ' ' :: b) = false := by
  rw [hasArrow_eq_false_iff] at left right ⊢
  intro arrow kind inside
  have solid : ∀ arrow ∈ arrows, .char ' ' ∉ arrow := by decide
  exact (infix_of_not_mem (solid arrow kind) inside).elim (left arrow kind) (right arrow kind)

theorem replaceAll_formalParameter {t : Text} (h : hasArrow t = false) :
    Text.replaceAll formalParameter t = t := by
  rw [hasArrow_eq_false_iff] at h
  refine Text.replaceAll_of_none fun x y whole _ => ?_
  cases y with
  | nil => rfl
  | cons c rest =>
    rw [formalParameter]
    split
    · split
      · rfl
      · next name after read =>
        cases found : arrow? (after.dropWhile isBlank) with
        | none => rfl
        | some pair =>
          obtain ⟨same, kind⟩ := arrow?_eq_some found
          have inside : pair.1 <:+: t := by
            calc pair.1 <:+: after.dropWhile isBlank := same ▸ (List.prefix_append _ _).isInfix
              _ <:+: after := (List.dropWhile_suffix _).isInfix
              _ <:+: rest.dropWhile isBlank := by
                rw [(Program.identifier?_eq_some read).1]
                exact (List.suffix_append name after).isInfix
              _ <:+: rest := (List.dropWhile_suffix _).isInfix
              _ <:+: c :: rest := (List.suffix_cons c rest).isInfix
              _ <:+: t := whole ▸ (List.suffix_append x _).isInfix
          exact absurd inside (h _ kind)
    · rfl

end Source

namespace Formula

open Source (Emptied bareWord continues hasArrow)

/-! ## The words of an expression -/

/-- Whether a character is no quote and can be in no arrow. -/
def isPlain (c : CodePoint) : Bool := Term.isQuotable c && c != '=' && c != ':'

theorem isPlain_of_class {p : CodePoint → Bool} {c : CodePoint}
    (h : p '\'' = false ∧ p '"' = false ∧ p '=' = false ∧ p ':' = false) (inside : p c = true) :
    isPlain c = true := by
  have ne {d : CodePoint} (out : p d = false) : c ≠ d := by
    rintro rfl
    rw [inside] at out
    cases out
  simp [isPlain, Term.isQuotable, ne h.1, ne h.2.1, ne h.2.2.1, ne h.2.2.2]

theorem isPlain_of_isWord {w : Text} (letters : ∀ c ∈ w, isWord c = true) : ∀ c ∈ w, isPlain c = true :=
  fun c mem => isPlain_of_class (by decide) (letters c mem)

theorem hasArrow_of_isPlain {t : Text} (plain : ∀ c ∈ t, isPlain c = true) : hasArrow t = false := by
  have sign : ∀ arrow ∈ Source.arrows, ∃ c ∈ arrow, isPlain c = false := by decide
  rw [Source.hasArrow_eq_false_iff]
  intro arrow kind inside
  obtain ⟨c, mem, special⟩ := sign arrow kind
  rw [plain c (inside.subset mem)] at special
  cases special

theorem misses_signed {sign body : Text} {c : CodePoint} (minus : ∀ d ∈ sign, d = .char '-')
    (digit : c.isDigit = true)
    (chars : ∀ d ∈ body, continues d = true) (back : Text) :
    Text.Misses bareWord back (sign ++ c :: body) [] := by
  have word : isWord c = true := forall_digit (by decide) digit
  refine .append (Source.misses_of_stops (fun d mem => ?_) back _) ⟨?_, ?_⟩
  · rw [minus d mem]
    decide
  · exact Source.bareWord_of_stops (stops_cons.mpr (isNameStart_of_isDigit digit)) _
  · exact Source.misses_of_continues (Source.continues_of_isWord word) chars _ _

/-- Whether a text has no quote, no sign of an arrow, and no bare word. -/
structure Dull (t : Text) : Prop where
  plain : ∀ c ∈ t, isPlain c = true
  misses : Text.Misses bareWord [] t []

theorem isWord_of_numeral {p : CodePoint → Bool} {d : CodePoint} (digits : ∀ c, p c = true → isWord c = true)
    (h : (p d || d == '_') = true) : isWord d = true := by
  rcases Bool.or_eq_true_iff.mp h with digit | underscore
  · exact digits d digit
  · rw [beq_iff_eq.mp underscore]
    decide

theorem dull_integer {sign digits : Text} (minus : ∀ d ∈ sign, d = .char '-')
    (numeral : isNumeral digits = true) :
    Dull (sign ++ digits) := by
  cases digits with
  | nil => cases numeral
  | cons c rest =>
    rw [isNumeral, Bool.and_eq_true, List.all_eq_true] at numeral
    obtain ⟨digit, later⟩ := numeral
    have words : ∀ d ∈ rest, isWord d = true :=
      fun d mem => isWord_of_numeral (fun c => forall_digit (by decide)) (later d mem)
    refine ⟨?_, misses_signed minus digit (fun d mem => Source.continues_of_isWord (words d mem)) []⟩
    simp only [List.forall_mem_append, List.forall_mem_cons]
    refine ⟨fun d mem => ?_, isPlain_of_class (by decide) digit, isPlain_of_isWord words⟩
    rw [minus d mem]
    decide

theorem dull_based {t : Text} (whole : Lexeme.based? t = some (t, [])) : Dull t := by
  obtain ⟨base, digits, rfl, -, ne, numeral, chars⟩ := Lexeme.exists_of_based? whole
  have words : ∀ d ∈ digits, isWord d = true :=
    fun d mem => isWord_of_numeral (fun c => isWord_of_isHex) (chars d mem)
  constructor
  · simp only [List.forall_mem_append, List.forall_mem_cons]
    exact ⟨fun d mem => isPlain_of_class (by decide) (numeral d mem), by decide, isPlain_of_isWord words⟩
  · refine .append (Source.misses_of_stops (fun d mem => isNameStart_of_isDigit (numeral d mem))
      [] _) ⟨?_, ?_⟩
    · exact Source.bareWord_of_stops (stops_cons.mpr (by decide)) _
    · cases digits with
      | nil => trivial
      | cons c digits =>
        rw [List.forall_mem_cons] at words
        refine ⟨?_, Source.misses_of_continues (Source.continues_of_isWord words.1)
          (fun d mem => Source.continues_of_isWord (words.2 d mem)) _ _⟩
        -- a digit and `#` stand before the digits of the base
        obtain ⟨d, back, same⟩ := List.exists_cons_of_ne_nil (List.reverse_ne_nil_iff.mpr ne)
        have digit : d.isDigit = true := numeral d (List.mem_reverse.mp (same ▸ List.mem_cons_self))
        rw [same]
        exact if_pos (by simp [Source.afterBase, digit])

theorem dull_duration {t : Text} (whole : Lexeme.duration? t = some (t, [])) : Dull t := by
  obtain ⟨m, sign, c, body, rfl, -, words, minus, digit, chars⟩ := Lexeme.exists_of_duration? whole
  have later : ∀ d ∈ body, continues d = true := fun d mem => by
    have char := chars d mem
    simp only [Lexeme.isDurationChar, continues, isWord, Bool.or_eq_true] at char ⊢
    exact char.imp_left .inl
  constructor
  · simp only [List.forall_mem_append, List.forall_mem_cons]
    refine ⟨isPlain_of_isWord words,
      by decide, fun d mem => ?_, isPlain_of_class (by decide) digit, fun d mem => ?_⟩
    · rw [minus d mem]
      decide
    · exact isPlain_of_class (by decide) (later d mem)
  · refine .append ?_ ⟨Source.bareWord_of_stops (stops_cons.mpr (by decide)) _,
      misses_signed minus digit later _⟩
    cases m with
    | nil => trivial
    | cons d m =>
      have here := Source.bareWord_word words (stops_cons.mpr (by decide) : Stops isWord
        (.char '#' :: (sign ++ c :: body) ++ []))
      rw [if_neg (by simp)] at here
      rw [List.forall_mem_cons] at words
      exact ⟨here, Source.misses_of_continues (Source.continues_of_isWord words.1)
        (fun d mem => Source.continues_of_isWord (words.2 d mem)) _ _⟩

/-- What a text gives, in which some names stand: it has no double quote, its literals can be emptied in their
places, there is no arrow outside of them, and the bare words that are no keywords are the names. -/
structure Gives (t emptied : Text) (names : List Text) : Prop where
  double : .char '"' ∉ t
  empties : ∀ {a b}, Emptied a b → Emptied (t ++ a) (emptied ++ b)
  arrow : hasArrow emptied = false
  named : (Text.findAll bareWord emptied).filter (fun name => !isKeyword name) = names

theorem gives_of_unquoted {t : Text} {names : List Text} (unquoted : ∀ c ∈ t, Term.isQuotable c = true)
    (arrow : hasArrow t = false)
    (named : (Text.findAll bareWord t).filter (fun name => !isKeyword name) = names) :
    Gives t t names := by
  refine ⟨fun mem => absurd (unquoted _ mem) (by decide), fun {u v} later => ?_, arrow, named⟩
  clear arrow named
  induction t with
  | nil => exact later
  | cons c t ih =>
    rw [List.forall_mem_cons] at unquoted
    refine .plain (Program.afterLiteral?_of_head ?_) (ih unquoted.2)
    rintro rfl
    exact absurd unquoted.1 (by decide)

theorem gives_of_isPlain {t : Text} {names : List Text} (plain : ∀ c ∈ t, isPlain c = true)
    (named : (Text.findAll bareWord t).filter (fun name => !isKeyword name) = names) : Gives t t names := by
  refine gives_of_unquoted (fun c mem => ?_) (hasArrow_of_isPlain plain) named
  have := plain c mem
  simp only [isPlain, Bool.and_eq_true] at this
  exact this.1.1

theorem Dull.gives {t : Text} (h : Dull t) : Gives t t [] := by
  refine gives_of_isPlain h.plain ?_
  rw [Text.findAll_of_misses h.misses]
  rfl

theorem gives_quoted (t : Term.Quotable) :
    Gives (.char '\'' :: (t.text ++ [.char '\''])) [.char '\'', .char '\''] [] := by
  have inner := List.all_eq_true.mp t.valid
  refine ⟨?_, fun {u v} later => ?_, by decide, by decide⟩
  · simp only [List.mem_cons, List.mem_append, not_or]
    exact ⟨by decide, fun mem => absurd (inner _ mem) (by decide), by decide, by decide⟩
  · rw [List.cons_append, List.append_assoc, List.singleton_append]
    exact .literal (fun mem => absurd (inner _ mem) (by decide)) later

theorem gives_operator (op : Operator) : Gives op.text op.text [] := by
  have all : ∀ t ∈ operators, (∀ c ∈ t, Term.isQuotable c = true) ∧ hasArrow t = false ∧
      (Text.findAll bareWord t).filter (fun name => !isKeyword name) = [] := by decide +kernel
  obtain ⟨unquoted, arrow, wordless⟩ := all op.text op.known
  exact gives_of_unquoted unquoted arrow wordless

theorem gives_variable (name : Variable) : Gives name.text name.text [name.text] := by
  have letters := Term.isWord_of_isIdentifier (Program.isIdentifier_term name.valid)
  refine gives_of_isPlain (isPlain_of_isWord letters) ?_
  rw [Source.findAll_word letters, if_pos name.valid, List.filter_cons_of_pos (by simp [name.free])]
  rfl

theorem conversionTarget?_append {source target : Text} (given : source ≠ [] ∧ ∀ c ∈ source, c.isUpper = true)
    (wanted : target ≠ [] ∧ ∀ c ∈ target, c.isUpper = true) :
    conversionTarget? (source ++ "_TO_".toText ++ target) = some target := by
  have stop : Stops CodePoint.isUpper ("_TO_".toText ++ target) := stops_cons.mpr (by decide)
  have all := takeWhile_append_of_stops wanted.2 stops_nil
  have nothing := dropWhile_append_of_stops wanted.2 stops_nil
  rw [List.append_nil] at all nothing
  rw [List.append_assoc, conversionTarget?, takeWhile_append_of_stops given.2 stop,
    dropWhile_append_of_stops given.2 stop, dropPart?_append]
  simp [all, nothing, given.1, wanted.1]

theorem IsFunction.isKeyword {name : Text} (h : IsFunction name.upper) : isKeyword name = true := by
  have known : (StandardFunction.ofName? name.upper).isSome = true ∨
      (conversionTarget? name.upper).isSome = true := by
    generalize name.upper = upper at h
    cases h with
    | standard known => exact .inl known
    | conversion given wanted => exact .inr (by rw [conversionTarget?_append given wanted]; rfl)
  rcases known with standard | conversion
  · simp [SclNarrator.isKeyword, standard]
  · simp [SclNarrator.isKeyword, conversion]

theorem gives_function (name : Function) : Gives name.text name.text [] := by
  have letters := Term.isWord_of_isIdentifier name.valid
  refine gives_of_isPlain (isPlain_of_isWord letters) ?_
  rw [Source.findAll_word letters]
  split
  · rw [List.filter_cons_of_neg (by simp [name.known.isKeyword])]
    rfl
  · rfl

theorem Word.gives : ∀ w : Word, ∃ emptied, Gives w.text emptied w.names
  | .literal (.integer negative digits valid) => by
    refine ⟨_, (dull_integer (fun d mem => ?_) valid).gives⟩
    cases negative with
    | false => cases mem
    | true => exact List.mem_singleton.mp mem
  | .literal (.based _ whole) => ⟨_, (dull_based whole).gives⟩
  | .literal (.duration _ whole) => ⟨_, (dull_duration whole).gives⟩
  | .literal (.quoted t) => ⟨_, gives_quoted t⟩
  | .variable name => ⟨_, gives_variable name⟩
  | .function name => ⟨_, gives_function name⟩
  | .operator op => ⟨_, gives_operator op⟩
  | .mark m => by
    refine ⟨_, gives_of_unquoted ?_ ?_ ?_⟩ <;> cases m <;> decide

theorem Gives.append {a a' b b' : Text} {names names' : List Text} (left : Gives a a' names)
    (right : Gives b b' names') : Gives (a ++ .char ' ' :: b) (a' ++ .char ' ' :: b') (names ++ names') where
  double := by
    simp only [List.mem_append, List.mem_cons, not_or]
    exact ⟨left.double, by decide, right.double⟩
  empties later := by
    rw [List.append_assoc, List.append_assoc]
    exact left.empties (.plain (Program.afterLiteral?_of_head (by decide)) (right.empties later))
  arrow := Source.hasArrow_append left.arrow right.arrow
  named := by rw [Source.findAll_append, List.filter_append, left.named, right.named]

theorem gives_join (words : List Word) :
    ∃ emptied, Gives (Text.join " ".toText (words.map Word.text)) emptied (words.flatMap Word.names) := by
  induction words with
  | nil => exact ⟨[], gives_of_unquoted (fun c mem => absurd mem List.not_mem_nil) rfl rfl⟩
  | cons w words ih =>
    obtain ⟨first, here⟩ := w.gives
    obtain ⟨rest, later⟩ := ih
    cases words with
    | nil =>
      refine ⟨first, ?_⟩
      rw [List.flatMap_cons, List.flatMap_nil, List.append_nil]
      exact here
    | cons v words =>
      have joined : Text.join " ".toText ((w :: v :: words).map Word.text) =
          w.text ++ .char ' ' :: Text.join " ".toText ((v :: words).map Word.text) := List.append_assoc ..
      rw [joined, List.flatMap_cons]
      exact ⟨_, here.append later⟩

theorem Gives.identifiers {t emptied : Text} {names : List Text} (h : Gives t emptied names) :
    Source.identifiers t = names.eraseDups := by
  have noQuoted (x y : Text) (whole : t = x ++ y) : quotedName x.reverse y = none :=
    Substitution.quotedName_of_not_mem fun mem => h.double (whole ▸ List.mem_append_right x mem)
  have noNames : Text.findAll quotedName t = [] :=
    Text.findAll_of_misses (Text.misses_of_ends fun x y whole _ => by
      rw [List.append_nil, List.append_nil, noQuoted x y whole])
  have bare : Source.bareText t = emptied := by
    have unspaced : Text.replaceAll Source.quotedToSpace t = t :=
      Text.replaceAll_of_none fun x y whole _ => by rw [Source.quotedToSpace, noQuoted x y whole]; rfl
    have empties := h.empties .done
    rw [List.append_nil, List.append_nil] at empties
    rw [Source.bareText, unspaced, empties.replaceAll_eq, Source.replaceAll_formalParameter h.arrow]
  rw [Source.identifiers, Source.candidates, noNames, bare, List.nil_append, h.named,
    Source.firstOccurrences_eq]
  simp

end Formula

/-- **The identifiers of an expression are its variables**, each spelling once, in the order in
which they occur first. -/
theorem Formula.identifiers_text (e : Formula) : Source.identifiers e.text = e.variableNames.eraseDups := by
  obtain ⟨emptied, gives⟩ := gives_join e.words
  rw [text, gives.identifiers, names_words]

/-- Neither the words of literals nor the function are variables. -/
example :
    let level : Formula := .variable ⟨"Level".toText, by decide, by decide +kernel⟩
    let shift : Formula :=
      .binary ⟨"+".toText, by decide⟩ level (.literal (.duration "T#1h_2.5s".toText (by decide)))
    let mask : Formula := .literal (.based "16#FF".toText (by decide))
    let e : Formula := .call ⟨"limit".toText, by decide, .standard (by decide)⟩
      [mask, .group shift, .literal (.quoted ⟨"x := level".toText, by decide⟩), level]
    e.text = "limit ( 16#FF , ( Level + T#1h_2.5s ) , 'x := level' , Level )".toText ∧
      e.variableNames = ["Level".toText, "Level".toText] := by decide

end SclNarrator
