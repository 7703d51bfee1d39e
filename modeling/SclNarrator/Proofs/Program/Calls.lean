import SclNarrator.Proofs.Program.Syntax
import SclNarrator.Proofs.Text.Cut

/-!
Where the pattern for calls matches in the text of a program. A call without inner parentheses is
matched as a whole (`call_found`). Nothing else is: in an expression every opening parenthesis is
followed by one without an arrow in between, and a call with inner parentheses has one behind its own
opening parenthesis (`misses_call_nested`). So taking the calls out leaves everything else
(`stripCalls_text`).
-/

namespace SclNarrator.Program

open Source (call)
open Text (Misses cutFrom)

/-! ## The name of an instance -/

/-- Whether a character can continue the name of an instance. -/
def isInstanceChar (c : CodePoint) : Bool := isWord c || c == '.' || c == '"'

theorem stops_isWord {b : Text} (h : Stops isInstanceChar b) : Stops isWord b := by
  intro c mem
  have := h c mem
  simp only [isInstanceChar, Bool.or_eq_false_iff] at this
  exact this.1.1

theorem afterQuoted?_of_head {t : Text} (h : t.head? ≠ some (.char '"')) : Source.afterQuoted? t = none := by
  unfold Source.afterQuoted? quotedName
  split
  · next body => exact absurd rfl h
  · rfl

theorem afterWord?_of_stops {t : Text} (h : Stops isWord t) : Source.afterWord? t = none := by
  cases t with
  | nil => rfl
  | cons c rest =>
    rw [Source.afterWord?, if_neg]
    intro start
    have word := isWord_of_isNameStart start
    rw [stops_cons.mp h] at word
    cases word

theorem leaves_afterWord? {y b after : Text} (stop : Stops isWord b)
    (h : Source.afterWord? (y ++ b) = some after) : Leaves y b after := by
  cases y with
  | nil =>
    rw [List.nil_append, afterWord?_of_stops stop] at h
    cases h
  | cons c y =>
    rw [List.cons_append, Source.afterWord?] at h
    split at h
    · cases h
      exact (leaves_dropWhile y stop).cons c
    · cases h

theorem dropOne_of_head {c : CodePoint} {t : Text} (h : t.head? ≠ some c) :
    Source.dropOne c t = t := by
  cases t with
  | nil => rfl
  | cons d t => rw [Source.dropOne, if_neg (by simpa using h)]

theorem taken_append (y r b : Text) : (Lexeme.taken (y ++ b) (r ++ b)).1 = (Lexeme.taken y r).1 := by
  have size : (y ++ b).length - (r ++ b).length = y.length - r.length := by
    simp only [List.length_append]
    omega
  simp only [Lexeme.taken, size]
  exact List.take_append_of_le_length (Nat.sub_le ..)

theorem head?_append_ne {y b : Text} {c : CodePoint} (hy : c ∉ y) (hb : b.head? ≠ some c) :
    (y ++ b).head? ≠ some c := by
  cases y with
  | nil => exact hb
  | cons d rest =>
    intro same
    exact hy (by simp_all)

theorem head?_ne_of_stops {b : Text} (h : Stops isInstanceChar b) : b.head? ≠ some (.char '"') := by
  intro same
  have := h _ same
  simp [isInstanceChar] at this

/-- The members behind a name end where a text without double quotes does, at the latest. -/
theorem leaves_afterMembers (fuel : Nat) (y b : Text) (quote : .char '"' ∉ y)
    (stop : Stops isInstanceChar b) : Leaves y b (Source.afterMembers fuel (y ++ b)) := by
  induction fuel generalizing y with
  | zero => exact .refl y b
  | succ fuel ih =>
    unfold Source.afterMembers
    split
    · next member same =>
      cases y with
      | nil =>
        -- the text behind would go on with a point
        rw [List.nil_append] at same
        rw [same, stops_cons] at stop
        simp [isInstanceChar] at stop
      | cons c y =>
        rw [List.cons_append, List.cons.injEq] at same
        obtain ⟨rfl, rfl⟩ := same
        have rest : .char '"' ∉ y := fun mem => quote (List.mem_cons_of_mem _ mem)
        rw [afterQuoted?_of_head (head?_append_ne rest (head?_ne_of_stops stop))]
        simp only [Option.orElse_eq_orElse, Option.orElse_eq_or, Option.none_or]
        split
        · next after word =>
          obtain ⟨u, v, rfl, rfl⟩ := leaves_afterWord? (stops_isWord stop) word
          refine Leaves.cons ?_ _
          refine Leaves.trans ⟨u, v, rfl, rfl⟩ fun w same => ?_
          obtain rfl := List.append_cancel_right same
          exact ih v fun mem => rest (List.mem_append_right u mem)
        · exact .refl (.char '.' :: y) b
    · exact .refl y b

theorem leaves_dropOne {c : CodePoint} (y : Text) {b : Text} (h : b.head? ≠ some c) :
    Leaves y b (Source.dropOne c (y ++ b)) := by
  cases y with
  | nil => rw [List.nil_append, dropOne_of_head h]; exact .refl [] b
  | cons d y =>
    rw [List.cons_append, Source.dropOne]
    split
    · exact (Leaves.refl y b).cons d
    · exact .refl (d :: y) b

/-- The name of an instance that starts in a text without double quotes ends there. -/
theorem leaves_afterInstance? {y b rest : Text} (quote : .char '"' ∉ y)
    (stop : Stops isInstanceChar b) (hash : b.head? ≠ some (.char '#'))
    (h : Source.afterInstance? (y ++ b) = some rest) : Leaves y b rest := by
  unfold Source.afterInstance? at h
  rw [afterQuoted?_of_head (head?_append_ne quote (head?_ne_of_stops stop))] at h
  simp only [Option.orElse_eq_orElse, Option.orElse_eq_or, Option.none_or] at h
  obtain ⟨after, word, members⟩ := Option.map_eq_some_iff.mp h
  obtain ⟨x, z, rfl, dropped⟩ := leaves_dropOne y hash
  rw [dropped] at word
  obtain ⟨u, v, rfl, rfl⟩ := leaves_afterWord? (stops_isWord stop) word
  have inner : .char '"' ∉ v := fun mem =>
    quote (List.mem_append_right _ (List.mem_append_right _ mem))
  obtain ⟨u', v', rfl, last⟩ := leaves_afterMembers (v ++ b).length v b inner stop
  refine ⟨x ++ u ++ u', v', by simp, ?_⟩
  rw [← members, last]

/-! ## The pattern -/

theorem call_of_no_instance {back t : Text} (h : Source.afterInstance? t = none) :
    call back t = none := by
  simp only [call, h]

theorem call_of_no_paren {back t rest : Text} (h : Source.afterInstance? t = some rest)
    (first : (rest.dropWhile isBlank).head? ≠ some (.char '(')) : call back t = none := by
  simp only [call, h]
  split
  · next body same => simp [same] at first
  · rfl

theorem call_of_paren {back t rest body : Text} (h : Source.afterInstance? t = some rest)
    (opens : rest.dropWhile isBlank = .char '(' :: body) :
    call back t = match body.dropWhile isFlat with
      | .char ')' :: after =>
        if Source.hasArrow (body.takeWhile isFlat) then
          some (⟨(Lexeme.taken t rest).1, body.takeWhile isFlat, Source.isOperandAfter back⟩,
            Source.dropOne ';' (after.dropWhile isBlank))
        else none
      | _ => none := by
  simp only [call, h, opens]
  rw [← drop_length_takeWhile isFlat body]
  rfl

/-- Whether a text neither goes on with the name before it nor has a parenthesis or a `:` as its first
character that is not blank. -/
structure Quiet (b : Text) : Prop where
  stop : Stops isInstanceChar b
  hash : b.head? ≠ some (.char '#')
  opening : (b.dropWhile isBlank).head? ≠ some (.char '(')
  colon : (b.dropWhile isBlank).head? ≠ some (.char ':')

theorem call_quiet (e : Operand) {x y b back : Text} (inside : e.text = x ++ y) (quiet : Quiet b) :
    call back (y ++ b) = none := by
  have quote : .char '"' ∉ y := by
    intro mem
    have := e.isOperandChar (inside ▸ List.mem_append_right x mem)
    simp [isOperandChar] at this
  cases inst : Source.afterInstance? (y ++ b) with
  | none => exact call_of_no_instance inst
  | some after =>
    obtain ⟨u, v, rfl, rfl⟩ := leaves_afterInstance? quote quiet.stop quiet.hash inst
    cases left : v.dropWhile isBlank with
    | nil =>
      refine call_of_no_paren inst ?_
      rw [List.dropWhile_append_of_pos (List.dropWhile_eq_nil_iff.mp left)]
      exact quiet.opening
    | cons c w =>
      have blanks := (takeWhile_append_of_ne_nil left b).2
      rw [List.cons_append] at blanks
      by_cases opens : c = '('
      · subst opens
        -- the parenthesis is in the expression, and so is the next one
        have whole : e.text = (x ++ u ++ v.takeWhile isBlank) ++ .char '(' :: w := by
          rw [inside, ← left]
          simp
        obtain ⟨p, after, next⟩ := exists_paren_of_nested (whole ▸ e.nested)
        have part : w.takeWhile isFlat <:+: e.text := by
          rw [whole]
          refine (List.takeWhile_prefix _).isInfix.trans ?_
          exact ((List.suffix_cons _ _).trans (List.suffix_append _ _)).isInfix
        obtain ⟨same, rest⟩ := takeWhile_append_of_ne_nil next b
        rw [call_of_paren inst blanks, same, rest, e.hasArrow_infix part]
        split <;> rfl
      · exact call_of_no_paren inst (by simpa [blanks] using opens)

/-- Whether a character ends an expression: it ends the statement, the argument or the arguments. -/
def isEnd (c : CodePoint) : Bool := c == ';' || c == ',' || c == ')'

theorem isEnd_cases {c : CodePoint} (h : isEnd c = true) : c = ';' ∨ c = ',' ∨ c = ')' := by
  simpa [isEnd, or_assoc] using h

theorem quiet_of_isEnd {d : CodePoint} (rest : Text) (ends : isEnd d = true) : Quiet (d :: rest) := by
  have noBlank : Stops isBlank (d :: rest) := by
    rcases isEnd_cases ends with rfl | rfl | rfl <;> exact stops_cons.mpr (by decide)
  refine ⟨stops_cons.mpr ?_, ?_, ?_, ?_⟩
  · rcases isEnd_cases ends with rfl | rfl | rfl <;> decide
  · rcases isEnd_cases ends with rfl | rfl | rfl <;> simp
  · rw [dropWhile_of_stops noBlank]
    rcases isEnd_cases ends with rfl | rfl | rfl <;> simp
  · rw [dropWhile_of_stops noBlank]
    rcases isEnd_cases ends with rfl | rfl | rfl <;> simp

theorem call_operand (e : Operand) {x y rest back : Text} {d : CodePoint} (inside : e.text = x ++ y)
    (ends : isEnd d = true) : call back (y ++ d :: rest) = none :=
  call_quiet e inside (quiet_of_isEnd rest ends)

theorem call_of_head {c : CodePoint} {t back : Text} (quote : c ≠ '"') (hash : c ≠ '#')
    (start : isNameStart c = false) : call back (c :: t) = none := by
  apply call_of_no_instance
  unfold Source.afterInstance?
  rw [afterQuoted?_of_head (by simpa using quote), Source.dropOne, if_neg hash, Source.afterWord?,
    if_neg (by simp [start])]
  rfl

theorem call_of_blank {c : CodePoint} {t back : Text} (h : isBlank c = true) :
    call back (c :: t) = none := by
  have := forall_blank (P := fun c => c != '"' && c != '#' && !isNameStart c) (by decide) h
  simp only [Bool.and_eq_true, bne_iff_ne, Bool.not_eq_true'] at this
  exact call_of_head this.1.1 this.1.2 this.2

theorem misses_call_gap (gap : Gap) (back rest : Text) : Misses call back gap.text rest := by
  refine Text.misses_of_ends fun x y same ne => ?_
  obtain ⟨c, y, rfl⟩ := List.exists_cons_of_ne_nil ne
  exact call_of_blank (gap.isBlank (same ▸ List.mem_append_right x List.mem_cons_self))

theorem afterMembers_of_stops {fuel : Nat} {b : Text} (stop : Stops isInstanceChar b) :
    Source.afterMembers fuel b = b := by
  obtain ⟨u, v, same, members⟩ := leaves_afterMembers fuel [] b (by simp) stop
  rw [List.nil_append] at members
  rw [members, (List.append_eq_nil_iff.mp same.symm).2]
  rfl

theorem afterInstance?_name (name : Name) {x y b : Text} {c : CodePoint}
    (inside : name.text = x ++ c :: y) (stop : Stops isInstanceChar b) :
    Source.afterInstance? (c :: y ++ b) = if isNameStart c then some b else none := by
  have chars : ∀ d ∈ c :: y, isNameChar d = true := fun d mem =>
    name.isNameChar (inside ▸ List.mem_append_right x mem)
  have words : ∀ d ∈ y, isWord d = true := fun d mem =>
    isWord_of_isNameChar (chars d (List.mem_cons_of_mem _ mem))
  have quote : c ≠ '"' := ne_of_isNameChar (chars c List.mem_cons_self) (by decide)
  have hash : c ≠ '#' := ne_of_isNameChar (chars c List.mem_cons_self) (by decide)
  unfold Source.afterInstance?
  rw [List.cons_append, afterQuoted?_of_head (by simpa using quote), Source.dropOne, if_neg hash,
    Source.afterWord?]
  simp only [Option.orElse_eq_orElse, Option.orElse_eq_or, Option.none_or]
  split
  · rw [dropWhile_append_of_stops words (stops_isWord stop), Option.map_some,
      afterMembers_of_stops stop]
  · rfl

theorem stops_isInstanceChar (gap : Gap) {b : Text} (h : Stops isInstanceChar b) :
    Stops isInstanceChar (gap.text ++ b) := by
  refine gap.stops (fun c blank => ?_) h
  have := forall_blank (P := fun c => !isInstanceChar c) (by decide +kernel) blank
  simpa using this

theorem misses_call_name (name : Name) (gap : Gap) {d : CodePoint} (back rest : Text)
    (noInstance : isInstanceChar d = false) (noBlank : isBlank d = false) (noOpen : d ≠ '(') :
    Misses call back name.text (gap.text ++ d :: rest) := by
  refine Text.misses_of_ends fun x y same ne => ?_
  obtain ⟨c, y, rfl⟩ := List.exists_cons_of_ne_nil ne
  have stop := stops_isInstanceChar gap (stops_cons (t := rest).mpr noInstance)
  have inst := afterInstance?_name name same stop
  split at inst
  · refine call_of_no_paren inst ?_
    rw [dropWhile_append_of_stops (fun c => gap.isBlank) (stops_cons.mpr noBlank)]
    simpa using noOpen
  · exact call_of_no_instance inst

/-- The two characters of an arrow are of the kind that neither starts nor continues a name. -/
theorem Argument.arrow_cases (a : Argument) : ∃ c d, a.arrow = [c, d] ∧
    ∀ x ∈ [c, d], x ≠ '"' ∧ x ≠ '#' ∧ x ≠ '(' ∧ isNameStart x = false ∧ isInstanceChar x = false ∧
      isBlank x = false := by
  unfold Argument.arrow
  cases a.output with
  | false => exact ⟨':', '=', rfl, by decide⟩
  | true => exact ⟨'=', '>', rfl, by decide⟩

theorem misses_call_argument (a : Argument) {d : CodePoint} (back rest : Text) (ends : isEnd d = true) :
    Misses call back a.text (d :: rest) := by
  obtain ⟨x, y, arrow, plain⟩ := a.arrow_cases
  have hx := plain x (by simp)
  have hy := plain y (by simp)
  have name : ∀ back, Misses call back a.name.text
      (a.gap.text ++ ([x, y] ++ a.operand.text) ++ d :: rest) := fun back => by
    rw [List.append_assoc]
    exact misses_call_name a.name a.gap back _ hx.2.2.2.2.1 hx.2.2.2.2.2 hx.2.2.1
  have marks : ∀ back, Misses call back [x, y] (a.operand.text ++ d :: rest) := fun back =>
    ⟨call_of_head hx.1 hx.2.1 hx.2.2.2.1, call_of_head hy.1 hy.2.1 hy.2.2.2.1, trivial⟩
  have operand : ∀ back, Misses call back a.operand.text (d :: rest) := fun back =>
    Text.misses_of_ends fun _ _ same _ => call_operand a.operand same ends
  rw [Argument.text, arrow]
  exact (misses_call_gap a.lead _ _).append ((name _).append
    ((misses_call_gap a.gap _ _).append ((marks _).append (operand _))))

theorem misses_call_arguments (first : Argument) (more : List Argument) (back rest : Text) :
    Misses call back (argumentsText first more) (.char ')' :: rest) := by
  induction more generalizing first back with
  | nil => exact misses_call_argument first back rest (by decide)
  | cons next more ih =>
    refine (misses_call_argument first back _ (by decide)).append ?_
    exact ⟨call_of_head (by decide) (by decide) (by decide), ih next _⟩

/-! ## Calls -/

theorem Argument.nested (a : Argument) : nestedFrom 0 a.text = true := by
  have arrow : ∀ c ∈ a.arrow, isFlat c = true := by
    unfold Argument.arrow
    cases a.output <;> decide
  rw [Argument.text, nestedFrom_flat fun c => a.lead.isFlat, nestedFrom_flat fun c => a.name.isFlat,
    nestedFrom_flat fun c => a.gap.isFlat, nestedFrom_flat arrow]
  exact a.operand.nested

theorem nested_argumentsText (first : Argument) (more : List Argument) :
    nestedFrom 0 (argumentsText first more) = true := by
  induction more generalizing first with
  | nil => exact first.nested
  | cons next more ih =>
    rw [argumentsText]
    rw [← Nat.add_zero 0, nestedFrom_append first.nested]
    exact ih next

theorem hasArrow_argumentsText (first : Argument) (more : List Argument) :
    Source.hasArrow (argumentsText first more) = true := by
  have here : first.arrow <:+: argumentsText first more := by
    have start : first.text <+: argumentsText first more := by
      cases more with
      | nil => exact List.prefix_rfl
      | cons next more => exact List.prefix_append ..
    refine List.IsInfix.trans ?_ start.isInfix
    exact ⟨first.lead.text ++ (first.name.text ++ first.gap.text), first.operand.text, by
      simp [Argument.text]⟩
  rw [Source.hasArrow, Bool.or_eq_true]
  unfold Argument.arrow at here
  cases output : first.output with
  | false => exact .inl (hasPart_iff.mpr (by simpa [output] using here))
  | true => exact .inr (hasPart_iff.mpr (by simpa [output] using here))

section

variable (callee : Name) (gap : Gap) (first : Argument) (more : List Argument) (tail : Gap)

theorem text_call_append (rest : Text) :
    (Statement.call callee gap first more tail).text ++ rest =
      callee.text ++ (gap.text ++ .char '(' ::
        (argumentsText first more ++ .char ')' :: (tail.text ++ .char ';' :: rest))) := by
  simp [Statement.text]

theorem stops_opening (body : Text) : Stops isInstanceChar (gap.text ++ .char '(' :: body) :=
  stops_isInstanceChar gap (stops_cons.mpr (by decide))

theorem dropWhile_opening (body : Text) :
    (gap.text ++ .char '(' :: body).dropWhile isBlank = .char '(' :: body :=
  dropWhile_append_of_stops (fun _ => gap.isBlank) (stops_cons.mpr (by decide))

/-- A call whose arguments have no parentheses is matched as a whole. -/
theorem call_found (back rest : Text)
    (flat : ∀ c ∈ argumentsText first more, isFlat c = true) :
    ∃ v : Source.Call, v.nested = Source.isOperandAfter back ∧
      call back ((Statement.call callee gap first more tail).text ++ rest) = some (v, rest) := by
  rw [text_call_append]
  obtain ⟨c, name, same, start, -⟩ := callee.cases
  have inst := afterInstance?_name callee (x := []) same (stops_opening gap
    (argumentsText first more ++ .char ')' :: (tail.text ++ .char ';' :: rest)))
  rw [if_pos start, ← same] at inst
  rw [call_of_paren inst (dropWhile_opening gap _),
    dropWhile_append_of_stops flat (stops_cons.mpr (by decide)),
    takeWhile_append_of_stops flat (stops_cons.mpr (by decide))]
  simp only [hasArrow_argumentsText, if_true]
  rw [dropWhile_append_of_stops (fun c => tail.isBlank) (stops_cons.mpr (by decide))]
  exact ⟨_, rfl, rfl⟩

/-- In a call whose arguments have parentheses no call is matched. -/
theorem misses_call_nested (back rest : Text)
    (deep : (argumentsText first more).all isFlat = false) :
    Misses call back (Statement.call callee gap first more tail).text rest := by
  have closing : ∀ back, Misses call back (.char ')' :: (tail.text ++ [.char ';'])) rest := fun back =>
    ⟨call_of_head (by decide) (by decide) (by decide), (misses_call_gap tail _ _).append
      ⟨call_of_head (by decide) (by decide) (by decide), trivial⟩⟩
  have opening : ∀ back, Misses call back callee.text (gap.text ++ .char '(' ::
      (argumentsText first more ++ .char ')' :: (tail.text ++ [.char ';'])) ++ rest) := by
    intro back
    refine Text.misses_of_ends fun x y same ne => ?_
    obtain ⟨c, y, rfl⟩ := List.exists_cons_of_ne_nil ne
    have inst := afterInstance?_name callee same (stops_opening gap
      (argumentsText first more ++ .char ')' :: (tail.text ++ .char ';' :: rest)))
    simp only [List.append_assoc, List.cons_append, List.nil_append] at inst ⊢
    split at inst
    · -- the first parenthesis behind the opening one opens, too
      cases left : (argumentsText first more).dropWhile isFlat with
      | nil =>
        rw [List.dropWhile_eq_nil_iff, ← List.all_eq_true, deep] at left
        cases left
      | cons p after =>
        obtain rfl := opens_of_nested (nested_argumentsText first more) left
        rw [call_of_paren inst (dropWhile_opening gap _), (takeWhile_append_of_ne_nil left _).2]
        rfl
    · exact call_of_no_instance inst
  refine (opening back).append ((misses_call_gap gap _ _).append ⟨?_, ?_⟩)
  · exact call_of_head (by decide) (by decide) (by decide)
  · exact (misses_call_arguments first more _ _).append (closing _)

end

theorem misses_call_assign (target : Name) (gap : Gap) (e : Operand) (back rest : Text) :
    Misses call back (Statement.assign target gap e).text rest := by
  have name : ∀ back, Misses call back target.text
      (gap.text ++ .char ':' :: .char '=' :: (e.text ++ [.char ';']) ++ rest) := fun back => by
    rw [List.append_assoc]
    exact misses_call_name target gap back _ (by decide) (by decide) (by decide)
  have expression : ∀ back, Misses call back (e.text ++ [.char ';']) rest := fun back =>
    .append (Text.misses_of_ends fun _ _ same _ => call_operand e same (by decide))
      ⟨call_of_head (by decide) (by decide) (by decide), trivial⟩
  refine (name back).append ((misses_call_gap gap _ _).append ⟨?_, ?_, expression _⟩)
  · exact call_of_head (by decide) (by decide) (by decide)
  · exact call_of_head (by decide) (by decide) (by decide)

/-! ## Taking calls out -/

/-- What is left of a statement when calls are taken out. A call whose arguments have parentheses
stays. -/
def Statement.stripped : Statement → Text
  | assign target gap expression => (assign target gap expression).text
  | call callee gap first more tail =>
    if (argumentsText first more).all isFlat then [] else (call callee gap first more tail).text

/-- Whether a text, given backwards, ends a statement or is the start of the code. -/
def AtStatement (back : Text) : Prop := ∀ c ∈ (back.dropWhile isBlank).head?, c = ';'

theorem AtStatement.isOperandAfter {back : Text} (h : AtStatement back) :
    Source.isOperandAfter back = false := by
  unfold Source.isOperandAfter
  split
  · rfl
  · next c rest same =>
    obtain rfl := h c (by rw [same]; rfl)
    decide

theorem AtStatement.gap {back : Text} (h : AtStatement back) (gap : Gap) :
    AtStatement (gap.text.reverse ++ back) := by
  rwa [AtStatement, List.dropWhile_append_of_pos fun c mem => gap.isBlank (List.mem_reverse.mp mem)]

theorem Statement.exists_text (s : Statement) : ∃ front, s.text = front ++ [.char ';'] := by
  cases s with
  | assign target gap expression =>
    exact ⟨target.text ++ (gap.text ++ .char ':' :: .char '=' :: expression.text), by
      simp [Statement.text]⟩
  | call callee gap first more tail =>
    exact ⟨callee.text ++ (gap.text ++ .char '(' ::
      (argumentsText first more ++ .char ')' :: tail.text)), by simp [Statement.text]⟩

theorem atStatement_after (s : Statement) (back : Text) : AtStatement (s.text.reverse ++ back) := by
  obtain ⟨front, same⟩ := s.exists_text
  rw [same, List.reverse_append, List.reverse_singleton, List.singleton_append, List.cons_append,
    AtStatement, dropWhile_of_stops (stops_cons.mpr (by decide))]
  simp

theorem keepNested_misses {back a : Text} {b : Text} (h : Misses call back a b) :
    (cutFrom call 0 back (a ++ b)).flatMap Source.keepNested =
      a ++ (cutFrom call 0 (a.reverse ++ back) b).flatMap Source.keepNested := by
  rw [Text.cutFrom_misses h, List.flatMap_append]
  congr 1
  exact Text.flatMap_text_plain a _ fun _ => rfl

theorem keepNested_statement (s : Statement) {back : Text} (rest : Text) (h : AtStatement back) :
    (cutFrom call 0 back (s.text ++ rest)).flatMap Source.keepNested =
      s.stripped ++ (cutFrom call 0 (s.text.reverse ++ back) rest).flatMap Source.keepNested := by
  cases s with
  | assign target gap e => exact keepNested_misses (misses_call_assign target gap e back rest)
  | call callee gap first more tail =>
    rw [Statement.stripped]
    cases flat : (argumentsText first more).all isFlat with
    | false => exact keepNested_misses (misses_call_nested callee gap first more tail back rest flat)
    | true =>
      obtain ⟨v, outer, found⟩ := call_found callee gap first more tail back rest
        (List.all_eq_true.mp flat)
      obtain ⟨front, same⟩ := (Statement.call callee gap first more tail).exists_text
      rw [Text.cutFrom_found (by simp [same]) found, List.flatMap_cons, Source.keepNested, outer,
        h.isOperandAfter]
      rfl

theorem keepNested_statements (statements : List (Gap × Statement)) {back : Text} (tail : Gap)
    (h : AtStatement back) :
    (cutFrom call 0 back (statementsText statements ++ tail.text)).flatMap Source.keepNested =
      (statements.flatMap fun (gap, s) => gap.text ++ s.stripped) ++ tail.text := by
  induction statements generalizing back with
  | nil =>
    have := keepNested_misses (misses_call_gap tail back [])
    rw [List.append_nil] at this
    simpa [statementsText, cutFrom] using this
  | cons head statements ih =>
    obtain ⟨gap, s⟩ := head
    have text : statementsText ((gap, s) :: statements) ++ tail.text =
        gap.text ++ (s.text ++ (statementsText statements ++ tail.text)) := by
      simp [statementsText]
    rw [text, keepNested_misses (misses_call_gap gap back _), keepNested_statement s _ (h.gap gap),
      ih (atStatement_after s _)]
    simp

/-- Taking the calls out of a program leaves its assignments and the calls whose arguments have
parentheses. -/
theorem stripCalls_text (program : Program) : Source.stripCalls program.text =
    (program.statements.flatMap fun (gap, s) => gap.text ++ s.stripped) ++ program.tail.text :=
  keepNested_statements program.statements program.tail (by simp [AtStatement])

end SclNarrator.Program
