import SclNarrator.Proofs.Program.Branching

/-!
Code in which `IF` structures stand in each other and one behind the other, and its text. Read as plain
statements, the text has all assignments of the code, whatever structure they stand in
(`assignments_code`). Split as an `IF` structure, it is taken apart at its first structure alone
(`split?_code`): a structure in a body or behind the first one stays text.
-/

namespace SclNarrator.Program

open Source (IfWord IfToken Skeleton IfBlock assignment topLevel call ifPart)
open Text (Misses cutFrom)

/-! ## Syntax -/

/-- An assignment that mentions no word of an `IF` structure. -/
structure Write where
  target : Name
  gap : Gap
  expression : Operand
  unstructured : isUnstructured (Statement.assign target gap expression).text = true

structure Guard extends Condition where
  operand : isOperand text = true

structure Head where
  lead : Space
  guard : Guard
  tail : Space

mutual

/-- Assignments and `IF` structures, in any order. A structure has the body of its first condition, and
what else it holds. -/
inductive Code where
  | done (tail : Gap)
  | write (lead : Gap) (w : Write) (rest : Code)
  | branch (lead : Gap) (head : Head) (inner : Space) (body : Code) (arms : Arms) (gap : Gap) (rest : Code)

/-- What follows the first body of an `IF` structure: further conditions with their bodies, and perhaps
what is done otherwise. -/
inductive Arms where
  | none
  | otherwise (inner : Space) (body : Code)
  | elsif (head : Head) (inner : Space) (body : Code) (arms : Arms)

end

def Write.text (w : Write) : Text := (Statement.assign w.target w.gap w.expression).text

def Write.assignment (w : Write) : Source.Assignment := ⟨w.target.text, w.expression.text.trim⟩

/-- The text between the word of a branch and its `THEN`. -/
def Head.text (h : Head) : Text := h.lead.text ++ (h.guard.text ++ h.tail.text)

/-- How a condition starts a body: its word, the guard, `THEN` and blanks. -/
def Head.opening (h : Head) (word : Text) (inner : Space) : Text :=
  word ++ (h.text ++ ("THEN".toText ++ inner.text))

/-- How the body starts that is carried out otherwise. -/
def elseOpening (inner : Space) : Text := "ELSE".toText ++ inner.text

def closing (gap : Gap) : Text := "END_IF".toText ++ (gap.text ++ [.char ';'])

mutual

def Code.text : Code → Text
  | .done tail => tail.text
  | .write lead w rest => lead.text ++ (w.text ++ rest.text)
  | .branch lead head inner body arms gap rest =>
    lead.text ++ (head.opening "IF".toText inner ++ (body.text ++ (arms.text ++
      (closing gap ++ rest.text))))

def Arms.text : Arms → Text
  | .none => []
  | .otherwise inner body => elseOpening inner ++ body.text
  | .elsif head inner body arms => head.opening "ELSIF".toText inner ++ (body.text ++ arms.text)

end

mutual

/-- All assignments of code, in whatever structure they stand, as they are written one after the
other. -/
def Code.assignments : Code → List Source.Assignment
  | .done _ => []
  | .write _ w rest => w.assignment :: rest.assignments
  | .branch _ _ _ body arms _ rest => body.assignments ++ (arms.assignments ++ rest.assignments)

def Arms.assignments : Arms → List Source.Assignment
  | .none => []
  | .otherwise _ body => body.assignments
  | .elsif _ _ body arms => body.assignments ++ arms.assignments

end

/-! ## The text as plain statements -/

theorem hasPart_append_of_not_mem {a b : Text} (h : .char '=' ∉ a) :
    Text.hasPart ['=', '>'] (a ++ b) = Text.hasPart ['=', '>'] b := by
  induction a with
  | nil => rfl
  | cons c a ih =>
    rw [List.mem_cons, not_or] at h
    rw [← ih h.2, Bool.eq_iff_iff, hasPart_iff, hasPart_iff, List.cons_append, List.infix_cons_iff]
    refine ⟨fun inside => inside.resolve_left ?_, .inr⟩
    rintro ⟨rest, same⟩
    exact h.1 (List.cons.inj same).1

/-- A guard behind the word before it, which together stand like an expression. -/
def Head.operand (h : Head) (word : Text) (valid : isOperand word = true)
    (letters : word.all isNameChar = true) : Operand where
  text := word ++ (h.lead.text ++ h.guard.text)
  valid := by
    have word' := valid
    have guard := h.guard.operand
    simp only [isOperand, Bool.and_eq_true, Bool.not_eq_true'] at word' guard ⊢
    have flat : ∀ c ∈ word, isFlat c = true := fun c mem => by
      have char := List.all_eq_true.mp letters c mem
      rw [isFlat, Bool.and_eq_true, bne_iff_ne, bne_iff_ne]
      exact ⟨ne_of_isNameChar char (by decide), ne_of_isNameChar char (by decide)⟩
    have equals : .char '=' ∉ word := fun mem => by
      have char := List.all_eq_true.mp letters _ mem
      cases char
    have equals' : .char '=' ∉ h.lead.text := fun mem => by
      have blank := h.lead.isBlank mem
      cases blank
    refine ⟨⟨⟨?_, ?_⟩, ?_⟩, ?_⟩
    · rw [Text.blank, List.all_append, Bool.and_eq_false_iff]
      exact .inl word'.1.1.1
    · rw [nestedFrom_flat flat, nestedFrom_flat fun c => h.lead.isFlat]
      exact guard.1.1.2
    · rw [List.all_append, List.all_append, Bool.and_eq_true, Bool.and_eq_true]
      refine ⟨word'.1.2, ?_, guard.1.2⟩
      exact List.all_eq_true.mpr fun c mem => forall_blank (by decide) (h.lead.isBlank mem)
    · rw [hasPart_append_of_not_mem equals, hasPart_append_of_not_mem equals']
      exact guard.2

/-- Whether the first character of a text that is not blank is neither a parenthesis nor a `:`. -/
structure Calm (t : Text) : Prop where
  opening : (t.dropWhile isBlank).head? ≠ some (.char '(')
  colon : (t.dropWhile isBlank).head? ≠ some (.char ':')

theorem Calm.gap {t : Text} (h : Calm t) (gap : Gap) : Calm (gap.text ++ t) := by
  have skip : (gap.text ++ t).dropWhile isBlank = t.dropWhile isBlank :=
    List.dropWhile_append_of_pos fun c => gap.isBlank
  exact ⟨by rw [skip]; exact h.opening, by rw [skip]; exact h.colon⟩

theorem calm_of_isNameStart {c : CodePoint} (t : Text) (h : isNameStart c = true) : Calm (c :: t) := by
  have solid := isBlank_of_isWord (isWord_of_isNameStart h)
  have char := isNameChar_of_isNameStart h
  constructor
  · rw [dropWhile_of_stops (stops_cons.mpr solid)]
    simpa using ne_of_isNameChar char (by decide)
  · rw [dropWhile_of_stops (stops_cons.mpr solid)]
    simpa using ne_of_isNameChar char (by decide)

theorem Calm.quiet {t : Text} (h : Calm t) (space : Space) : Quiet (space.text ++ t) := by
  obtain ⟨c, rest, same⟩ := List.exists_cons_of_ne_nil space.ne_nil
  have blank : isBlank c = true := space.isBlank (same ▸ List.mem_cons_self)
  have inner := h.gap space.toGap
  refine ⟨?_, ?_, inner.opening, inner.colon⟩
  · have := forall_blank (P := fun c => !isInstanceChar c) (by decide +kernel) blank
    rw [same]
    exact stops_cons.mpr (by simpa using this)
  · rw [same]
    intro hash
    obtain rfl : c = '#' := by simpa using hash
    cases blank

theorem Code.calm (c : Code) {t : Text} (h : Calm t) : Calm (c.text ++ t) := by
  cases c with
  | done tail => exact h.gap tail
  | write lead w rest =>
    obtain ⟨d, name, same, start, -⟩ := w.target.cases
    have text : (Code.write lead w rest).text ++ t = lead.text ++ (d :: (name ++ (w.gap.text ++
        .char ':' :: .char '=' :: (w.expression.text ++ [.char ';']))) ++ (rest.text ++ t)) := by
      simp [Code.text, Write.text, Statement.text, same]
    rw [text]
    exact (calm_of_isNameStart _ start).gap lead
  | branch lead head inner body arms gap rest =>
    rw [Code.text, List.append_assoc]
    exact (calm_of_isNameStart _ (by decide : isNameStart 'I' = true)).gap lead

theorem Arms.calm (a : Arms) {t : Text} (h : Calm t) : Calm (a.text ++ t) := by
  cases a with
  | none => exact h
  | otherwise inner body => exact calm_of_isNameStart _ (by decide : isNameStart 'E' = true)
  | elsif head inner body arms => exact calm_of_isNameStart _ (by decide : isNameStart 'E' = true)

theorem calm_closing (gap : Gap) (t : Text) : Calm (closing gap ++ t) :=
  calm_of_isNameStart _ (by decide : isNameStart 'E' = true)

theorem quiet_semicolon (gap : Gap) (t : Text) : Quiet (gap.text ++ .char ';' :: t) := by
  have skip : (gap.text ++ .char ';' :: t).dropWhile isBlank = .char ';' :: t :=
    dropWhile_append_of_stops (fun _ => gap.isBlank) (stops_cons.mpr (by decide))
  refine ⟨stops_isInstanceChar gap (stops_cons.mpr (by decide)), ?_, by rw [skip]; simp, by rw [skip]; simp⟩
  exact head?_gap_ne gap (by decide) (by simp)

theorem assignment_quiet (e : Operand) {x y b back : Text} (inside : e.text = x ++ y)
    (quiet : Quiet b) : assignment back (y ++ b) = none := by
  have plain {c : CodePoint} (mem : c ∈ y) : c ≠ '"' ∧ c ≠ ':' := by
    have := e.isOperandChar (inside ▸ List.mem_append_right x mem)
    simp only [isOperandChar, Bool.and_eq_true, bne_iff_ne] at this
    exact ⟨this.1.1.2, this.2⟩
  have stop : Stops isNameChar b := by
    intro c mem
    have := stops_isWord quiet.stop c mem
    rw [Bool.eq_false_iff] at this ⊢
    exact fun char => this (isWord_of_isNameChar char)
  have quote : b.head? ≠ some (.char '"') := head?_ne_of_stops quiet.stop
  apply assignment_of_no_target
  obtain ⟨u, y', rfl, hash⟩ := leaves_dropOne (c := '#') y quiet.hash
  have inner : .char '"' ∉ y' := fun mem => (plain (List.mem_append_right u mem)).1 rfl
  rw [Source.target?, hash, dropOne_of_head (head?_append_ne inner quote)]
  split
  · rfl
  · next name rest found =>
    obtain ⟨w, v, rfl, rfl⟩ := leaves_identifier? stop found
    have part {c : CodePoint} (mem : c ∈ v) := plain (List.mem_append_right u (List.mem_append_right w mem))
    rw [dropOne_of_head (head?_append_ne (fun mem => (part mem).1 rfl) quote)]
    split
    · next body same =>
      exfalso
      cases left : v.dropWhile isBlank with
      | nil =>
        rw [List.dropWhile_append_of_pos (List.dropWhile_eq_nil_iff.mp left)] at same
        exact quiet.colon (by rw [same]; rfl)
      | cons c z =>
        rw [(takeWhile_append_of_ne_nil left b).2, List.cons_append] at same
        have mem : c ∈ v := (List.dropWhile_suffix _).subset (left ▸ List.mem_cons_self)
        exact (part mem).2 (List.cons.inj same).1
    · rfl

/-- Whether a stretch before a text holds no part of a call or an assignment, and closes the
parentheses that it opens. -/
structure Idle (u b : Text) : Prop where
  calls : ∀ back, Misses call back u b
  assignments : ∀ back, Misses assignment back u b
  balance : Source.parenBalance u = 0

theorem Idle.append {u v b : Text} (first : Idle u (v ++ b)) (second : Idle v b) : Idle (u ++ v) b where
  calls back := (first.calls back).append (second.calls _)
  assignments back := (first.assignments back).append (second.assignments _)
  balance := by rw [parenBalance_append, first.balance, second.balance, Int.add_zero]

theorem Idle.topLevel {u b : Text} (h : Idle u b) :
    topLevel 0 (Text.cut assignment (u ++ b)) = topLevel 0 (Text.cut assignment b) := by
  rw [topLevel_misses 0 (h.assignments []), h.balance, Int.add_zero]

theorem idle_gap (gap : Gap) (b : Text) : Idle gap.text b where
  calls back := misses_call_gap gap back b
  assignments back := misses_assignment_gap gap back b
  balance := parenBalance_flat fun _ => gap.isFlat

theorem idle_quiet (e : Operand) {b : Text} (quiet : Quiet b) : Idle e.text b where
  calls _ := Text.misses_of_ends fun _ _ same _ => call_quiet e same quiet
  assignments _ := Text.misses_of_ends fun _ _ same _ => assignment_quiet e same quiet
  balance := by simpa using parenBalance_of_nested e.nested

theorem idle_opening (h : Head) (word : Text) (valid : isOperand word = true)
    (letters : word.all isNameChar = true) (inner : Space) {b : Text} (calm : Calm b) :
    Idle (h.opening word inner) b := by
  have first : Quiet (h.tail.text ++ ("THEN".toText ++ inner.text) ++ b) := by
    rw [List.append_assoc]
    exact (calm_of_isNameStart _ (by decide : isNameStart 'T' = true)).quiet h.tail
  have guard := idle_quiet (h.operand word valid letters) first
  have tail := idle_gap h.tail.toGap ("THEN".toText ++ inner.text ++ b)
  have thenWord := idle_quiet ⟨"THEN".toText, by decide⟩ (calm.quiet inner)
  have whole := guard.append (tail.append (thenWord.append (idle_gap inner.toGap b)))
  simpa [Head.opening, Head.operand, Head.text] using whole

theorem idle_elseOpening (inner : Space) {b : Text} (calm : Calm b) : Idle (elseOpening inner) b :=
  (idle_quiet ⟨"ELSE".toText, by decide⟩ (calm.quiet inner)).append (idle_gap inner.toGap b)

theorem idle_closing (gap : Gap) (b : Text) : Idle (closing gap) b := by
  have semicolon : Idle [.char ';'] b :=
    ⟨fun _ => ⟨call_of_head (by decide) (by decide) (by decide), trivial⟩,
      fun _ => ⟨assignment_of_head (by decide) (by decide) (by decide), trivial⟩, by decide⟩
  have quiet : Quiet (gap.text ++ [.char ';'] ++ b) := by
    rw [List.append_assoc]
    exact quiet_semicolon gap b
  exact (idle_quiet ⟨"END_IF".toText, by decide⟩ quiet).append ((idle_gap gap _).append semicolon)

mutual

theorem Code.misses_call (back t : Text) : (c : Code) → Misses call back c.text t
  | .done tail => misses_call_gap tail back t
  | .write lead w rest =>
    (misses_call_gap lead back _).append
      ((misses_call_assign w.target w.gap w.expression _ _).append (rest.misses_call _ t))
  | .branch lead head inner body arms gap rest => by
    have calm : Calm (body.text ++ (arms.text ++ (closing gap ++ rest.text)) ++ t) := by
      simp only [List.append_assoc]
      exact body.calm (arms.calm (calm_closing gap _))
    have opening := idle_opening head "IF".toText (by decide) (by decide) inner calm
    refine (misses_call_gap lead back _).append ((opening.calls _).append ((body.misses_call _ _).append ?_))
    refine (arms.misses_call _ _ ?_).append (((idle_closing gap _).calls _).append (rest.misses_call _ t))
    rw [List.append_assoc]
    exact calm_closing gap _

theorem Arms.misses_call (back t : Text) (calm : Calm t) : (a : Arms) → Misses call back a.text t
  | .none => trivial
  | .otherwise inner body =>
    ((idle_elseOpening inner (body.calm calm)).calls back).append (body.misses_call _ t)
  | .elsif head inner body arms => by
    have calm' : Calm (body.text ++ arms.text ++ t) := by
      rw [List.append_assoc]
      exact body.calm (arms.calm calm)
    have opening := idle_opening head "ELSIF".toText (by decide) (by decide) inner calm'
    exact (opening.calls back).append ((body.misses_call _ _).append (arms.misses_call _ t calm))

end

mutual

theorem Code.topLevel_text (t : Text) : (c : Code) →
    topLevel 0 (Text.cut assignment (c.text ++ t)) = c.assignments ++ topLevel 0 (Text.cut assignment t)
  | .done tail => (idle_gap tail t).topLevel
  | .write lead w rest => by
    have ne : w.text ≠ [] := by simp [Write.text, Statement.text]
    have found := assignment_found w.target w.gap w.expression [] (rest.text ++ t)
    rw [Code.text, List.append_assoc, List.append_assoc, (idle_gap lead _).topLevel,
      topLevel_found 0 ne found, Write.text, parenBalance_assign, Int.add_zero, rest.topLevel_text t]
    rfl
  | .branch lead head inner body arms gap rest => by
    have calm : Calm (body.text ++ (arms.text ++ (closing gap ++ (rest.text ++ t)))) :=
      body.calm (arms.calm (calm_closing gap _))
    have opening := idle_opening head "IF".toText (by decide) (by decide) inner calm
    simp only [Code.text, List.append_assoc]
    rw [(idle_gap lead _).topLevel, opening.topLevel, body.topLevel_text,
      arms.topLevel_text _ (calm_closing gap _), (idle_closing gap _).topLevel, rest.topLevel_text t,
      Code.assignments]
    simp only [List.append_assoc]

theorem Arms.topLevel_text (t : Text) (calm : Calm t) : (a : Arms) →
    topLevel 0 (Text.cut assignment (a.text ++ t)) = a.assignments ++ topLevel 0 (Text.cut assignment t)
  | .none => rfl
  | .otherwise inner body => by
    rw [Arms.text, List.append_assoc, (idle_elseOpening inner (body.calm calm)).topLevel,
      body.topLevel_text t]
    rfl
  | .elsif head inner body arms => by
    have opening := idle_opening head "ELSIF".toText (by decide) (by decide) inner
      (body.calm (arms.calm calm))
    simp only [Arms.text, List.append_assoc]
    rw [opening.topLevel, body.topLevel_text, arms.topLevel_text t calm, Arms.assignments]
    simp only [List.append_assoc]

end

/-- Read as plain statements, the text of code has all of its assignments, in whatever structure they
stand. -/
theorem assignments_code (c : Code) : Source.assignments c.text = c.assignments := by
  have strip : Source.stripCalls c.text = c.text := by
    have := keepNested_misses (c.misses_call [] [])
    rw [List.append_nil] at this
    exact this.trans (List.append_nil _)
  have scan := c.topLevel_text []
  rw [List.append_nil] at scan
  rw [Source.assignments, strip]
  exact scan.trans (List.append_nil _)

/-! ## The words of the structures -/

mutual

/-- The text of code before its first word of a structure. -/
def Code.before : Code → Text
  | .done tail => tail.text
  | .write lead w rest => lead.text ++ (w.text ++ rest.before)
  | .branch lead .. => lead.text

/-- The words of the structures in code, with the texts behind them. -/
def Code.tokens : Code → List IfToken
  | .done _ => []
  | .write _ _ rest => rest.tokens
  | .branch _ head inner body arms gap rest =>
    ⟨.if, "IF".toText, head.text⟩ :: ⟨.then, "THEN".toText, inner.text ++ body.before⟩ ::
      (body.tokens ++ (arms.tokens ++
        ⟨.endIf, "END_IF".toText, gap.text ++ .char ';' :: rest.before⟩ :: rest.tokens))

/-- The words in what follows the first body. -/
def Arms.tokens : Arms → List IfToken
  | .none => []
  | .otherwise inner body => ⟨.else, "ELSE".toText, inner.text ++ body.before⟩ :: body.tokens
  | .elsif head inner body arms =>
    ⟨.elsif, "ELSIF".toText, head.text⟩ :: ⟨.then, "THEN".toText, inner.text ++ body.before⟩ ::
      (body.tokens ++ arms.tokens)

end

mutual

theorem Code.text_tokens : (c : Code) → c.before ++ c.tokens.flatMap IfToken.text = c.text
  | .done tail => List.append_nil _
  | .write lead w rest => by
    rw [Code.before, Code.tokens, Code.text, ← rest.text_tokens]
    simp only [List.append_assoc]
  | .branch lead head inner body arms gap rest => by
    rw [Code.before, Code.tokens, Code.text, ← body.text_tokens, ← arms.text_tokens, ← rest.text_tokens]
    simp [IfToken.text, Head.opening, closing]

theorem Arms.text_tokens : (a : Arms) → a.tokens.flatMap IfToken.text = a.text
  | .none => rfl
  | .otherwise inner body => by
    rw [Arms.tokens, Arms.text, ← body.text_tokens]
    simp [IfToken.text, elseOpening]
  | .elsif head inner body arms => by
    rw [Arms.tokens, Arms.text, ← body.text_tokens, ← arms.text_tokens]
    simp [IfToken.text, Head.opening]

end

def Write.block (w : Write) : Block where
  statements := [(.none, .assign w.target w.gap w.expression)]
  tail := .none
  unstructured := by
    have text : (⟨[(.none, .assign w.target w.gap w.expression)], .none⟩ : Program).text =
        (Statement.assign w.target w.gap w.expression).text := by
      simp [Program.text, statementsText, Gap.none]
    rw [text]
    exact w.unstructured

theorem Write.text_block (w : Write) : w.block.text = w.text := by
  simp [Write.block, Program.text, statementsText, Write.text, Gap.none]

theorem Write.misses_ifPart (w : Write) {back : Text} (b : Text) (before : Stops isWord back) :
    Misses ifPart back w.text b := by
  rw [← w.text_block]
  exact w.block.misses b before

theorem Write.stops_reverse (w : Write) (back : Text) : Stops isWord (w.text.reverse ++ back) := by
  obtain ⟨front, same⟩ := (Statement.assign w.target w.gap w.expression).exists_text
  rw [Write.text, same, List.reverse_append]
  exact stops_cons.mpr (by decide)

/-- The branch with the condition of a head and no statements. -/
def Head.branch (h : Head) : Branch := ⟨h.lead, h.guard.toCondition, h.tail, oneSpace, noStatements⟩

theorem Head.isSection (h : Head) : IsSection h.text := isSection_head h.branch

theorem Space.isSection (space : Space) : IsSection space.text := by
  have := isSection_inside space noStatements
  rwa [show space.text ++ noStatements.text = space.text from List.append_nil _] at this

theorem isSection_semicolon (gap : Gap) : IsSection (gap.text ++ [.char ';']) where
  ne_nil := by simp
  start := gap.stops (fun _ => isWord_of_isBlank) (stops_cons.mpr (by decide))
  finish := by
    rw [List.reverse_append]
    exact stops_cons.mpr (by decide)
  misses _ _ := (misses_gap gap _ _).append ⟨ifPart_of_head (by decide) (by decide), trivial⟩

theorem Reads.code {word : IfWord} {spelling lead t before : Text} {tokens : List IfToken}
    (written : (word, spelling) ∈ writtenWords) (isSection : IsSection lead)
    (h : ∀ back, Stops isWord back → skeletonFrom back t = ⟨before, tokens⟩) :
    Reads (spelling ++ (lead ++ t)) (⟨word, spelling, lead ++ before⟩ :: tokens) := by
  intro back stop
  have rest := h (lead.reverse ++ (spelling.reverse ++ back))
    (isSection.finish.append (by simp [isSection.ne_nil]))
  rw [skeletonFrom_word written stop (isSection.start.append isSection.ne_nil),
    skeletonFrom_misses (isSection.misses _ t), rest]

mutual

theorem Code.skeletonFrom_text {t : Text} {tokens : List IfToken} (h : Reads t tokens) :
    (c : Code) → ∀ back, Stops isWord back →
      skeletonFrom back (c.text ++ t) = ⟨c.before, c.tokens ++ tokens⟩
  | .done tail => by
    intro back stop
    rw [Code.text, skeletonFrom_misses (misses_gap tail back t), h _ (tail.stops_reverse stop),
      List.append_nil]
    rfl
  | .write lead w rest => by
    intro back stop
    have later := rest.skeletonFrom_text h _ (w.stops_reverse (lead.text.reverse ++ back))
    simp only [Code.text, List.append_assoc]
    rw [skeletonFrom_misses (misses_gap lead back _),
      skeletonFrom_misses (w.misses_ifPart _ (lead.stops_reverse stop)), later]
    rfl
  | .branch lead head inner body arms gap rest => by
    intro back stop
    have ends : Reads (closing gap ++ (rest.text ++ t))
        (⟨.endIf, "END_IF".toText, gap.text ++ .char ';' :: rest.before⟩ :: (rest.tokens ++ tokens)) := by
      have := Reads.code (by decide : (IfWord.endIf, "END_IF".toText) ∈ writtenWords)
        (isSection_semicolon gap) (rest.skeletonFrom_text h)
      simpa [closing] using this
    have arms' := arms.reads_text ends
    have body' := Reads.code (by decide : (IfWord.then, "THEN".toText) ∈ writtenWords) inner.isSection
      (body.skeletonFrom_text arms')
    have whole := Reads.section (by decide : (IfWord.if, "IF".toText) ∈ writtenWords) head.isSection body'
      _ (lead.stops_reverse stop)
    have text : (Code.branch lead head inner body arms gap rest).text ++ t = lead.text ++
        ("IF".toText ++ (head.text ++ ("THEN".toText ++ (inner.text ++ (body.text ++ (arms.text ++
          (closing gap ++ (rest.text ++ t)))))))) := by
      simp [Code.text, Head.opening]
    rw [text, skeletonFrom_misses (misses_gap lead back _), whole]
    simp [Code.before, Code.tokens]

theorem Arms.reads_text {t : Text} {tokens : List IfToken} (h : Reads t tokens) :
    (a : Arms) → Reads (a.text ++ t) (a.tokens ++ tokens)
  | .none => h
  | .otherwise inner body => by
    have := Reads.code (by decide : (IfWord.else, "ELSE".toText) ∈ writtenWords) inner.isSection
      (body.skeletonFrom_text h)
    simpa [Arms.text, Arms.tokens, elseOpening] using this
  | .elsif head inner body arms => by
    have body' := Reads.code (by decide : (IfWord.then, "THEN".toText) ∈ writtenWords) inner.isSection
      (body.skeletonFrom_text (arms.reads_text h))
    have := Reads.section (by decide : (IfWord.elsif, "ELSIF".toText) ∈ writtenWords) head.isSection body'
    simpa [Arms.text, Arms.tokens, Head.opening] using this

end

theorem ofText_code (c : Code) : Skeleton.ofText c.text = ⟨c.before, c.tokens⟩ := by
  have nothing : Reads [] [] := fun _ _ => rfl
  have := c.skeletonFrom_text nothing [] stops_nil
  rwa [List.append_nil, List.append_nil] at this

/-! ## Splitting -/

section

variable (before : Text) (phase : IfBlock.Phase) (depth : Nat) (text : Text)
  (branches : List (Text × Text)) (rest : List IfToken) (spelling after : Text)

/-- An `IF` goes deeper. -/
theorem close?_if : IfBlock.close? before phase depth text branches (⟨.if, spelling, after⟩ :: rest) =
    IfBlock.close? before phase (depth + 1) (text ++ (spelling ++ after)) branches rest := rfl

/-- An `END_IF` in an inner structure comes back. -/
theorem close?_endIf :
    IfBlock.close? before phase (depth + 1) text branches (⟨.endIf, spelling, after⟩ :: rest) =
      IfBlock.close? before phase depth (text ++ (spelling ++ after)) branches rest := rfl

theorem close?_inner {word : IfWord} (opens : word ≠ .if) (ends : word ≠ .endIf) :
    IfBlock.close? before phase (depth + 1) text branches (⟨word, spelling, after⟩ :: rest) =
      IfBlock.close? before phase (depth + 1) (text ++ (spelling ++ after)) branches rest := by
  rw [IfBlock.close?, if_neg opens, if_pos (Nat.succ_pos depth), if_neg ends]
  rfl

end

mutual

/-- The words of whole structures are passed over, at any depth: the depth at their end is the one at
their start. -/
theorem Code.close?_tokens (before : Text) (phase : IfBlock.Phase) (branches : List (Text × Text))
    (tokens : List IfToken) : (c : Code) → ∀ depth text,
      IfBlock.close? before phase depth text branches (c.tokens ++ tokens) =
        IfBlock.close? before phase depth (text ++ c.tokens.flatMap IfToken.text) branches tokens
  | .done _ => by
    intro depth text
    simp [Code.tokens]
  | .write _ _ rest => rest.close?_tokens before phase branches tokens
  | .branch _ head inner body arms gap rest => by
    intro depth text
    simp only [Code.tokens, List.cons_append, List.append_assoc]
    rw [close?_if, close?_inner _ _ _ _ _ _ _ _ (by decide) (by decide), body.close?_tokens,
      arms.close?_tokens, close?_endIf, rest.close?_tokens]
    simp [IfToken.text]

theorem Arms.close?_tokens (before : Text) (phase : IfBlock.Phase) (branches : List (Text × Text))
    (tokens : List IfToken) : (a : Arms) → ∀ depth text,
      IfBlock.close? before phase (depth + 1) text branches (a.tokens ++ tokens) =
        IfBlock.close? before phase (depth + 1) (text ++ a.tokens.flatMap IfToken.text) branches tokens
  | .none => by
    intro depth text
    simp [Arms.tokens]
  | .otherwise inner body => by
    intro depth text
    simp only [Arms.tokens, List.cons_append]
    rw [close?_inner _ _ _ _ _ _ _ _ (by decide) (by decide), body.close?_tokens]
    simp [IfToken.text]
  | .elsif head inner body arms => by
    intro depth text
    simp only [Arms.tokens, List.cons_append, List.append_assoc]
    rw [close?_inner _ _ _ _ _ _ _ _ (by decide) (by decide),
      close?_inner _ _ _ _ _ _ _ _ (by decide) (by decide), body.close?_tokens, arms.close?_tokens]
    simp [IfToken.text]

end

/-- The conditions of what follows the first body, with their bodies. -/
def Arms.branches : Arms → List (Head × Space × Code)
  | .none | .otherwise .. => []
  | .elsif head inner body arms => (head, inner, body) :: arms.branches

def Arms.otherwise? : Arms → Option (Space × Code)
  | .none => Option.none
  | .otherwise inner body => some (inner, body)
  | .elsif _ _ _ arms => arms.otherwise?

/-- A body as it is read: the text behind `THEN` or `ELSE`. -/
def bodyText (inner : Space) (body : Code) : Text := inner.text ++ body.text

def branchParts : Head × Space × Code → Text × Text
  | (head, inner, body) => (head.guard.text, bodyText inner body)

def otherwiseParts (o : Option (Space × Code)) : Option Text := o.map fun (inner, body) => bodyText inner body

theorem Head.trim_text (h : Head) : h.text.trim = h.guard.text := trim_head h.branch

theorem close?_then (before : Text) (h : Head) (inner : Space) (body : Code) (done : List (Text × Text))
    (tokens : List IfToken) :
    IfBlock.close? before .condition 0 h.text done
        (⟨.then, "THEN".toText, inner.text ++ body.before⟩ :: (body.tokens ++ tokens)) =
      IfBlock.close? before (.body h.guard.text) 0 (bodyText inner body) done tokens := by
  have solid : h.guard.text.isEmpty = false := by
    rw [List.isEmpty_eq_false_iff]
    exact h.guard.ne_nil
  have start : IfBlock.close? before .condition 0 h.text done
        (⟨.then, "THEN".toText, inner.text ++ body.before⟩ :: (body.tokens ++ tokens)) =
      IfBlock.close? before (.body h.guard.text) 0 (inner.text ++ body.before) done
        (body.tokens ++ tokens) := by
    simp [IfBlock.close?, Head.trim_text, solid]
  rw [start, body.close?_tokens, List.append_assoc, body.text_tokens]
  rfl

section

variable (before : Text) (gap : Gap) (rest : Code) (done : List (Text × Text))

/-- The word that ends a structure, with the code behind it. -/
def endTokens : List IfToken :=
  ⟨.endIf, "END_IF".toText, gap.text ++ .char ';' :: rest.before⟩ :: rest.tokens

theorem dropSemicolon_end : IfBlock.dropSemicolon (gap.text ++ .char ';' :: rest.before ++
    rest.tokens.flatMap IfToken.text) = rest.text := by
  rw [List.append_assoc, List.cons_append, dropSemicolon_gap, rest.text_tokens]

theorem close?_end_body (c text : Text) :
    IfBlock.close? before (.body c) 0 text done (endTokens gap rest) =
      some ⟨before, done ++ [(c, text)], none, rest.text⟩ := by
  have remaining := dropSemicolon_end gap rest
  simp only [endTokens, IfBlock.close?, remaining]
  rfl

theorem close?_end_otherwise (text : Text) :
    IfBlock.close? before .otherwise 0 text done (endTokens gap rest) =
      some ⟨before, done, some text, rest.text⟩ := by
  have remaining := dropSemicolon_end gap rest
  simp only [endTokens, IfBlock.close?, remaining]
  rfl

end

theorem Arms.close?_body (before : Text) (gap : Gap) (rest : Code) : (a : Arms) → ∀ c text done,
    IfBlock.close? before (.body c) 0 text done (a.tokens ++ endTokens gap rest) =
      some ⟨before, done ++ (c, text) :: a.branches.map branchParts, otherwiseParts a.otherwise?, rest.text⟩
  | .none => by
    intro c text done
    exact close?_end_body before gap rest done c text
  | .otherwise inner body => by
    intro c text done
    have start : IfBlock.close? before (.body c) 0 text done
          ((Arms.otherwise inner body).tokens ++ endTokens gap rest) =
        IfBlock.close? before .otherwise 0 (inner.text ++ body.before) (done ++ [(c, text)])
          (body.tokens ++ endTokens gap rest) := rfl
    rw [start, body.close?_tokens, close?_end_otherwise, List.append_assoc, body.text_tokens]
    rfl
  | .elsif head inner body arms => by
    intro c text done
    have start : IfBlock.close? before (.body c) 0 text done
          ((Arms.elsif head inner body arms).tokens ++ endTokens gap rest) =
        IfBlock.close? before .condition 0 head.text (done ++ [(c, text)])
          (⟨.then, "THEN".toText, inner.text ++ body.before⟩ ::
            (body.tokens ++ (arms.tokens ++ endTokens gap rest))) := by
      simp only [Arms.tokens, List.cons_append, List.append_assoc]
      rfl
    rw [start, close?_then, arms.close?_body, List.append_assoc]
    rfl

/-- The code before the first structure that is not in another. -/
def Code.front : Code → Code
  | .done tail => .done tail
  | .write lead w rest => .write lead w rest.front
  | .branch lead .. => .done lead

def Code.branches : Code → List (Head × Space × Code)
  | .done _ => []
  | .write _ _ rest => rest.branches
  | .branch _ head inner body arms _ _ => (head, inner, body) :: arms.branches

def Code.otherwise? : Code → Option (Space × Code)
  | .done _ => none
  | .write _ _ rest => rest.otherwise?
  | .branch _ _ _ _ arms _ _ => arms.otherwise?

/-- The code behind the first structure, if there is one. -/
def Code.after? : Code → Option Code
  | .done _ => none
  | .write _ _ rest => rest.after?
  | .branch _ _ _ _ _ _ rest => some rest

theorem Code.firstOf?_tokens : (c : Code) → ∀ lead,
    IfBlock.firstOf? (lead ++ c.before) c.tokens = c.after?.map fun after =>
      ⟨lead ++ c.front.text, c.branches.map branchParts, otherwiseParts c.otherwise?, after.text⟩
  | .done tail => by
    intro lead
    rfl
  | .write gap w rest => by
    intro lead
    have later := rest.firstOf?_tokens (lead ++ (gap.text ++ w.text))
    simp only [List.append_assoc] at later
    simp only [Code.before, Code.tokens, Code.after?, Code.front, Code.text, Code.branches,
      Code.otherwise?]
    exact later
  | .branch gap head inner body arms gap' rest => by
    intro lead
    have start : IfBlock.firstOf? (lead ++ (Code.branch gap head inner body arms gap' rest).before)
          (Code.branch gap head inner body arms gap' rest).tokens =
        IfBlock.close? (lead ++ gap.text) .condition 0 head.text []
          (⟨.then, "THEN".toText, inner.text ++ body.before⟩ ::
            (body.tokens ++ (arms.tokens ++ endTokens gap' rest))) := rfl
    rw [start, close?_then, arms.close?_body]
    rfl

/-- The text of code is split at its first structure. What stands in the bodies and behind the structure
is kept as it is. -/
theorem split?_code (c : Code) : IfBlock.split? c.text = c.after?.map fun after =>
    ⟨c.front.text, c.branches.map branchParts, otherwiseParts c.otherwise?, after.text⟩ := by
  have := c.firstOf?_tokens []
  simp only [List.nil_append] at this
  rw [IfBlock.split?, ofText_code]
  exact this

end SclNarrator.Program
