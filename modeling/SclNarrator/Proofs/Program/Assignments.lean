import SclNarrator.Proofs.Program.Calls
import SclNarrator.Proofs.Run.Assign

/-!
The assignments that are found in the text of a program are the assignments of its statements.

What is proved:
  1. a call that stays in the text may hold something that looks like an assignment, namely its last
     argument with the `;` behind it. It starts inside of the parentheses of the call and ends with the
     call, so it is left out and the next statement is not touched (`topLevel_arguments`);
  2. so the assignments of the text are those of the statements (`assignments_text`), and carrying out
     the text of a program carries out its assignments (`carried_assignmentsOf_text`).

Correspondence (analyzer ↔ here):
  `execute_assignments`        ↔ `Run.assignmentsOf`
  `_strip_calls`, `_ASSIGN_RE` ↔ `Source.stripCalls`, `Source.assignment`
-/

namespace SclNarrator.Program

open Source (assignment topLevel)
open Text (Misses cutFrom)

/-! ## The pattern -/

theorem dropOne_dropOne {c : CodePoint} {t : Text} (quote : c ≠ '"') (hash : c ≠ '#') :
    Source.dropOne '"' (Source.dropOne '#' (c :: t)) = c :: t := by
  rw [@dropOne_of_head '#' (c :: t) (by simpa using hash), dropOne_of_head (by simpa using quote)]

theorem assignment_of_no_target {back t : Text} (h : Source.target? t = none) :
    assignment back t = none := by
  simp only [assignment, h]

theorem assignment_of_head {c : CodePoint} {t back : Text} (quote : c ≠ '"') (hash : c ≠ '#')
    (start : isNameStart c = false) : assignment back (c :: t) = none := by
  apply assignment_of_no_target
  rw [Source.target?, dropOne_dropOne quote hash, Source.identifier?,
    if_neg (by simp [start])]

theorem misses_assignment_gap (gap : Gap) (back rest : Text) :
    Misses assignment back gap.text rest := by
  refine Text.misses_of_ends fun x y same ne => ?_
  obtain ⟨c, y, rfl⟩ := List.exists_cons_of_ne_nil ne
  have blank := gap.isBlank (same ▸ List.mem_append_right x List.mem_cons_self)
  have := forall_blank (P := fun c => c != '"' && c != '#' && !isNameStart c) (by decide) blank
  simp only [Bool.and_eq_true, bne_iff_ne, Bool.not_eq_true'] at this
  exact assignment_of_head this.1.1 this.1.2 this.2

/-- The end of a name is a plain identifier, unless it starts with a digit. -/
theorem identifier?_name (name : Name) {x y b : Text} {c : CodePoint}
    (inside : name.text = x ++ c :: y) (stop : Stops isNameChar b) :
    Source.identifier? (c :: y ++ b) = if isNameStart c then some (c :: y, b) else none := by
  have chars : ∀ d ∈ y, isNameChar d = true := fun d mem =>
    name.isNameChar (inside ▸ List.mem_append_right x (List.mem_cons_of_mem c mem))
  rw [List.cons_append, Source.identifier?, takeWhile_append_of_stops chars stop,
    dropWhile_append_of_stops chars stop]

theorem target?_name (name : Name) {x y b : Text} {c : CodePoint}
    (inside : name.text = x ++ c :: y) (stop : Stops isNameChar b) (quote : b.head? ≠ some (.char '"')) :
    Source.target? (c :: y ++ b) =
      if isNameStart c then
        match b.dropWhile isBlank with
        | .char ':' :: .char '=' :: body => some (c :: y, body)
        | _ => none
      else none := by
  have char := name.isNameChar (inside ▸ List.mem_append_right x List.mem_cons_self)
  have hash : c ≠ '#' := ne_of_isNameChar char (by decide)
  have noQuote : c ≠ '"' := ne_of_isNameChar char (by decide)
  rw [Source.target?, List.cons_append, dropOne_dropOne noQuote hash, ← List.cons_append,
    identifier?_name name inside stop]
  by_cases start : isNameStart c
  · have bare := dropOne_of_head quote
    simp only [if_pos start]
    generalize Source.dropOne '"' b = rest at bare ⊢
    subst bare
    rfl
  · simp only [if_neg start]

theorem stops_isNameChar (gap : Gap) {b : Text} (h : Stops isNameChar b) :
    Stops isNameChar (gap.text ++ b) := by
  refine gap.stops (fun c blank => ?_) h
  rw [Bool.eq_false_iff]
  intro char
  rw [isBlank_of_isWord (isWord_of_isNameChar char)] at blank
  cases blank

theorem head?_gap_ne (gap : Gap) {b : Text} {c : CodePoint} (noBlank : isBlank c = false)
    (h : b.head? ≠ some c) : (gap.text ++ b).head? ≠ some c := by
  refine head?_append_ne (fun mem => ?_) h
  rw [gap.isBlank mem] at noBlank
  cases noBlank

theorem statement?_append {e : Text} (rest : Text)
    (plain : ∀ c ∈ e, c ≠ '\'' ∧ c ≠ ';' ∧ c ≠ ':') :
    Source.statement? false (e ++ .char ';' :: rest) = some (e, rest) := by
  induction e with
  | nil => rfl
  | cons c e ih =>
    obtain ⟨quote, semicolon, colon⟩ := plain c List.mem_cons_self
    rw [List.cons_append, Source.statement?, if_neg (by simp), if_neg semicolon,
      if_neg (fun h => colon h.1), beq_false_of_ne quote,
      ih fun d mem => plain d (List.mem_cons_of_mem _ mem)]
    rfl

theorem assignment_found (target : Name) (gap : Gap) (e : Operand) (back rest : Text) :
    assignment back ((Statement.assign target gap e).text ++ rest) =
      some (⟨target.text, e.text.trim⟩, rest) := by
  have text : (Statement.assign target gap e).text ++ rest = target.text ++ (gap.text ++
      .char ':' :: .char '=' :: (e.text ++ .char ';' :: rest)) := by
    simp [Statement.text]
  obtain ⟨c, name, same, start, -⟩ := target.cases
  have found := target?_name target (x := []) (b := gap.text ++ .char ':' :: .char '=' ::
    (e.text ++ .char ';' :: rest)) same (stops_isNameChar gap (stops_cons.mpr (by decide)))
    (head?_gap_ne gap (by decide) (by simp))
  rw [if_pos start, dropWhile_append_of_stops (fun _ => gap.isBlank) (stops_cons.mpr (by decide)),
    ← same] at found
  have plain : ∀ c ∈ e.text, c ≠ '\'' ∧ c ≠ ';' ∧ c ≠ ':' := fun c mem => by
    have := e.isOperandChar mem
    simp only [isOperandChar, Bool.and_eq_true, bne_iff_ne] at this
    exact ⟨this.1.1.1, this.1.2, this.2⟩
  rw [text]
  obtain ⟨d, more, nonempty⟩ := List.exists_cons_of_ne_nil e.ne_nil
  simp only [assignment, found, statement?_append rest plain]
  rw [nonempty]

/-! ## Arguments -/

/-- A statement that is read in a text without `;` and literals ends with the `;` behind the text. -/
theorem statement?_end {e body rest after : Text} (plain : ∀ c ∈ e, c ≠ '\'' ∧ c ≠ ';')
    (h : Source.statement? false (e ++ .char ';' :: rest) = some (body, after)) : after = rest := by
  induction e generalizing body with
  | nil =>
    simp only [List.nil_append, Source.statement?] at h
    cases h
    rfl
  | cons c e ih =>
    obtain ⟨quote, semicolon⟩ := plain c List.mem_cons_self
    rw [List.cons_append, Source.statement?, if_neg (by simp), if_neg semicolon] at h
    split at h
    · cases h
    · rw [beq_false_of_ne quote] at h
      obtain ⟨⟨body, after⟩, inner, same⟩ := Option.map_eq_some_iff.mp h
      cases same
      exact ih (fun d mem => plain d (List.mem_cons_of_mem _ mem)) inner

theorem leaves_identifier? {y b name rest : Text} (stop : Stops isNameChar b)
    (h : Source.identifier? (y ++ b) = some (name, rest)) : Leaves y b rest := by
  cases y with
  | nil =>
    cases b with
    | nil => cases h
    | cons c b =>
      rw [List.nil_append, Source.identifier?, if_neg] at h
      · cases h
      · intro start
        have char := isNameChar_of_isNameStart start
        rw [stops_cons.mp stop] at char
        cases char
  | cons c y =>
    rw [List.cons_append, Source.identifier?] at h
    split at h
    · cases h
      exact (leaves_dropWhile y stop).cons c
    · cases h

/-- The target that starts before a `;` has its `:=` there, too. -/
theorem leaves_target? {y rest name body : Text}
    (h : Source.target? (y ++ .char ';' :: rest) = some (name, body)) :
    Leaves y (.char ';' :: rest) body := by
  obtain ⟨x, y, rfl, hash⟩ := leaves_dropOne (c := '#') y (b := .char ';' :: rest) (by simp)
  obtain ⟨x', y, rfl, quote⟩ := leaves_dropOne (c := '"') y (b := .char ';' :: rest) (by simp)
  rw [Source.target?, hash, quote] at h
  split at h
  · cases h
  · next found after identifier =>
    obtain ⟨u, v, rfl, rfl⟩ := leaves_identifier? (stops_cons.mpr (by decide)) identifier
    obtain ⟨u', v, rfl, quote'⟩ := leaves_dropOne (c := '"') v (b := .char ';' :: rest) (by simp)
    obtain ⟨u'', v, rfl, blanks⟩ := leaves_dropWhile (p := isBlank) v (b := .char ';' :: rest)
      (stops_cons.mpr (by decide))
    rw [quote', blanks] at h
    split at h
    · next body' same =>
      cases h
      -- neither mark of the arrow is the `;`
      match v, same with
      | _ :: _ :: v, same =>
        simp only [List.cons_append, List.cons.injEq] at same
        obtain ⟨rfl, rfl, rfl⟩ := same
        exact ⟨x ++ (x' ++ (u ++ (u' ++ (u'' ++ [.char ':', .char '='])))), v, by simp, rfl⟩
    · cases h

/-- An assignment that starts in a text without `;` and literals ends with the `;` behind it. -/
theorem assignment_end {y rest back after : Text} {a : Source.Assignment}
    (plain : ∀ c ∈ y, c ≠ '\'' ∧ c ≠ ';')
    (h : assignment back (y ++ .char ';' :: rest) = some (a, after)) : after = rest := by
  unfold assignment at h
  split at h
  · cases h
  · next name body target =>
    obtain ⟨u, v, rfl, rfl⟩ := leaves_target? target
    split at h
    · cases h
    · cases h
    · next expression after' _ statement =>
      cases h
      exact statement?_end (fun c mem => plain c (List.mem_append_right u mem)) statement

/-! ## Pieces outside of parentheses -/

theorem cutFrom_assignment (skip : Nat) (back t : Text) :
    cutFrom assignment skip back t = cutFrom assignment skip [] t := by
  induction t generalizing skip back with
  | nil => rfl
  | cons c t ih =>
    cases skip with
    | succ n => rw [cutFrom, cutFrom, ih n (c :: back), ih n [c]]
    | zero =>
      have here : assignment back (c :: t) = assignment [] (c :: t) := rfl
      simp only [cutFrom, here]
      split
      · rw [ih 0 (c :: back), ih 0 [c]]
      · rw [ih _ (c :: back), ih _ [c], ih 0 (c :: back), ih 0 [c]]

theorem topLevel_plain (balance : Int) (a : Text) (pieces : List (Piece Source.Assignment)) :
    topLevel balance (a.map .plain ++ pieces) = topLevel (balance + Source.parenBalance a) pieces := by
  induction a generalizing balance with
  | nil => simp
  | cons c a ih =>
    rw [List.map_cons, List.cons_append, topLevel, ih]
    simp only [Piece.text]
    rw [Int.add_assoc, ← parenBalance_append]
    rfl

theorem topLevel_misses (balance : Int) {a b : Text} (h : Misses assignment [] a b) :
    topLevel balance (Text.cut assignment (a ++ b)) =
      topLevel (balance + Source.parenBalance a) (Text.cut assignment b) := by
  rw [Text.cut, Text.cutFrom_misses h, topLevel_plain, cutFrom_assignment]
  rfl

theorem topLevel_found (balance : Int) {a b : Text} {v : Source.Assignment} (ne : a ≠ [])
    (h : assignment [] (a ++ b) = some (v, b)) :
    topLevel balance (Text.cut assignment (a ++ b)) =
      (if 0 < balance then [] else [v]) ++
        topLevel (balance + Source.parenBalance a) (Text.cut assignment b) := by
  rw [Text.cut, Text.cutFrom_found ne h, cutFrom_assignment, topLevel]
  split
  · rfl
  · rfl

theorem misses_assignment_closing (tail : Gap) (back rest : Text) :
    Misses assignment back (.char ')' :: (tail.text ++ [.char ';'])) rest :=
  ⟨assignment_of_head (by decide) (by decide) (by decide), (misses_assignment_gap tail _ _).append
    ⟨assignment_of_head (by decide) (by decide) (by decide), trivial⟩⟩

theorem parenBalance_flat {t : Text} (h : ∀ c ∈ t, isFlat c = true) : Source.parenBalance t = 0 := by
  have nested : nestedFrom 0 (t ++ []) = true := nestedFrom_flat h
  rw [List.append_nil] at nested
  simpa using parenBalance_of_nested nested

theorem parenBalance_closing (tail : Gap) :
    Source.parenBalance (.char ')' :: (tail.text ++ [.char ';'])) = -1 := by
  have flat : ∀ c ∈ tail.text ++ [.char ';'], isFlat c = true := by
    simpa [or_imp, forall_and] using ⟨fun c => tail.isFlat, by decide⟩
  rw [parenBalance_cons, parenBalance_flat flat]
  rfl

/-- What is left of a call behind its opening parenthesis holds no assignment, and the scan goes on
behind the call. -/
theorem topLevel_arguments {depth : Nat} {t : Text} (tail : Gap) (rest : Text)
    (nested : nestedFrom depth t = true) (plain : ∀ c ∈ t, c ≠ '\'' ∧ c ≠ ';') :
    topLevel (depth + 1) (Text.cut assignment (t ++ .char ')' :: (tail.text ++ .char ';' :: rest))) =
      topLevel 0 (Text.cut assignment rest) := by
  induction t generalizing depth with
  | nil =>
    have outer : depth = 0 := by simpa [nestedFrom] using nested
    have := topLevel_misses (depth + 1) (misses_assignment_closing tail [] rest)
    rw [parenBalance_closing, outer] at this
    simpa [outer] using this
  | cons c t ih =>
    have inner : ∀ d ∈ t, d ≠ '\'' ∧ d ≠ ';' := fun d mem => plain d (List.mem_cons_of_mem _ mem)
    cases here : assignment [] (c :: (t ++ .char ')' :: (tail.text ++ .char ';' :: rest))) with
    | none =>
      have single : Misses assignment [] [c] (t ++ .char ')' :: (tail.text ++ .char ';' :: rest)) :=
        ⟨here, trivial⟩
      rw [List.cons_append, ← List.singleton_append, topLevel_misses _ single, parenBalance_cons]
      simp only [nestedFrom] at nested
      split at nested
      · next opens =>
        rw [if_pos opens, ← ih nested inner]
        simp [Int.add_assoc]
      · next notOpen =>
        rw [if_neg notOpen]
        split at nested
        · next closes =>
          simp only [Bool.and_eq_true, bne_iff_ne, ne_eq] at nested
          have level : (depth : Int) + 1 + (-1 + 0) = ((depth - 1 : Nat) : Int) + 1 := by omega
          rw [if_pos closes, parenBalance_nil, level, ih nested.2 inner]
        · next notClose =>
          rw [if_neg notClose, parenBalance_nil, Int.add_zero, Int.add_zero, ih nested inner]
    | some found =>
      obtain ⟨v, after⟩ := found
      -- the match takes the rest of the call, and it starts inside of the parentheses
      have ends : after = rest := by
        refine assignment_end (y := c :: t ++ .char ')' :: tail.text) (fun d mem => ?_)
          (by simpa using here)
        rcases List.mem_append.mp mem with mem | mem
        · exact plain d mem
        · rcases List.mem_cons.mp mem with rfl | mem
          · decide
          · have := forall_blank (P := fun c => c != '\'' && c != ';') (by decide)
              (tail.isBlank mem)
            simpa using this
      have whole : c :: t ++ .char ')' :: (tail.text ++ .char ';' :: rest) =
          (c :: t ++ .char ')' :: (tail.text ++ [.char ';'])) ++ rest := by simp
      rw [ends, ← List.cons_append, whole] at here
      rw [whole, topLevel_found _ (by simp) here, if_pos (by omega), parenBalance_append,
        parenBalance_of_nested nested, parenBalance_closing]
      have level : (depth : Int) + 1 + (-depth + -1) = 0 := by omega
      rw [level, List.nil_append]

/-! ## Statements -/

theorem misses_assignment_callee (callee : Name) (gap : Gap) (rest : Text) :
    Misses assignment [] callee.text (gap.text ++ .char '(' :: rest) := by
  refine Text.misses_of_ends fun x y same ne => assignment_of_no_target ?_
  obtain ⟨c, y, rfl⟩ := List.exists_cons_of_ne_nil ne
  rw [target?_name callee same (stops_isNameChar gap (stops_cons.mpr (by decide)))
    (head?_gap_ne gap (by decide) (by simp)), dropWhile_opening]
  split <;> rfl

/-- No argument has a quote or a `;`. -/
theorem Argument.plain (a : Argument) : ∀ c ∈ a.text, c ≠ '\'' ∧ c ≠ ';' := by
  have gap : ∀ (gap : Gap), ∀ c ∈ gap.text, c ≠ '\'' ∧ c ≠ ';' := fun gap c mem => by
    have := forall_blank (P := fun c => c != '\'' && c != ';') (by decide) (gap.isBlank mem)
    simpa using this
  have name : ∀ c ∈ a.name.text, c ≠ '\'' ∧ c ≠ ';' := fun c mem =>
    have char := a.name.isNameChar mem
    ⟨ne_of_isNameChar char (by decide), ne_of_isNameChar char (by decide)⟩
  have arrow : ∀ c ∈ a.arrow, c ≠ '\'' ∧ c ≠ ';' := by
    unfold Argument.arrow
    cases a.output <;> decide
  have operand : ∀ c ∈ a.operand.text, c ≠ '\'' ∧ c ≠ ';' := fun c mem => by
    have := a.operand.isOperandChar mem
    simp only [isOperandChar, Bool.and_eq_true, bne_iff_ne] at this
    exact ⟨this.1.1.1, this.1.2⟩
  intro c mem
  simp only [Argument.text, List.mem_append] at mem
  rcases mem with mem | mem | mem | mem | mem
  · exact gap _ c mem
  · exact name c mem
  · exact gap _ c mem
  · exact arrow c mem
  · exact operand c mem

theorem plain_argumentsText (first : Argument) (more : List Argument) :
    ∀ c ∈ argumentsText first more, c ≠ '\'' ∧ c ≠ ';' := by
  induction more generalizing first with
  | nil => exact first.plain
  | cons next more ih =>
    intro c mem
    rcases List.mem_append.mp mem with mem | mem
    · exact first.plain c mem
    · rcases List.mem_cons.mp mem with rfl | mem
      · decide
      · exact ih next c mem

theorem parenBalance_assign (target : Name) (gap : Gap) (e : Operand) :
    Source.parenBalance (Statement.assign target gap e).text = 0 := by
  have arrow : ∀ t, Source.parenBalance (.char ':' :: .char '=' :: t) = Source.parenBalance t := fun t => by
    simp [parenBalance_cons]
  rw [Statement.text, parenBalance_append, parenBalance_append, arrow, parenBalance_append,
    parenBalance_flat fun c => target.isFlat, parenBalance_flat fun c => gap.isFlat,
    parenBalance_of_nested e.nested]
  rfl

theorem topLevel_statement (s : Statement) (rest : Text) :
    topLevel 0 (Text.cut assignment (s.stripped ++ rest)) =
      s.assignment?.toList ++ topLevel 0 (Text.cut assignment rest) := by
  cases s with
  | assign target gap e =>
    have ne : (Statement.assign target gap e).text ≠ [] := by simp [Statement.text]
    rw [Statement.stripped, topLevel_found 0 ne (assignment_found target gap e [] rest),
      parenBalance_assign]
    rfl
  | call callee gap first more tail =>
    rw [Statement.stripped]
    split
    · rfl
    · have opening : Misses assignment [] [.char '(']
          (argumentsText first more ++ .char ')' :: (tail.text ++ .char ';' :: rest)) :=
        ⟨assignment_of_head (by decide) (by decide) (by decide), trivial⟩
      rw [text_call_append, topLevel_misses 0 (misses_assignment_callee callee gap _),
        topLevel_misses _ (misses_assignment_gap gap [] _), ← List.singleton_append,
        topLevel_misses _ opening,
        parenBalance_flat fun c => callee.isFlat, parenBalance_flat fun c => gap.isFlat]
      exact topLevel_arguments tail rest (nested_argumentsText first more)
        (plain_argumentsText first more)

theorem topLevel_gap (gap : Gap) (rest : Text) :
    topLevel 0 (Text.cut assignment (gap.text ++ rest)) = topLevel 0 (Text.cut assignment rest) := by
  rw [topLevel_misses 0 (misses_assignment_gap gap [] rest), parenBalance_flat fun c => gap.isFlat]
  rfl

theorem topLevel_statements (statements : List (Gap × Statement)) (tail : Gap) :
    topLevel 0 (Text.cut assignment
        ((statements.flatMap fun (gap, s) => gap.text ++ s.stripped) ++ tail.text)) =
      statements.filterMap fun (_, s) => s.assignment? := by
  induction statements with
  | nil =>
    have := topLevel_gap tail []
    rw [List.append_nil] at this
    exact this
  | cons head statements ih =>
    obtain ⟨gap, s⟩ := head
    rw [List.flatMap_cons, List.append_assoc, List.append_assoc, topLevel_gap, topLevel_statement, ih]
    cases found : s.assignment? <;> simp [found]

/-- The assignments that are found in the text of a program are those of its statements. -/
theorem assignments_text (program : Program) : Source.assignments program.text = program.assignments := by
  rw [Source.assignments, stripCalls_text]
  exact topLevel_statements program.statements program.tail

/-- Carrying out the text of a program carries out its assignments and no argument of a call: each in
the environment that the ones before leave, up to the first fault. What is recorded is a first part of
the program's assignments, and all of them if there is no fault. -/
theorem carried_assignmentsOf_text (program : Program) (run : Run) :
    ∃ made env fault, Carried run.places run.env program.assignments made env fault ∧
      (Run.assignmentsOf program.text run).1.assignments = run.assignments ++ made ∧
      (Run.assignmentsOf program.text run).1.env = env ∧
      (Run.assignmentsOf program.text run).2 = fault ∧
      made.map Assigned.written <+: program.assignments ∧
      (fault = none → made.map Assigned.written = program.assignments) := by
  rw [Run.assignmentsOf, assignments_text]
  obtain ⟨made, carried, records⟩ := Run.carried_assignAll program.assignments run
  refine ⟨made, _, _, carried, records, rfl, rfl, carried.written_prefix, fun done => ?_⟩
  rw [done] at carried
  exact carried.written_eq

end SclNarrator.Program
