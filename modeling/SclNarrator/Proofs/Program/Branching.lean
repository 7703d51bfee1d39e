import SclNarrator.Proofs.Program.Conditional
import SclNarrator.Run.Execute

/-!
What a program around one `IF` structure does. The conditions are told of and tested in the environment
that the code before the structure leaves, up to the first one that holds (`tested`). The body of that
one is carried out, or what is done otherwise (`chosen`), and then the code behind the structure.

What is proved: this is what a run records, binds and tells, with one step that names the choice.
Telling of a condition shows the values of its parts, and a value that cannot be shown stops the run
before any body is carried out (`execute_conditional`).

Asked for: the code before the structure is carried out without a fault; and where no condition stops
the run, so is what is chosen and the code behind it.

Correspondence (analyzer ↔ here):
  `_exec_if`, `_test_condition` ↔ `Run.ifBlock`, `Run.explainCondition`
  `_format_values_used`         ↔ `Run.currentValues`, which `silence?` looks for a fault in
-/

namespace SclNarrator

/-- Whether a condition holds in an environment: its value is the truth value true. -/
def Environment.holds (env : Environment) (condition : Text) : Bool :=
  env.evaluate condition = .bool true

namespace Run

def steppedBy (run : Run) (steps : List Text) : Run := { run with steps := run.steps ++ steps }

/-- The run over the same environment that has recorded nothing. -/
def cleared (run : Run) : Run := { env := run.env, places := run.places }

/-- Whether some work only adds steps, and the same ones whatever was recorded before. -/
def Tells (work : Run → Outcome) : Prop :=
  ∀ run, work run = (run.steppedBy (work run.cleared).1.steps, (work run.cleared).2)

theorem steppedBy_steppedBy (run : Run) (a b : List Text) :
    (run.steppedBy a).steppedBy b = run.steppedBy (a ++ b) := by
  simp [steppedBy]

theorem Tells.both {work : Run → Outcome} (h : Tells work) (run : Run) (before : List Text) :
    ∃ steps fault, work run = (run.steppedBy steps, fault) ∧
      work (run.cleared.steppedBy before) = ((run.cleared.steppedBy before).steppedBy steps, fault) :=
  ⟨_, _, h run, h (run.cleared.steppedBy before)⟩

theorem tells_narrate {text : Run → Except Fault Text} (h : ∀ run, text run.cleared = text run) :
    Tells fun run => run.narrate (text run) := by
  intro run
  simp only [h]
  cases text run with
  | ok t => simp [narrate, steppedBy, step, cleared]
  | error fault => simp [narrate, steppedBy, cleared]

theorem tells_nothing : Tells fun run => (run, none) := by
  intro run
  simp [steppedBy, cleared]

theorem Tells.andThen {first second : Run → Outcome} (hf : Tells first) (hs : Tells second) :
    Tells fun run => (first run).andThen second := by
  intro run
  obtain ⟨steps, fault, whole, alone⟩ := hf.both run []
  have clear : run.cleared.steppedBy [] = run.cleared := rfl
  rw [clear] at alone
  simp only [whole, alone]
  cases fault with
  | some fault => rfl
  | none =>
    obtain ⟨more, last, whole', alone'⟩ := hs.both (run.steppedBy steps) steps
    have clear' : (run.steppedBy steps).cleared = run.cleared := rfl
    rw [clear'] at alone'
    simp only [Outcome.andThen, whole', alone', steppedBy_steppedBy]
    rfl

theorem tells_currentValues (condition : Text) : Tells fun run => run.currentValues condition := by
  intro run
  simp only [currentValues]
  have same : run.cleared.env = run.env := rfl
  rw [same]
  cases mentioned run.env [] (Source.identifiers condition) with
  | nil => exact tells_nothing run
  | cons first more =>
    exact @tells_narrate (fun run => do
      let lines ← (first :: more).mapM run.currentLine
      return Text.join ['\n'] ("Valores atuais:".toText :: lines)) (fun _ => rfl) run

theorem tells_operandValues (condition : Text) : Tells fun run => run.operandValues condition := by
  intro run
  simp only [operandValues]
  split
  · exact tells_nothing run
  · exact @tells_narrate (fun run => do
      let lines ← (Source.logicOperands condition).mapM run.operandLine
      return Text.join ['\n'] ("Avaliação:".toText :: lines)) (fun _ => rfl) run

def conditionValues (condition : Text) (run : Run) : Outcome :=
  (run.currentValues condition).andThen fun run => run.operandValues condition

theorem tells_conditionValues (condition : Text) : Tells (conditionValues condition) :=
  (tells_currentValues condition).andThen (tells_operandValues condition)

end Run

namespace Environment

/-- The run over an environment that has recorded nothing. -/
def run (env : Environment) (places : Nat) : Run := { env, places }

/-- The steps that tell of a condition before its verdict. -/
def explanation (env : Environment) (places : Nat) (keyword condition : Text) : List Text :=
  (keyword ++ " ".toText ++ displayed condition) ::
    ((env.run places).conditionValues condition).1.steps

/-- The fault that keeps the values of a condition from being told. -/
def silence? (env : Environment) (places : Nat) (condition : Text) : Option Fault :=
  ((env.run places).conditionValues condition).2

end Environment

theorem Run.explainCondition_eq (run : Run) (keyword condition : Text) :
    run.explainCondition keyword condition =
      (run.steppedBy (run.env.explanation run.places keyword condition),
        run.env.silence? run.places condition) := by
  have := Run.tells_conditionValues condition (run.step (keyword ++ " ".toText ++ displayed condition))
  rw [Run.explainCondition]
  refine this.trans ?_
  simp [Environment.explanation, Environment.silence?, Run.steppedBy, Run.step, Run.cleared,
    Environment.run]

namespace Run

variable {run : Run} (otherwise : Option Text) (keyword block condition body : Text)
  (rest : List (Text × Text))

theorem branches_of_silent {fault : Fault}
    (silent : run.env.silence? run.places condition = some fault) :
    branches otherwise keyword block ((condition, body) :: rest) run =
      (run.steppedBy (run.env.explanation run.places keyword condition), some fault) := by
  simp only [branches, explainCondition_eq, silent, Outcome.andThen]

theorem branches_of_holds (told : run.env.silence? run.places condition = none)
    (holds : run.env.holds condition = true) :
    branches otherwise keyword block ((condition, body) :: rest) run =
      assignmentsOf body (run.steppedBy (run.env.explanation run.places keyword condition ++
        [verdictStep true, "→ Executa bloco ".toText ++ block])) := by
  have verdict : ∀ steps, (run.steppedBy steps).holds condition = true := fun _ => holds
  simp only [branches, explainCondition_eq, told, Outcome.andThen, verdict, if_true]
  simp [steppedBy, step]

theorem branches_of_fails (told : run.env.silence? run.places condition = none)
    (fails : run.env.holds condition = false) :
    branches otherwise keyword block ((condition, body) :: rest) run =
      branches otherwise "ELSIF".toText "ELSIF".toText rest
        (run.steppedBy (run.env.explanation run.places keyword condition ++ [verdictStep false])) := by
  have verdict : ∀ steps, (run.steppedBy steps).holds condition = false := fun _ => fails
  simp only [branches, explainCondition_eq, told, Outcome.andThen, verdict, Bool.false_eq_true, if_false]
  simp [steppedBy, step]

end Run

/-! ## Steps that do not name a body -/

/-- Whether a step starts like those that name the body that is carried out. -/
def isMarked (t : Text) : Bool := t.head? == some (.char '→')

theorem isMarked_append {a : Text} (ne : a ≠ []) (b : Text) : isMarked (a ++ b) = isMarked a := by
  obtain ⟨c, a, rfl⟩ := List.exists_cons_of_ne_nil ne
  rfl

theorem isMarked_join (title : Text) (lines : List Text) (ne : title ≠ []) :
    isMarked (Text.join ['\n'] (title :: lines)) = isMarked title := by
  cases lines with
  | nil => rfl
  | cons line lines =>
    rw [Text.join, List.append_assoc, isMarked_append ne]

namespace Run

theorem mem_steps_narrate {run : Run} {text : Except Fault Text} {t : Text}
    (mem : t ∈ (run.narrate text).1.steps) : t ∈ run.steps ∨ text = .ok t := by
  cases text with
  | error fault => exact .inl mem
  | ok u =>
    rcases List.mem_append.mp mem with mem | mem
    · exact .inl mem
    · exact .inr (by rw [List.mem_singleton.mp mem])

theorem isMarked_titled {run : Run} {title t : Text} {lines : Except Fault (List Text)}
    (ne : title ≠ []) (plain : isMarked title = false)
    (mem : t ∈ (run.narrate do return Text.join ['\n'] (title :: (← lines))).1.steps) :
    t ∈ run.steps ∨ isMarked t = false := by
  refine (mem_steps_narrate mem).imp_right fun told => ?_
  obtain ⟨ls, -, same⟩ := ok_of_bind told
  cases same
  rw [isMarked_join _ _ ne, plain]

theorem isMarked_currentValues {run : Run} {condition t : Text}
    (mem : t ∈ (run.currentValues condition).1.steps) : t ∈ run.steps ∨ isMarked t = false := by
  unfold currentValues at mem
  split at mem
  · exact .inl mem
  · exact isMarked_titled (by decide) (by decide) mem

theorem isMarked_operandValues {run : Run} {condition t : Text}
    (mem : t ∈ (run.operandValues condition).1.steps) : t ∈ run.steps ∨ isMarked t = false := by
  simp only [operandValues] at mem
  split at mem
  · exact .inl mem
  · exact isMarked_titled (by decide) (by decide) mem

theorem isMarked_conditionValues {run : Run} {condition t : Text}
    (mem : t ∈ (run.conditionValues condition).1.steps) : t ∈ run.steps ∨ isMarked t = false := by
  unfold conditionValues at mem
  have first := @isMarked_currentValues run condition t
  rcases outcome : run.currentValues condition with ⟨next, fault⟩
  rw [outcome] at mem first
  cases fault with
  | some fault => exact first mem
  | none => exact (isMarked_operandValues mem).elim first .inr

end Run

namespace Program

/-- The branches whose conditions are tested: all of them up to the first one that holds. -/
def tested (env : Environment) : List Branch → List Branch
  | [] => []
  | b :: bs => if env.holds b.condition.text then [b] else b :: tested env bs

/-- The assignments of the first body whose condition holds, or of what is done otherwise. -/
def chosen (env : Environment) (otherwise : Option (Space × Block)) : List Branch → List Source.Assignment
  | [] =>
    match otherwise with
    | some (_, body) => body.assignments
    | none => []
  | b :: bs => if env.holds b.condition.text then b.body.assignments else chosen env otherwise bs

/-- The step that names what is done. A body without statements behind `ELSE` counts as none. -/
def choiceStep (env : Environment) (otherwise : Option (Space × Block)) (block : Text) :
    List Branch → Text
  | [] =>
    match otherwise with
    | some (_, body) =>
      if body.statements.isEmpty then "→ Nenhum bloco executado".toText
      else "→ Executa bloco ELSE".toText
    | none => "→ Nenhum bloco executado".toText
  | b :: bs =>
    if env.holds b.condition.text then "→ Executa bloco ".toText ++ block
    else choiceStep env otherwise "ELSIF".toText bs

/-- The steps that tell of conditions, each with its verdict. -/
def narration (env : Environment) (places : Nat) (keyword : Text) : List Branch → List Text
  | [] => []
  | b :: bs =>
    env.explanation places keyword b.condition.text ++
      Run.verdictStep (env.holds b.condition.text) :: narration env places "ELSIF".toText bs

/-- The first fault that keeps a tested condition from being told of. -/
def silence? (env : Environment) (places : Nat) (bs : List Branch) : Option Fault :=
  (tested env bs).findSome? fun b => env.silence? places b.condition.text

def otherwiseInside (otherwise : Option (Space × Block)) : Option Text :=
  otherwise.map fun (inner, body) => inner.text ++ body.text

theorem assignmentsOf_inside (inner : Space) (body : Block) (run : Run) :
    Run.assignmentsOf (inner.text ++ body.text) run = Run.assignAll body.assignments run := by
  rw [Run.assignmentsOf, ← text_indent, assignments_text, assignments_indent]

theorem blank_text (program : Program) : program.text.blank = program.statements.isEmpty := by
  obtain ⟨statements, tail⟩ := program
  cases statements with
  | nil => exact tail.valid
  | cons head more =>
    obtain ⟨gap, s⟩ := head
    obtain ⟨front, text⟩ := s.exists_text
    rw [Text.blank, List.isEmpty_cons, List.all_eq_false]
    refine ⟨.char ';', ?_, by decide⟩
    simp [Program.text, statementsText, text]

theorem blank_inside (inner : Space) (body : Block) :
    Text.blank (inner.text ++ body.text) = body.statements.isEmpty := by
  rw [Text.blank, List.all_append, ← blank_text]
  have lead : inner.text.all isBlank = true := inner.valid
  rw [lead, Bool.true_and]
  rfl

theorem branches_nil (otherwise : Option (Space × Block)) (keyword block : Text) (run : Run) :
    Run.branches (otherwiseInside otherwise) keyword block [] run =
      Run.assignAll (chosen run.env otherwise [])
        (run.step (choiceStep run.env otherwise block [])) := by
  cases otherwise with
  | none => rfl
  | some body =>
    obtain ⟨inner, body⟩ := body
    simp only [otherwiseInside, Option.map_some, Run.branches, chosen, choiceStep]
    rw [assignmentsOf_inside, blank_inside]
    cases statements : body.statements with
    | nil => simp [assignments, statements, Run.assignAll]
    | cons head more => rfl

theorem silence?_cons (env : Environment) (places : Nat) (b : Branch) (bs : List Branch) :
    silence? env places (b :: bs) = (env.silence? places b.condition.text).or
      (if env.holds b.condition.text then none else silence? env places bs) := by
  rw [silence?, tested]
  split
  · rw [List.findSome?_singleton, Option.or_none]
  · rw [List.findSome?_cons, silence?]
    cases env.silence? places b.condition.text with
    | none => simp
    | some fault => simp

/-- If every tested condition can be told of, the tested ones are, and what is chosen is carried out. -/
theorem branches_spoken (otherwise : Option (Space × Block)) (bs : List Branch) (keyword block : Text)
    (run : Run) (spoken : silence? run.env run.places bs = none) :
    Run.branches (otherwiseInside otherwise) keyword block (bs.map Branch.parts) run =
      Run.assignAll (chosen run.env otherwise bs)
        (run.steppedBy (narration run.env run.places keyword (tested run.env bs) ++
          [choiceStep run.env otherwise block bs])) := by
  induction bs generalizing keyword block run with
  | nil => exact branches_nil otherwise keyword block run
  | cons b bs ih =>
    rw [silence?_cons, Option.or_eq_none_iff] at spoken
    obtain ⟨told, later⟩ := spoken
    rw [List.map_cons, Branch.parts]
    cases holds : run.env.holds b.condition.text with
    | true =>
      rw [Run.branches_of_holds _ _ _ _ _ _ told holds, Branch.inside, assignmentsOf_inside]
      simp [chosen, tested, choiceStep, narration, holds]
    | false =>
      rw [holds, if_neg Bool.false_ne_true] at later
      have rest := ih "ELSIF".toText "ELSIF".toText (run.steppedBy
        (run.env.explanation run.places keyword b.condition.text ++ [Run.verdictStep false])) later
      rw [Run.branches_of_fails _ _ _ _ _ _ told holds, rest]
      simp [chosen, tested, choiceStep, narration, holds, Run.steppedBy]

/-- A tested condition that cannot be told of stops the run before any assignment is made. -/
theorem branches_silent (otherwise : Option Text) (bs : List Branch) (keyword block : Text) (run : Run)
    {fault : Fault} (silent : silence? run.env run.places bs = some fault) :
    ∃ steps, Run.branches otherwise keyword block (bs.map Branch.parts) run =
      (run.steppedBy steps, some fault) := by
  induction bs generalizing keyword block run with
  | nil => cases silent
  | cons b bs ih =>
    rw [silence?_cons] at silent
    rw [List.map_cons, Branch.parts]
    cases told : run.env.silence? run.places b.condition.text with
    | some here =>
      rw [told, Option.some_or, Option.some.injEq] at silent
      subst silent
      exact ⟨_, Run.branches_of_silent _ _ _ _ _ _ told⟩
    | none =>
      rw [told, Option.none_or] at silent
      cases holds : run.env.holds b.condition.text with
      | true =>
        rw [holds, if_pos rfl] at silent
        cases silent
      | false =>
        rw [holds, if_neg Bool.false_ne_true] at silent
        obtain ⟨steps, rest⟩ := ih "ELSIF".toText "ELSIF".toText (run.steppedBy
          (run.env.explanation run.places keyword b.condition.text ++ [Run.verdictStep false])) silent
        rw [Run.branches_of_fails _ _ _ _ _ _ told holds, rest, Run.steppedBy_steppedBy]
        exact ⟨_, rfl⟩

/-! ## Whole programs -/

/-- The assignments that a program around an `IF` structure chooses in an environment. -/
def Conditional.chosen (p : Conditional) (env : Environment) : List Source.Assignment :=
  Program.chosen env p.otherwise (p.first :: p.more)

/-- The steps of the conditions that are tested in an environment. -/
def Conditional.narration (p : Conditional) (env : Environment) (places : Nat) : List Text :=
  Program.narration env places "IF".toText (tested env (p.first :: p.more))

/-- The step that names what is chosen in an environment. -/
def Conditional.choiceStep (p : Conditional) (env : Environment) : Text :=
  Program.choiceStep env p.otherwise "THEN".toText (p.first :: p.more)

/-- Whether a step names the body that is carried out, or says that there is none. -/
def isChoice (t : Text) : Bool :=
  Text.startsWith t "→ Executa bloco ".toText || t == "→ Nenhum bloco executado".toText

theorem isChoice_of_unmarked {t : Text} (h : isMarked t = false) : isChoice t = false := by
  rw [isChoice, Bool.or_eq_false_iff, Bool.eq_false_iff, beq_eq_false_iff_ne]
  refine ⟨fun starts => ?_, ?_⟩
  · obtain ⟨rest, same⟩ := Option.isSome_iff_exists.mp starts
    rw [dropPart?_eq_some.mp same, isMarked_append (by decide)] at h
    exact absurd h (by decide)
  · rintro rfl
    exact absurd h (by decide)

theorem isChoice_choiceStep (env : Environment) (otherwise : Option (Space × Block)) (block : Text)
    (bs : List Branch) : isChoice (choiceStep env otherwise block bs) = true := by
  induction bs generalizing block with
  | nil =>
    unfold choiceStep
    split
    · split <;> decide
    · decide
  | cons b bs ih =>
    unfold choiceStep
    split
    · simp [isChoice, Text.startsWith, dropPart?_append]
    · exact ih _

theorem isMarked_narration (env : Environment) (places : Nat) (bs : List Branch) {keyword : Text}
    (ne : keyword ≠ []) (plain : isMarked keyword = false) :
    ∀ t ∈ narration env places keyword bs, isMarked t = false := by
  induction bs generalizing keyword with
  | nil => simp [narration]
  | cons b bs ih =>
    intro t mem
    rcases List.mem_append.mp mem with mem | mem
    · rcases List.mem_cons.mp mem with rfl | mem
      · rw [List.append_assoc, isMarked_append ne, plain]
      · exact (Run.isMarked_conditionValues mem).resolve_left (by simp [Environment.run])
    · rcases List.mem_cons.mp mem with rfl | mem
      · rw [Run.verdictStep, isMarked_append (by decide)]
        decide
      · exact ih (by decide) (by decide) t mem

theorem target_of_mem {program : Program} {a : Source.Assignment} (mem : a ∈ program.assignments) :
    ∃ name : Name, a.target = name.text := by
  obtain ⟨⟨gap, s⟩, -, made⟩ := List.mem_filterMap.mp mem
  cases s with
  | assign target gap e =>
    cases made
    exact ⟨target, rfl⟩
  | call => cases made

theorem target_of_mem_chosen {env : Environment} {otherwise : Option (Space × Block)}
    {bs : List Branch} {a : Source.Assignment} (mem : a ∈ chosen env otherwise bs) :
    ∃ name : Name, a.target = name.text := by
  induction bs with
  | nil =>
    unfold chosen at mem
    split at mem
    · exact target_of_mem mem
    · cases mem
  | cons b bs ih =>
    unfold chosen at mem
    split at mem
    · exact target_of_mem mem
    · exact ih mem

/-- A step that tells of an assignment to a name does not name a body. -/
theorem isMarked_told {as : List Source.Assignment} {places : Nat} {made : List Assigned}
    {told : List Text} (written : made.map Assigned.written = as)
    (named : ∀ a ∈ as, ∃ name : Name, a.target = name.text)
    (steps : told.map .ok = made.map (Assigned.told places)) : ∀ t ∈ told, isMarked t = false := by
  intro t mem
  have here : Except.ok t ∈ made.map (Assigned.told places) := steps ▸ List.mem_map_of_mem mem
  obtain ⟨m, own, speech⟩ := List.mem_map.mp here
  obtain ⟨shown, -, same⟩ := ok_of_bind speech
  cases same
  obtain ⟨name, target⟩ := named m.written (written ▸ List.mem_map_of_mem own)
  obtain ⟨c, rest, text, start, -⟩ := name.cases
  rw [Run.toldStep, target, text]
  simp only [List.cons_append, isMarked, List.head?_cons, beq_eq_false_iff_ne, ne_eq,
    Option.some.injEq]
  rintro rfl
  exact absurd start (by decide)

theorem execute_text (p : Conditional) {construct : Construct} (kind : construct.kind = .if) (run : Run) :
    Run.execute construct p.text run =
      ((Run.assignAll p.before.assignments run).andThen
        (Run.branches (otherwiseInside p.otherwise) "IF".toText "THEN".toText
          ((p.first :: p.more).map Branch.parts))).andThen (Run.assignAll p.after.assignments) := by
  have whole : ∀ (block : Block), Run.assignmentsOf block.text = Run.assignAll block.assignments :=
    fun block => by
      funext run
      rw [Run.assignmentsOf, assignments_text]
  simp only [Run.execute, kind, split?_text, Run.ifBlock, whole]
  rfl

/-- The first fault that keeps a tested condition from being told of. -/
def Conditional.silence? (p : Conditional) (env : Environment) (places : Nat) : Option Fault :=
  Program.silence? env places (p.first :: p.more)

theorem countP_isChoice {told told' : List Text} {choice : Text} (names : isChoice choice = true)
    (before : ∀ t ∈ told, isMarked t = false) (after : ∀ t ∈ told', isMarked t = false) :
    (told ++ choice :: told').countP isChoice = 1 := by
  have chosenNowhere : ∀ steps : List Text, (∀ t ∈ steps, isMarked t = false) → steps.countP isChoice = 0 :=
    fun steps plain => List.countP_eq_zero.mpr fun t mem => by
      rw [isChoice_of_unmarked (plain t mem)]
      exact Bool.false_ne_true
  rw [List.countP_append, List.countP_cons, chosenNowhere told before, chosenNowhere told' after, names]
  rfl

/-- A program around an `IF` structure, whose assignments before it meet no fault. If a tested condition
cannot be told of, the run stops there, and what the code before the structure does is recorded.
Otherwise, and if the chosen assignments and those behind the structure meet no fault either, all of
them are recorded. The conditions are told of up to the first one that holds, and exactly one step names
what is chosen. -/
theorem execute_conditional (p : Conditional) {construct : Construct} (kind : construct.kind = .if)
    (run : Run) {made : List Assigned} {env : Environment}
    (before : Carried run.places run.env p.before.assignments made env none) :
    (∀ fault, p.silence? env run.places = some fault →
      (Run.execute construct p.text run).2 = some fault ∧
      (Run.execute construct p.text run).1.assignments = run.assignments ++ made ∧
      (Run.execute construct p.text run).1.env = env) ∧
    (p.silence? env run.places = none → ∀ (others : List Assigned) (last : Environment),
      Carried run.places env (p.chosen env ++ p.after.assignments) others last none →
      (Run.execute construct p.text run).2 = none ∧
      (Run.execute construct p.text run).1.assignments = run.assignments ++ made ++ others ∧
      (Run.execute construct p.text run).1.env = last ∧
      ∃ told told', told.map .ok = made.map (Assigned.told run.places) ∧
        told'.map .ok = others.map (Assigned.told run.places) ∧
        (Run.execute construct p.text run).1.steps =
          run.steps ++ (told ++ p.narration env run.places ++ p.choiceStep env :: told') ∧
        (told ++ p.narration env run.places ++ p.choiceStep env :: told').countP isChoice = 1) := by
  obtain ⟨told, diagnostics, steps, did⟩ := Run.assignAll_of_carried before
  let middle : Run := ⟨env, run.places, run.steps ++ told, run.assignments ++ made, diagnostics⟩
  have start : Run.execute construct p.text run =
      (Run.branches (otherwiseInside p.otherwise) "IF".toText "THEN".toText
        ((p.first :: p.more).map Branch.parts) middle).andThen (Run.assignAll p.after.assignments) := by
    rw [execute_text p kind, did]
    rfl
  rw [start]
  refine ⟨fun fault silent => ?_, fun spoken others last rest => ?_⟩
  · obtain ⟨more, stopped⟩ := branches_silent (otherwiseInside p.otherwise) (p.first :: p.more)
      "IF".toText "THEN".toText middle silent
    rw [stopped]
    exact ⟨rfl, rfl, rfl⟩
  · let next := middle.steppedBy (p.narration env run.places ++ [p.choiceStep env])
    have chose : Run.branches (otherwiseInside p.otherwise) "IF".toText "THEN".toText
        ((p.first :: p.more).map Branch.parts) middle = Run.assignAll (p.chosen env) next :=
      branches_spoken p.otherwise (p.first :: p.more) "IF".toText "THEN".toText middle spoken
    obtain ⟨told', diagnostics', steps', did'⟩ := @Run.assignAll_of_carried _ _ next _ rest
    rw [chose, ← Run.assignAll_append, did']
    refine ⟨rfl, rfl, rfl, told, told', steps, steps', ?_, ?_⟩
    · simp [next, middle, Run.steppedBy]
    · have named : ∀ a ∈ p.chosen env ++ p.after.assignments, ∃ name : Name, a.target = name.text :=
        fun a mem => (List.mem_append.mp mem).elim target_of_mem_chosen target_of_mem
      refine countP_isChoice (isChoice_choiceStep ..) (fun t mem => ?_)
        (isMarked_told rest.written_eq named steps')
      rcases List.mem_append.mp mem with mem | mem
      · exact isMarked_told before.written_eq (fun _ => target_of_mem) steps t mem
      · exact isMarked_narration env run.places _ (by decide) (by decide) t mem

/-! ## Two programs -/

def oneSpace : Space := ⟨⟨" ".toText, by decide⟩, by decide⟩

/-- The program `x :=` with an expression, `;` and a space. -/
def assignX (e : Operand) : Program :=
  ⟨[(⟨[], rfl⟩, .assign ⟨"x".toText, by decide⟩ oneSpace.toGap e)], oneSpace.toGap⟩

def noStatements : Block := ⟨⟨[], ⟨[], rfl⟩⟩, by decide⟩

/-- `x := 1; IF x = 0 THEN x := 5; ELSIF x = 1 THEN x := x + 1; ELSE x := 7; END_IF;x := x * 10; ` -/
def secondBranch : Conditional where
  before := ⟨assignX ⟨" 1".toText, by decide⟩, by decide⟩
  first := ⟨oneSpace, ⟨"x = 0".toText, by decide⟩, oneSpace, oneSpace,
    ⟨assignX ⟨" 5".toText, by decide⟩, by decide⟩⟩
  more := [⟨oneSpace, ⟨"x = 1".toText, by decide⟩, oneSpace, oneSpace,
    ⟨assignX ⟨" x + 1".toText, by decide⟩, by decide⟩⟩]
  otherwise := some (oneSpace, ⟨assignX ⟨" 7".toText, by decide⟩, by decide⟩)
  gap := ⟨[], rfl⟩
  after := ⟨assignX ⟨" x * 10".toText, by decide⟩, by decide⟩

/-- A program whose second condition holds. -/
theorem execute_conditional_second_branch :
    (Run.execute ⟨.if, none⟩ secondBranch.text { env := ⟨[]⟩ }).1.assignments.map
      (fun a => (a.expression, a.value)) =
      [("1".toText, .int 1), ("x + 1".toText, .int 2), ("x * 10".toText, .int 20)] := by
  let start : Run := { env := ⟨[]⟩ }
  let middle := (Run.assignAll secondBranch.before.assignments start).1.env
  let todo := secondBranch.chosen middle ++ secondBranch.after.assignments
  obtain ⟨made, before, records⟩ := Run.carried_assignAll secondBranch.before.assignments start
  obtain ⟨others, rest, records'⟩ := Run.carried_assignAll todo { env := middle }
  have done : (Run.assignAll secondBranch.before.assignments start).2 = none := by decide +kernel
  have done' : (Run.assignAll todo { env := middle }).2 = none := by decide +kernel
  have spoken : secondBranch.silence? middle start.places = none := by decide +kernel
  rw [done] at before
  rw [done'] at rest
  have result :=
    (@execute_conditional secondBranch ⟨.if, none⟩ rfl start _ _ before).2 spoken _ _ rest
  rw [result.2.1, List.append_assoc, List.map_append]
  have first : made = (Run.assignAll secondBranch.before.assignments start).1.assignments := by
    rw [records]
    rfl
  have second : others = (Run.assignAll todo { env := middle }).1.assignments := by
    rw [records']
    rfl
  rw [first, second]
  decide +kernel

/-- `IF SHL(1, 20000) AND TRUE THEN x := 1; END_IF;`, whose condition holds and has a part that is too
long a number to be shown. -/
def longCondition : Conditional where
  before := noStatements
  first := ⟨oneSpace, ⟨"SHL(1, 20000) AND TRUE".toText, by decide⟩, oneSpace, oneSpace,
    ⟨assignX ⟨" 1".toText, by decide⟩, by decide⟩⟩
  more := []
  otherwise := none
  gap := ⟨[], rfl⟩
  after := noStatements

/-- A condition that holds and cannot be told of keeps its body from being carried out, although no
assignment meets a fault. -/
theorem long_condition_stops_run :
    longCondition.text = "IF SHL(1, 20000) AND TRUE THEN x := 1; END_IF;".toText ∧
    Environment.holds ⟨[]⟩ longCondition.first.condition.text = true ∧
    Carried 2 ⟨[]⟩ longCondition.before.assignments [] ⟨[]⟩ none ∧
    (∃ made last, Carried 2 ⟨[]⟩ (longCondition.chosen ⟨[]⟩ ++ longCondition.after.assignments) [made]
      last none) ∧
    (Run.execute ⟨.if, none⟩ longCondition.text { env := ⟨[]⟩ }).1.assignments = [] := by
  refine ⟨by decide +kernel, by decide +kernel, .done, ?_, by decide +kernel⟩
  obtain ⟨made, carried, -⟩ := Run.carried_assignAll
    (longCondition.chosen ⟨[]⟩ ++ longCondition.after.assignments) { env := ⟨[]⟩ }
  have spoken : (Run.assignAll (longCondition.chosen ⟨[]⟩ ++ longCondition.after.assignments)
      { env := ⟨[]⟩ }).2 = none := by decide +kernel
  rw [spoken] at carried
  have one : made.length = 1 := by
    rw [← List.length_map Assigned.written, carried.written_eq]
    decide +kernel
  obtain ⟨m, rfl⟩ := List.length_eq_one_iff.mp one
  exact ⟨m, _, carried⟩

end Program
end SclNarrator
