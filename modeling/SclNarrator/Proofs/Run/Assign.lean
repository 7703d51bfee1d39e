import SclNarrator.Proofs.Except
import SclNarrator.Run.Execute

/-!
Assignments: a single one, a sequence of them, and those of whole runs.

What is proved:
  1. an assignment ends in one of three ways: its value is refused, so that nothing is bound or
     recorded; it is bound and recorded and cannot be shown; or it is bound, recorded and told of
     (`assign_cases`);
  2. a run over assignments carries them out one after the other, and what is recorded when a fault
     strikes are those before it (`carried_assignAll`);
  3. carrying out a snippet is made of two moves only: a step is told, and an assignment is made. So a
     property of runs that both moves keep is kept by every snippet under every construct, also by one
     that a fault stops half-way (`Kept.execute`), and by any sequence of snippets on one run
     (`Kept.executeEach`).

Correspondence (analyzer ↔ here):
  `_assign`                 ↔ `Run.assign`
  `execute_assignments`     ↔ `Run.assignAll`
  `ExecutionEngine.execute` ↔ `Run.execute`
-/

namespace SclNarrator

/-! ## One assignment -/

def Environment.made (env : Environment) (a : Source.Assignment) : Assigned :=
  let value := (env.evaluate a.expression).normalize
  ⟨a.target, value, value.inferredType, a.expression⟩

/-- The environment after an assignment, unless its value is refused. -/
def Environment.assign (env : Environment) (a : Source.Assignment) : Except Fault Environment :=
  env.bind a.target (env.made a).value (env.made a).inferredType.name

namespace Run

@[simp] theorem remark_env (run : Run) (target : Text) (value : Value) :
    (run.remark target value).env = run.env := by
  unfold remark; split <;> rfl

@[simp] theorem remark_assignments (run : Run) (target : Text) (value : Value) :
    (run.remark target value).assignments = run.assignments := by
  unfold remark; split <;> rfl

@[simp] theorem remark_places (run : Run) (target : Text) (value : Value) :
    (run.remark target value).places = run.places := by
  unfold remark; split <;> rfl

@[simp] theorem remark_steps (run : Run) (target : Text) (value : Value) :
    (run.remark target value).steps = run.steps := by
  unfold remark; split <;> rfl

/-- The run with a remark on an assignment, its binding and its record, before it is told of. -/
def recorded (run : Run) (a : Source.Assignment) (env : Environment) : Run :=
  { run.remark a.target (run.env.made a).value with
    env, assignments := run.assignments ++ [run.env.made a] }

/-- The step that tells of an assignment whose value is shown as `shown`. -/
def toldStep (a : Source.Assignment) (shown : Text) : Text :=
  a.target ++ " := ".toText ++ displayed a.expression ++ " → ".toText ++ shown

theorem assign_of_refused {run : Run} {a : Source.Assignment} {fault : Fault}
    (h : run.env.assign a = .error fault) :
    run.assign a = (run.remark a.target (run.env.made a).value, some fault) := by
  simp only [Environment.assign, Environment.made] at h
  simp only [assign, record, evaluate, remark_env, h]
  rfl

theorem assign_of_bound {run : Run} {a : Source.Assignment} {env : Environment}
    (h : run.env.assign a = .ok env) :
    run.assign a = (run.recorded a env).narrate
      ((run.env.made a).value.shown run.places >>= fun shown => .ok (toldStep a shown)) := by
  simp only [Environment.assign, Environment.made] at h
  simp only [assign, record, evaluate, remark_env, h]
  simp only [recorded, Environment.made, assignmentStep, shown, remark_places, remark_assignments]
  rfl

theorem assign_of_unspoken {run : Run} {a : Source.Assignment} {env : Environment} {fault : Fault}
    (h : run.env.assign a = .ok env) (unspoken : (run.env.made a).value.shown run.places = .error fault) :
    run.assign a = (run.recorded a env, some fault) := by
  rw [assign_of_bound h, unspoken]
  rfl

theorem assign_of_told {run : Run} {a : Source.Assignment} {env : Environment} {shown : Text}
    (h : run.env.assign a = .ok env) (told : (run.env.made a).value.shown run.places = .ok shown) :
    run.assign a = ((run.recorded a env).step (toldStep a shown), none) := by
  rw [assign_of_bound h, told]
  rfl

/-- What an assignment does to the bindings and to what is recorded: nothing at all, or both get it. -/
theorem assign_cases (run : Run) (a : Source.Assignment) :
    ((run.assign a).1.env = run.env ∧ (run.assign a).1.assignments = run.assignments) ∨
    (run.env.assign a = .ok (run.assign a).1.env ∧
      (run.assign a).1.assignments = run.assignments ++ [run.env.made a]) := by
  cases bound : run.env.assign a with
  | error fault =>
    rw [assign_of_refused bound]
    exact .inl ⟨remark_env .., remark_assignments ..⟩
  | ok env =>
    right
    cases told : (run.env.made a).value.shown run.places with
    | error fault => rw [assign_of_unspoken bound told]; exact ⟨rfl, rfl⟩
    | ok shown => rw [assign_of_told bound told]; exact ⟨rfl, rfl⟩

end Run

/-! ## Assignments one after the other

`Carried` has one rule for each way in which an assignment can end. -/

def Assigned.written (made : Assigned) : Source.Assignment := ⟨made.target, made.expression⟩

/-- The step that tells of a recorded assignment, unless its value cannot be shown. -/
def Assigned.told (places : Nat) (made : Assigned) : Except Fault Text :=
  made.value.shown places >>= fun shown => .ok (Run.toldStep made.written shown)

/-- From an environment, some assignments make recorded ones and leave an environment, up to the fault
that stops them if there is one. Values are shown with `places` decimal places. -/
inductive Carried (places : Nat) : Environment → List Source.Assignment → List Assigned → Environment →
    Option Fault → Prop where
  | done {env : Environment} : Carried places env [] [] env none
  /-- The value is refused: nothing is recorded. -/
  | refused {env : Environment} {a : Source.Assignment} {rest : List Source.Assignment} {fault : Fault}
      (refusal : env.assign a = .error fault) : Carried places env (a :: rest) [] env (some fault)
  /-- The value is bound and cannot be shown: it is recorded, and nothing after it is. -/
  | unspoken {env next : Environment} {a : Source.Assignment} {rest : List Source.Assignment}
      {fault : Fault} (bound : env.assign a = .ok next)
      (silent : (env.made a).value.shown places = .error fault) :
      Carried places env (a :: rest) [env.made a] next (some fault)
  /-- The value is bound and shown: the next assignment sees it. -/
  | told {env next last : Environment} {a : Source.Assignment} {rest : List Source.Assignment}
      {made : List Assigned} {shown : Text} {fault : Option Fault} (bound : env.assign a = .ok next)
      (speech : (env.made a).value.shown places = .ok shown)
      (later : Carried places next rest made last fault) :
      Carried places env (a :: rest) (env.made a :: made) last fault

namespace Carried

variable {places : Nat} {env last : Environment} {as : List Source.Assignment} {made : List Assigned}
  {fault : Option Fault}

/-- What is recorded is a first part of the assignments, in their order. -/
theorem written_prefix (h : Carried places env as made last fault) :
    made.map Assigned.written <+: as := by
  induction h with
  | done => exact List.prefix_rfl
  | refused => exact List.nil_prefix
  | unspoken => exact (List.prefix_cons_inj _).mpr List.nil_prefix
  | told _ _ _ ih => exact (List.prefix_cons_inj _).mpr ih

theorem written_eq (h : Carried places env as made last none) : made.map Assigned.written = as := by
  generalize ends : (none : Option Fault) = fault at h
  induction h with
  | done => rfl
  | refused | unspoken => cases ends
  | told _ _ _ ih => rw [List.map_cons, ih ends]; rfl

end Carried

namespace Run

/-- A run over assignments carries them out. -/
theorem carried_assignAll (as : List Source.Assignment) (run : Run) :
    ∃ made, Carried run.places run.env as made (assignAll as run).1.env (assignAll as run).2 ∧
      (assignAll as run).1.assignments = run.assignments ++ made := by
  induction as generalizing run with
  | nil => exact ⟨[], .done, by simp [assignAll]⟩
  | cons a rest ih =>
    rw [assignAll]
    cases bound : run.env.assign a with
    | error fault =>
      rw [assign_of_refused bound]
      refine ⟨[], ?_, ?_⟩
      · simpa [Outcome.andThen] using .refused bound
      · simp [Outcome.andThen]
    | ok env =>
      cases speech : (run.env.made a).value.shown run.places with
      | error fault =>
        rw [assign_of_unspoken bound speech]
        exact ⟨[run.env.made a], .unspoken bound speech, rfl⟩
      | ok shown =>
        rw [assign_of_told bound speech]
        obtain ⟨made, later, records⟩ := ih ((run.recorded a env).step (toldStep a shown))
        refine ⟨run.env.made a :: made, .told bound speech ?_, ?_⟩
        · simpa [recorded, step, Outcome.andThen] using later
        · simpa [recorded, step, Outcome.andThen] using records

/-- Assignments that are carried out without a fault leave their environment and their records, and each
of them is told of in one step. -/
theorem assignAll_of_carried {as : List Source.Assignment} {made : List Assigned} {run : Run}
    {last : Environment} (h : Carried run.places run.env as made last none) :
    ∃ told diagnostics, told.map .ok = made.map (Assigned.told run.places) ∧
      assignAll as run = (⟨last, run.places, run.steps ++ told, run.assignments ++ made,
        diagnostics⟩, none) := by
  generalize ends : (none : Option Fault) = fault at h
  generalize start : run.env = env, width : run.places = places at h
  induction h generalizing run with
  | done =>
    subst start width
    exact ⟨[], run.diagnostics, rfl, by simp [assignAll]⟩
  | refused | unspoken => cases ends
  | @told _ next _ a rest made shown _ bound speech later ih =>
    subst start width
    let after := (run.recorded a next).step (toldStep a shown)
    obtain ⟨told, diagnostics, same, did⟩ := @ih after ends rfl (by simp [after, recorded, step])
    refine ⟨toldStep a shown :: told, diagnostics, ?_, ?_⟩
    · have step : (run.env.made a).told run.places = .ok (toldStep a shown) := by
        rw [Assigned.told, speech]
        rfl
      simp [same, step]
    · rw [assignAll, assign_of_told bound speech]
      have next : Outcome.andThen (after, none) (assignAll rest) = assignAll rest after := rfl
      rw [next, did]
      simp [after, recorded, step]

theorem assignAll_append (as bs : List Source.Assignment) (run : Run) :
    assignAll (as ++ bs) run = (assignAll as run).andThen (assignAll bs) := by
  induction as generalizing run with
  | nil => rfl
  | cons a as ih =>
    rw [List.cons_append, assignAll, assignAll]
    obtain ⟨run, fault⟩ := run.assign a
    cases fault with
    | none => exact ih run
    | some fault => rfl

end Run

/-! ## What a whole run keeps -/

theorem Outcome.andThen_of {P : Run → Prop} {outcome : Outcome} {next : Run → Outcome}
    (first : P outcome.1) (second : ∀ run, P run → P (next run).1) :
    P (outcome.andThen next).1 := by
  obtain ⟨run, fault⟩ := outcome
  cases fault with
  | none => exact second run first
  | some fault => exact first

namespace Run

/-- The run after several snippets under their constructs. A fault stops its own snippet and none of
the later ones. -/
def executeEach (snippets : List (Construct × Text)) (run : Run) : Run :=
  snippets.foldl (fun run snippet => (execute snippet.1 snippet.2 run).1) run

/-- A property of runs that a step and an assignment keep. -/
structure Kept (P : Run → Prop) : Prop where
  step : ∀ (run : Run) (text : Text), P run → P (run.step text)
  assign : ∀ (run : Run) (a : Source.Assignment), P run → P (run.assign a).1

namespace Kept

variable {P : Run → Prop} (kept : Kept P)
include kept

theorem narrate {run : Run} (text : Except Fault Text) (h : P run) : P (run.narrate text).1 := by
  cases text with
  | ok t => exact kept.step run t h
  | error fault => exact h

theorem assignAll (as : List Source.Assignment) {run : Run} (h : P run) :
    P (assignAll as run).1 := by
  induction as generalizing run with
  | nil => exact h
  | cons a rest ih => exact Outcome.andThen_of (kept.assign run a h) fun _ => ih

theorem assignmentsOf (code : Text) {run : Run} (h : P run) : P (assignmentsOf code run).1 :=
  kept.assignAll (Source.assignments code) h

theorem currentValues (condition : Text) {run : Run} (h : P run) :
    P (run.currentValues condition).1 := by
  unfold Run.currentValues
  split
  · exact h
  · exact kept.narrate _ h

theorem operandValues (condition : Text) {run : Run} (h : P run) :
    P (run.operandValues condition).1 := by
  simp only [Run.operandValues]
  split
  · exact h
  · exact kept.narrate _ h

theorem explainCondition (keyword condition : Text) {run : Run} (h : P run) :
    P (run.explainCondition keyword condition).1 :=
  Outcome.andThen_of (kept.currentValues condition (kept.step run _ h)) fun _ =>
    kept.operandValues condition

theorem branches (otherwise : Option Text) (bs : List (Text × Text)) (keyword block : Text)
    {run : Run} (h : P run) : P (branches otherwise keyword block bs run).1 := by
  induction bs generalizing keyword block run with
  | nil =>
    cases otherwise with
    | none => exact kept.step run _ h
    | some body =>
      simp only [Run.branches]
      split
      · exact kept.step run _ h
      · exact kept.assignmentsOf body (kept.step run _ h)
  | cons b rest ih =>
    obtain ⟨condition, body⟩ := b
    refine Outcome.andThen_of (kept.explainCondition keyword condition h) fun run h => ?_
    have told := kept.step run (verdictStep (run.holds condition)) h
    dsimp only
    split
    · exact kept.assignmentsOf body (kept.step _ _ told)
    · exact ih _ _ told

theorem ifBlock (block : Source.IfBlock) {run : Run} (h : P run) : P (ifBlock block run).1 :=
  Outcome.andThen_of
    (Outcome.andThen_of (kept.assignmentsOf block.before h) fun _ =>
      kept.branches block.otherwise block.branches _ _)
    fun _ => kept.assignmentsOf block.after

theorem loop (kind : ConstructKind) (code : Text) {run : Run} (h : P run) :
    P (loop kind code run).1 :=
  kept.assignmentsOf _ (kept.step run _ h)

theorem branchOf (selector body : Text) {run : Run} (h : P run) :
    P (run.branchOf selector body).1 := by
  unfold Run.branchOf
  split
  · exact kept.narrate _ h
  · exact h

theorem caseOf (code : Text) {run : Run} (h : P run) : P (caseOf code run).1 := by
  unfold Run.caseOf
  split
  · exact kept.assignmentsOf code (kept.step run _ h)
  · exact Outcome.andThen_of
      (Outcome.andThen_of (kept.narrate _ h) fun _ => kept.branchOf _ _)
      fun _ => kept.assignmentsOf _

theorem calls (cs : List Source.Call) {run : Run} (h : P run) : P (calls cs run).1 := by
  induction cs generalizing run with
  | nil => exact h
  | cons c rest ih => exact Outcome.andThen_of (kept.narrate _ h) fun _ => ih

theorem instruction (description code : Text) {run : Run} (h : P run) :
    P (instruction description code run).1 :=
  Outcome.andThen_of (kept.calls _ (kept.step run _ h)) fun _ => kept.assignmentsOf code

/-- A snippet keeps what steps and assignments keep, whatever its construct and whether or not a
fault stops it. -/
theorem execute (construct : Construct) (code : Text) {run : Run} (h : P run) :
    P (execute construct code run).1 := by
  unfold Run.execute
  split
  · exact kept.assignmentsOf code h
  · split
    · exact h
    · exact kept.ifBlock _ h
  · exact kept.loop _ code h
  · exact kept.loop _ code h
  · exact kept.loop _ code h
  · exact kept.caseOf code h
  · exact kept.instruction _ code h
  · exact kept.instruction _ code h

theorem executeEach (snippets : List (Construct × Text)) {run : Run} (h : P run) :
    P (executeEach snippets run) := by
  induction snippets generalizing run with
  | nil => exact h
  | cons snippet rest ih => exact ih (kept.execute snippet.1 snippet.2 h)

end Kept
end Run

end SclNarrator
