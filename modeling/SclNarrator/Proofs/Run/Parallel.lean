import SclNarrator.Proofs.Run.Assign
import SclNarrator.Run.Execute

/-!
Two runs of one code side by side. All that a code lets a run do is to evaluate expressions, to look
up names, to make assignments and to tell of that (`Scope.Covers`). Take environments of which these
moves do not tell one from the other, and which stay so related under the assignments (`Parallel`).
Then two runs over them record the same under every construct and are stopped by the same fault
(`Run.Matches.execute`). They may show their values with different numbers of places: then what they
tell differs, and nothing else.
-/

namespace SclNarrator

/-! ## What a code lets a run do -/

/-- The expressions whose values a run tells of under a kind of construct: the conditions of an `IF` structure
and their operands, the condition of a loop, and what calls pass to timers and counters. -/
def Source.toldExpressions (kind : ConstructKind) (code : Text) : List Text :=
  match kind with
  | .if => (IfBlock.split? code).toList.flatMap fun block =>
    block.branches.flatMap fun b => b.1 :: logicOperands b.1
  | .while => (Text.search whileHeader code).toList.map (·.2.1)
  | .repeat => (Text.search untilHeader code).toList.map (·.2.1)
  | .timer | .counter => (Text.findAll call code).flatMap fun c =>
    (c.parameterList.filter fun p => !p.output).map Parameter.expression
  | .for | .case | .plain => []

/-- Expressions that may be evaluated, names that may be looked up, and assignments that may be made. -/
structure Scope where
  expression : Text → Prop
  name : Text → Prop
  assignment : Source.Assignment → Prop

namespace Scope

def Statements (scope : Scope) (code : Text) : Prop := ∀ a ∈ Source.assignments code, scope.assignment a

structure Condition (scope : Scope) (condition : Text) : Prop where
  whole : scope.expression condition
  operands : ∀ operand ∈ Source.logicOperands condition, scope.expression operand
  names : ∀ name ∈ Source.identifiers condition, scope.name name

/-- Whether the names and the statements of an `IF` structure and the statements around it are in a scope. -/
structure Block (scope : Scope) (block : Source.IfBlock) : Prop where
  before : scope.Statements block.before
  branches : ∀ b ∈ block.branches, (∀ name ∈ Source.identifiers b.1, scope.name name) ∧ scope.Statements b.2
  otherwise : ∀ body ∈ block.otherwise, scope.Statements body
  after : scope.Statements block.after

/-- Whether a scope has all that a code lets a run do under a kind of construct. -/
structure Covers (scope : Scope) (kind : ConstructKind) (code : Text) : Prop where
  statements : scope.Statements code
  expressions : ∀ e ∈ Source.toldExpressions kind code, scope.expression e
  block : ∀ block, Source.IfBlock.split? code = some block → scope.Block block
  loop : ∀ run : Run, scope.Statements (run.describeLoop kind code).2
  selector : ∀ before written after, Text.search Source.caseHeader code = some (before, written, after) →
    scope.name (Text.dropLeading '#' (displayed written)) ∧ scope.Statements (before ++ after)

def all : Scope := ⟨fun _ => True, fun _ => True, fun _ => True⟩

theorem covers_all (kind : ConstructKind) (code : Text) : all.Covers kind code where
  statements _ _ := trivial
  expressions _ _ := trivial
  block _ _ := ⟨fun _ _ => trivial, fun _ _ => ⟨fun _ _ => trivial, fun _ _ => trivial⟩,
    fun _ _ _ _ => trivial, fun _ _ => trivial⟩
  loop _ _ _ := trivial
  selector _ _ _ _ := ⟨trivial, fun _ _ => trivial⟩

namespace Covers

variable {scope : Scope} {code : Text}

/-- The conditions and the bodies of an `IF` structure. -/
theorem branches (covered : scope.Covers .if code) {block : Source.IfBlock}
    (found : Source.IfBlock.split? code = some block) :
    ∀ b ∈ block.branches, scope.Condition b.1 ∧ scope.Statements b.2 := by
  intro b mem
  have told (e : Text) (own : e ∈ b.1 :: Source.logicOperands b.1) : scope.expression e := by
    refine covered.expressions e (List.mem_flatMap.mpr ⟨block, ?_, List.mem_flatMap.mpr ⟨b, mem, own⟩⟩)
    rw [found]
    exact List.mem_singleton_self block
  obtain ⟨names, statements⟩ := (covered.block block found).branches b mem
  exact ⟨⟨told _ List.mem_cons_self, fun operand own => told operand (List.mem_cons_of_mem _ own),
    names⟩, statements⟩

/-- The condition in the header of a loop. -/
theorem header {kind : ConstructKind} (covered : scope.Covers kind code) {pattern : Pattern Text}
    (told : Source.toldExpressions kind code = (Text.search pattern code).toList.map (·.2.1))
    {before condition after : Text}
    (found : Text.search pattern code = some (before, condition, after)) :
    scope.expression condition := by
  refine covered.expressions condition ?_
  rw [told, found]
  exact List.mem_singleton_self condition

theorem parameters {kind : ConstructKind} (covered : scope.Covers kind code)
    (instruction : kind = .timer ∨ kind = .counter) :
    ∀ c ∈ Text.findAll Source.call code, ∀ p ∈ c.parameterList, p.output = false →
      scope.expression p.expression := by
  intro c mem p own input
  refine covered.expressions _ ?_
  have told : p.expression ∈ (Text.findAll Source.call code).flatMap fun c =>
      (c.parameterList.filter fun p => !p.output).map Source.Parameter.expression :=
    List.mem_flatMap.mpr ⟨c, mem, List.mem_map_of_mem (List.mem_filter.mpr ⟨own, by rw [input]; rfl⟩)⟩
  rcases instruction with rfl | rfl
  · exact told
  · exact told

end Covers

end Scope

/-! ## Showing values -/

/-- Two texts for the narrative, both made or both refused for one fault, and the same if a
condition holds. -/
abbrev TellsAlike (same : Prop) : Except Fault Text → Except Fault Text → Prop :=
  Likewise fun t t' => same → t = t'

namespace TellsAlike

variable {same : Prop}

theorem refl (text : Except Fault Text) : TellsAlike same text text := by
  cases text with
  | ok t => exact .ok fun _ => rfl
  | error fault => exact .error fault

theorem around {text text' : Except Fault Text} (alike : TellsAlike same text text') (f : Text → Text) :
    TellsAlike same (do return f (← text)) (do return f (← text')) :=
  alike.bind fun _ _ told => .ok fun holds => congrArg f (told holds)

theorem lines {α : Type} {xs : List α} {line line' : α → Except Fault Text} (heading : Text)
    (alike : ∀ x ∈ xs, TellsAlike same (line x) (line' x)) :
    TellsAlike same (do return Text.join ['\n'] (heading :: (← xs.mapM line)))
      (do return Text.join ['\n'] (heading :: (← xs.mapM line'))) :=
  (Likewise.mapM alike).bind fun _ _ told => .ok fun holds => by rw [told holds]

/-- Whether a value can be shown does not depend on the number of places. -/
theorem shown {places places' : Nat} (h : same → places = places') (v : Value) :
    TellsAlike same (v.shown places) (v.shown places') := by
  cases v with
  | float x =>
    rw [Value.shown, Value.shown]
    split
    · exact refl _
    · exact refl _
    · split
      · split
        · exact refl _
        · exact .ok fun holds => by rw [h holds]
      · exact .ok fun holds => by rw [h holds]
  | _ => exact refl _

end TellsAlike

/-! ## Moves -/

/-- A relation between environments that goes together with a scope: what is in the scope has the
same value in both and is bound alike, and an assignment of the scope leaves them related unless
both refuse it. -/
structure Parallel (scope : Scope) (E : Environment → Environment → Prop) : Prop where
  evaluate : ∀ {env env' : Environment}, E env env' → ∀ e, scope.expression e → env.evaluate e =
    env'.evaluate e
  lookup : ∀ {env env' : Environment}, E env env' → ∀ name, scope.name name → env.lookup name =
    env'.lookup name
  made : ∀ {env env' : Environment}, E env env' → ∀ a, scope.assignment a → env.made a = env'.made a
  assign : ∀ {env env' : Environment}, E env env' → ∀ a, scope.assignment a →
    Likewise E (env.assign a) (env'.assign a)

/-- Whether two runs over related environments have recorded the same, and told the same and will tell it if
a condition holds. -/
structure Run.Matches (same : Prop) (E : Environment → Environment → Prop) (run run' : Run) : Prop where
  env : E run.env run'.env
  assignments : run.assignments = run'.assignments
  diagnostics : run.diagnostics = run'.diagnostics
  places : same → run.places = run'.places
  steps : same → run.steps = run'.steps

/-- Whether two runs match after some work, and were stopped by the same fault if they were. -/
structure Outcome.Matches (same : Prop) (E : Environment → Environment → Prop) (outcome outcome' : Outcome) :
    Prop where
  run : outcome.1.Matches same E outcome'.1
  fault : outcome.2 = outcome'.2

theorem Outcome.Matches.andThen {same : Prop} {E : Environment → Environment → Prop}
    {outcome outcome' : Outcome}
    {next next' : Run → Outcome} (first : outcome.Matches same E outcome')
    (second : ∀ run run', Run.Matches same E run run' → Outcome.Matches same E (next run) (next' run')) :
    Outcome.Matches same E (outcome.andThen next) (outcome'.andThen next') := by
  obtain ⟨run, fault⟩ := outcome
  obtain ⟨run', fault'⟩ := outcome'
  obtain ⟨h, rfl⟩ := first
  cases fault with
  | none => exact second run run' h
  | some fault => exact ⟨h, rfl⟩

namespace Run.Matches

variable {same : Prop} {E : Environment → Environment → Prop} {scope : Scope} {run run' : Run} {code : Text}

theorem tell (h : run.Matches same E run') {t t' : Text} (told : same → t = t') :
    (run.step t).Matches same E (run'.step t') :=
  { h with steps := fun holds => by rw [Run.step, Run.step, h.steps holds, told holds] }

theorem step (h : run.Matches same E run') (t : Text) : (run.step t).Matches same E (run'.step t) :=
  h.tell fun _ => rfl

theorem narrate (h : run.Matches same E run') {text text' : Except Fault Text}
    (alike : TellsAlike same text text') :
    Outcome.Matches same E (run.narrate text) (run'.narrate text') := by
  cases alike with
  | ok told => exact ⟨h.tell told, rfl⟩
  | error fault => exact ⟨h, rfl⟩

theorem warn (h : run.Matches same E run') (d : Diagnostic) : (run.warn d).Matches same E (run'.warn d) :=
  { h with diagnostics := by rw [Run.warn, Run.warn, h.diagnostics] }

theorem remark (h : run.Matches same E run') (target : Text) (value : Value) :
    (run.remark target value).Matches same E (run'.remark target value) := by
  unfold Run.remark
  split
  · exact h.warn _
  · exact h

theorem evaluate (h : run.Matches same E run') (parallel : Parallel scope E) {e : Text}
    (covered : scope.expression e) :
    run.evaluate e = run'.evaluate e :=
  parallel.evaluate h.env e covered

/-! ### Assignments -/

theorem assign (h : run.Matches same E run') (parallel : Parallel scope E) {a : Source.Assignment}
    (covered : scope.assignment a) : Outcome.Matches same E (run.assign a) (run'.assign a) := by
  have made := parallel.made h.env a covered
  have remarked := h.remark a.target (run'.env.made a).value
  have assigned := parallel.assign h.env a covered
  generalize left : run.env.assign a = next at assigned
  generalize right : run'.env.assign a = next' at assigned
  cases assigned with
  | @ok next next' related =>
    have both : (run.recorded a next).Matches same E (run'.recorded a next') := by
      rw [recorded, recorded, made, h.assignments]
      exact { remarked with env := related, assignments := rfl }
    rw [assign_of_bound left, assign_of_bound right, made]
    exact both.narrate ((TellsAlike.shown h.places _).around _)
  | error fault =>
    rw [assign_of_refused left, assign_of_refused right, made]
    exact ⟨remarked, rfl⟩

theorem assignmentsOf (h : run.Matches same E run') (parallel : Parallel scope E)
    (covered : scope.Statements code) :
    Outcome.Matches same E (Run.assignmentsOf code run) (Run.assignmentsOf code run') := by
  unfold Run.assignmentsOf
  unfold Scope.Statements at covered
  generalize Source.assignments code = as at covered
  induction as generalizing run run' with
  | nil => exact ⟨h, rfl⟩
  | cons a as ih =>
    rw [List.forall_mem_cons] at covered
    exact (h.assign parallel covered.1).andThen fun _ _ h => ih h covered.2

/-! ### Conditions -/

theorem mentioned_eq {env env' : Environment} {names : List Text}
    (same : ∀ name ∈ names, env.lookup name = env'.lookup name) (seen : List Text) :
    mentioned env seen names = mentioned env' seen names := by
  induction names generalizing seen with
  | nil => rfl
  | cons name names ih =>
    rw [List.forall_mem_cons] at same
    simp only [mentioned, same.1, ih same.2]

theorem currentValues (h : run.Matches same E run') (parallel : Parallel scope E) {condition : Text}
    (covered : scope.Condition condition) :
    Outcome.Matches same E (run.currentValues condition) (run'.currentValues condition) := by
  unfold Run.currentValues
  rw [← mentioned_eq (fun name mem => parallel.lookup h.env name (covered.names name mem)) []]
  split
  · exact ⟨h, rfl⟩
  · exact h.narrate (.lines _ fun binding _ => (TellsAlike.shown h.places binding.value).around _)

theorem operandValues (h : run.Matches same E run') (parallel : Parallel scope E) {condition : Text}
    (covered : scope.Condition condition) :
    Outcome.Matches same E (run.operandValues condition) (run'.operandValues condition) := by
  simp only [Run.operandValues]
  split
  · exact ⟨h, rfl⟩
  · refine h.narrate (.lines _ fun operand mem => ?_)
    rw [operandLine, operandLine, h.evaluate parallel (covered.operands operand mem)]
    exact (TellsAlike.shown h.places _).around _

theorem explainCondition (h : run.Matches same E run') (parallel : Parallel scope E) {condition : Text}
    (covered : scope.Condition condition) (keyword : Text) :
    Outcome.Matches same E (run.explainCondition keyword condition)
      (run'.explainCondition keyword condition) :=
  ((h.step _).currentValues parallel covered).andThen fun _ _ h => h.operandValues parallel covered

/-! ### Constructs -/

theorem branches (h : run.Matches same E run') (parallel : Parallel scope E) {otherwise : Option Text}
    {bs : List (Text × Text)} (covered : ∀ b ∈ bs, scope.Condition b.1 ∧ scope.Statements b.2)
    (last : ∀ body ∈ otherwise, scope.Statements body) (keyword block : Text) :
    Outcome.Matches same E (Run.branches otherwise keyword block bs run)
      (Run.branches otherwise keyword block bs run') := by
  induction bs generalizing run run' keyword block with
  | nil =>
    cases otherwise with
    | none => exact ⟨h.step _, rfl⟩
    | some body =>
      simp only [Run.branches]
      split
      · exact ⟨h.step _, rfl⟩
      · exact (h.step _).assignmentsOf parallel (last body rfl)
  | cons b bs ih =>
    obtain ⟨condition, body⟩ := b
    rw [List.forall_mem_cons] at covered
    refine (h.explainCondition parallel covered.1.1 keyword).andThen fun run run' h => ?_
    have verdict : run.holds condition = run'.holds condition := by
      rw [holds, holds, h.evaluate parallel covered.1.1.whole]
    dsimp only
    rw [verdict]
    split
    · exact ((h.step _).step _).assignmentsOf parallel covered.1.2
    · exact ih (h.step _) covered.2 _ _

theorem ifBlock (h : run.Matches same E run') (parallel : Parallel scope E) (covered : scope.Covers .if code)
    {block : Source.IfBlock} (found : Source.IfBlock.split? code = some block) :
    Outcome.Matches same E (Run.ifBlock block run) (Run.ifBlock block run') := by
  have inside := covered.block block found
  exact ((h.assignmentsOf parallel inside.before).andThen fun _ _ h =>
    h.branches parallel (covered.branches found) inside.otherwise _ _).andThen fun _ _ h =>
      h.assignmentsOf parallel inside.after

theorem describeLoop_eq (h : run.Matches same E run') (parallel : Parallel scope E) {kind : ConstructKind}
    (covered : scope.Covers kind code) (repeats : kind = .for ∨ kind = .while ∨ kind = .repeat) :
    run.describeLoop kind code = run'.describeLoop kind code := by
  have described (word condition : Text) (covered : scope.expression condition) :
      run.describeCondition word condition = run'.describeCondition word condition := by
    rw [describeCondition, describeCondition, h.evaluate parallel covered]
  rcases repeats with rfl | rfl | rfl
  · rfl
  · simp only [describeLoop]
    split
    · next found => rw [described _ _ (covered.header rfl found)]
    · rfl
  · simp only [describeLoop]
    split
    · next found => rw [described _ _ (covered.header rfl found)]
    · rfl

theorem loop (h : run.Matches same E run') (parallel : Parallel scope E) {kind : ConstructKind}
    (covered : scope.Covers kind code) (repeats : kind = .for ∨ kind = .while ∨ kind = .repeat) :
    Outcome.Matches same E (Run.loop kind code run) (Run.loop kind code run') := by
  unfold Run.loop
  rw [← h.describeLoop_eq parallel covered repeats]
  exact (h.step _).assignmentsOf parallel (covered.loop run)

theorem selectorStep (h : run.Matches same E run') {selector : Text}
    (found : run.env.lookup selector = run'.env.lookup selector) :
    TellsAlike same (run.selectorStep selector) (run'.selectorStep selector) := by
  rw [Run.selectorStep, Run.selectorStep, found]
  split
  · exact .refl _
  · exact (TellsAlike.shown h.places _).around _

theorem branchOf (h : run.Matches same E run') {selector : Text}
    (found : run.env.lookup selector = run'.env.lookup selector) (body : Text) :
    Outcome.Matches same E (run.branchOf selector body) (run'.branchOf selector body) := by
  rw [Run.branchOf, Run.branchOf, found]
  split
  · exact h.narrate (.refl _)
  · exact ⟨h, rfl⟩

theorem caseOf (h : run.Matches same E run') (parallel : Parallel scope E)
    (covered : scope.Covers .case code) :
    Outcome.Matches same E (Run.caseOf code run) (Run.caseOf code run') := by
  unfold Run.caseOf
  split
  · exact (h.step _).assignmentsOf parallel covered.statements
  · next found =>
    obtain ⟨name, statements⟩ := covered.selector _ _ _ found
    exact ((h.narrate (h.selectorStep (parallel.lookup h.env _ name))).andThen fun _ _ h =>
      h.branchOf (parallel.lookup h.env _ name) _).andThen fun _ _ h => h.assignmentsOf parallel statements

theorem calls (h : run.Matches same E run') (parallel : Parallel scope E) {cs : List Source.Call}
    (covered : ∀ c ∈ cs, ∀ p ∈ c.parameterList, p.output = false → scope.expression p.expression) :
    Outcome.Matches same E (Run.calls cs run) (Run.calls cs run') := by
  induction cs generalizing run run' with
  | nil => exact ⟨h, rfl⟩
  | cons c cs ih =>
    rw [List.forall_mem_cons] at covered
    refine (h.narrate (.lines _ fun p mem => ?_)).andThen fun _ _ h => ih h covered.2
    rw [parameterLine, parameterLine]
    split
    · exact .refl _
    · next input =>
      rw [h.evaluate parallel (covered.1 p mem (by simpa using input))]
      exact (TellsAlike.shown h.places _).around _

theorem instruction (h : run.Matches same E run') (parallel : Parallel scope E) {kind : ConstructKind}
    (covered : scope.Covers kind code) (counted : kind = .timer ∨ kind = .counter) (description : Text) :
    Outcome.Matches same E (Run.instruction description code run) (Run.instruction description code run') :=
  ((h.step description).calls parallel (covered.parameters counted)).andThen fun _ _ h =>
    h.assignmentsOf parallel covered.statements

/-- **Runs that match over parallel environments go on matching** under every code that the scope covers, and
the same fault stops both if one does. -/
theorem execute (h : run.Matches same E run') (parallel : Parallel scope E) {construct : Construct}
    (covered : scope.Covers construct.kind code) :
    Outcome.Matches same E (run.execute construct code) (run'.execute construct code) := by
  obtain ⟨kind, name⟩ := construct
  cases kind with
  | plain => exact h.assignmentsOf parallel covered.statements
  | «if» =>
    simp only [Run.execute]
    split
    · exact ⟨h, rfl⟩
    · next found => exact h.ifBlock parallel covered found
  | «for» => exact h.loop parallel covered (.inl rfl)
  | «while» => exact h.loop parallel covered (.inr (.inl rfl))
  | «repeat» => exact h.loop parallel covered (.inr (.inr rfl))
  | case => exact h.caseOf parallel covered
  | timer => exact h.instruction parallel covered (.inl rfl) _
  | counter => exact h.instruction parallel covered (.inr rfl) _

end Run.Matches
end SclNarrator
