import SclNarrator.Proofs.Program.Nested

/-!
Which assignments of code with `IF` structures are carried out.

What is proved: the conditions of the first structure are tested in the environment that the code
before it leaves, and of its bodies one is chosen. In that body, and behind the structure, every
assignment is carried out: the conditions of inner and later structures are not looked at
(`performs_execute_code`).

Correspondence (analyzer ↔ here):
  `split_if`, `_exec_if` ↔ `Source.IfBlock.split?`, `Run.ifBlock`
-/

namespace SclNarrator

theorem Carried.append {places : Nat} {env middle last : Environment} {as bs : List Source.Assignment}
    {made others : List Assigned} {fault : Option Fault} (first : Carried places env as made middle none)
    (second : Carried places middle bs others last fault) :
    Carried places env (as ++ bs) (made ++ others) last fault := by
  generalize ends : (none : Option Fault) = outcome at first
  induction first with
  | done => exact second
  | refused | unspoken => cases ends
  | told bound speech _ ih => exact .told bound speech (ih second ends)

/-- Whether a run that ended carried out given assignments: what it recorded is a first part of them, and
if no fault stopped it, they were all carried out, each in the environment that the ones before left. -/
def Performs (run : Run) (todo : List Source.Assignment) (out : Outcome) : Prop :=
  ∃ made, out.1.assignments = run.assignments ++ made ∧ made.map Assigned.written <+: todo ∧
    (out.2 = none → out.1.places = run.places ∧ Carried run.places run.env todo made out.1.env none)

theorem performs_assignAll (as : List Source.Assignment) (run : Run) :
    Performs run as (Run.assignAll as run) := by
  obtain ⟨made, carried, records⟩ := Run.carried_assignAll as run
  refine ⟨made, records, carried.written_prefix, fun done => ?_⟩
  rw [done] at carried
  obtain ⟨told, diagnostics, -, did⟩ := Run.assignAll_of_carried carried
  exact ⟨congrArg (fun o : Outcome => o.1.places) did, carried⟩

theorem performs_fault (as : List Source.Assignment) (run : Run) (steps : List Text) (fault : Fault) :
    Performs run as (run.steppedBy steps, some fault) :=
  ⟨[], (List.append_nil _).symm, List.nil_prefix, fun done => by cases done⟩

/-- Work behind other work adds its assignments. It is only begun if no fault was met. -/
theorem Performs.andThen {run : Run} {as bs : List Source.Assignment} {out : Outcome} {work : Run → Outcome}
    (first : Performs run as out) (second : out.2 = none → Performs out.1 bs (work out.1)) :
    Performs run (as ++ bs) (out.andThen work) := by
  obtain ⟨next, fault⟩ := out
  obtain ⟨made, records, isPrefix, carried⟩ := first
  cases fault with
  | some fault =>
    refine ⟨made, records, isPrefix.trans (List.prefix_append _ _), fun done => ?_⟩
    cases done
  | none =>
    obtain ⟨places, carried⟩ := carried rfl
    obtain ⟨others, records', isPrefix', carried'⟩ := second rfl
    refine ⟨made ++ others, ?_, ?_, fun done => ?_⟩
    · rw [← List.append_assoc, ← records]
      exact records'
    · rw [List.map_append, carried.written_eq, List.prefix_append_right_inj]
      exact isPrefix'
    · obtain ⟨places', carried'⟩ := carried' done
      refine ⟨places'.trans places, carried.append ?_⟩
      rw [← places]
      exact carried'

namespace Program

/-! ## Bodies -/

/-- Code behind more blanks. -/
def Code.indent (gap : Gap) : Code → Code
  | .done tail => .done (gap.append tail)
  | .write lead w rest => .write (gap.append lead) w rest
  | .branch lead head inner body arms gap' rest =>
    .branch (gap.append lead) head inner body arms gap' rest

theorem Code.text_indent (gap : Gap) (c : Code) : (c.indent gap).text = gap.text ++ c.text := by
  cases c <;> simp [Code.indent, Code.text, Gap.append]

theorem Code.assignments_indent (gap : Gap) (c : Code) : (c.indent gap).assignments = c.assignments := by
  cases c <;> rfl

theorem assignmentsOf_bodyText (inner : Space) (body : Code) :
    Run.assignmentsOf (bodyText inner body) = Run.assignAll body.assignments := by
  funext run
  rw [Run.assignmentsOf, bodyText, ← Code.text_indent, assignments_code, Code.assignments_indent]

theorem assignmentsOf_code (c : Code) : Run.assignmentsOf c.text = Run.assignAll c.assignments := by
  funext run
  rw [Run.assignmentsOf, assignments_code]

theorem assignments_of_blank {inner : Space} {body : Code} (h : (bodyText inner body).blank = true) :
    body.assignments = [] := by
  have blank {c : CodePoint} (mem : c ∈ body.text) : isBlank c = true :=
    List.all_eq_true.mp h c (List.mem_append_right _ mem)
  cases body with
  | done tail => rfl
  | write lead w rest =>
    have : isBlank (.char ';') = true := blank (by simp [Code.text, Write.text, Statement.text])
    cases this
  | branch lead head inner' body arms gap rest =>
    have : isBlank (.char ';') = true := blank (by simp [Code.text, closing])
    cases this

/-! ## The choice -/

/-- The assignments of the first body whose condition holds, or of what is done otherwise: all of them,
whatever structures they stand in there. -/
def chosenFrom (env : Environment) (otherwise : Option (Space × Code)) :
    List (Head × Space × Code) → List Source.Assignment
  | [] =>
    match otherwise with
    | some (_, body) => body.assignments
    | none => []
  | (head, _, body) :: bs =>
    if env.holds head.guard.text then body.assignments else chosenFrom env otherwise bs

theorem performs_branches (otherwise : Option (Space × Code)) (bs : List (Head × Space × Code)) :
    ∀ keyword block run, Performs run (chosenFrom run.env otherwise bs)
      (Run.branches (otherwiseParts otherwise) keyword block (bs.map branchParts) run) := by
  induction bs with
  | nil =>
    intro keyword block run
    cases otherwise with
    | none => exact performs_assignAll [] (run.step "→ Nenhum bloco executado".toText)
    | some body =>
      obtain ⟨inner, body⟩ := body
      simp only [otherwiseParts, Option.map_some, List.map_nil, Run.branches, chosenFrom]
      split
      · next blank =>
        rw [assignments_of_blank blank]
        exact performs_assignAll [] (run.step "→ Nenhum bloco executado".toText)
      · rw [assignmentsOf_bodyText]
        exact performs_assignAll body.assignments (run.step "→ Executa bloco ELSE".toText)
  | cons b bs ih =>
    intro keyword block run
    obtain ⟨head, inner, body⟩ := b
    rw [List.map_cons, branchParts]
    cases told : run.env.silence? run.places head.guard.text with
    | some fault =>
      rw [Run.branches_of_silent _ _ _ _ _ _ told]
      exact performs_fault _ run _ fault
    | none =>
      cases holds : run.env.holds head.guard.text with
      | true =>
        rw [Run.branches_of_holds _ _ _ _ _ _ told holds, assignmentsOf_bodyText, chosenFrom, if_pos holds]
        exact performs_assignAll body.assignments (run.steppedBy _)
      | false =>
        rw [Run.branches_of_fails _ _ _ _ _ _ told holds, chosenFrom, if_neg (by simp [holds])]
        exact ih "ELSIF".toText "ELSIF".toText (run.steppedBy _)

/-! ## Whole code -/

/-- The assignments that code makes if the conditions of its first structure are tested in an
environment: those before the structure, all that stand in the chosen body, and all that stand behind
the structure. Code without a structure makes none. -/
def Code.performed (c : Code) (env : Environment) : List Source.Assignment :=
  match c.after? with
  | none => []
  | some after => c.front.assignments ++ (chosenFrom env c.otherwise? c.branches ++ after.assignments)

theorem execute_code (c : Code) (instruction : Option Text) (run : Run) :
    Run.execute ⟨.if, instruction⟩ c.text run =
      match c.after? with
      | none => (run, none)
      | some after => ((Run.assignAll c.front.assignments run).andThen
          (Run.branches (otherwiseParts c.otherwise?) "IF".toText "THEN".toText
            (c.branches.map branchParts))).andThen (Run.assignAll after.assignments) := by
  simp only [Run.execute, split?_code]
  cases c.after? with
  | none => rfl
  | some after => simp only [Option.map_some, Run.ifBlock, assignmentsOf_code]

/-- Code with `IF` structures, run as such, carries out what it performs if the conditions of its first
structure are tested behind the code before it. -/
theorem performs_execute_code (c : Code) (instruction : Option Text) (run : Run) :
    Performs run (c.performed (Run.assignAll c.front.assignments run).1.env)
      (Run.execute ⟨.if, instruction⟩ c.text run) := by
  rw [execute_code, Code.performed]
  cases c.after? with
  | none => exact performs_assignAll [] run
  | some after =>
    dsimp only
    rw [← List.append_assoc]
    have front := performs_assignAll c.front.assignments run
    have body := front.andThen fun _ => performs_branches c.otherwise? c.branches "IF".toText "THEN".toText
      (Run.assignAll c.front.assignments run).1
    exact body.andThen fun _ => performs_assignAll after.assignments _

theorem isIdentifier_x : isIdentifier "x".toText = true := by decide

theorem isOperand_one : isOperand " 1".toText = true := by decide

/-- An assignment of 1 to `x`. -/
def writeX : Write where
  target := ⟨"x".toText, isIdentifier_x⟩
  gap := oneSpace.toGap
  expression := ⟨" 1".toText, isOperand_one⟩
  unstructured := by decide

/-- A structure with one condition, and blanks behind it. -/
def onlyIf (guard : Guard) (body : Code) (behind : Gap) : Code :=
  .branch .none ⟨oneSpace, guard, oneSpace⟩ oneSpace body .none .none (.done behind)

/-- An assignment under two conditions, of which the inner one does not hold. -/
def nestedIf : Code :=
  onlyIf ⟨⟨"TRUE".toText, by decide⟩, by decide⟩
    (onlyIf ⟨⟨"FALSE".toText, by decide⟩, by decide⟩
      (.write .none writeX (.done oneSpace.toGap)) oneSpace.toGap)
    .none

/-- An inner condition is not tested: the assignment under one that does not hold is carried out. -/
theorem inner_condition_is_not_tested :
    nestedIf.text = "IF TRUE THEN IF FALSE THEN x := 1; END_IF; END_IF;".toText ∧
    Environment.holds ⟨[]⟩ "FALSE".toText = false ∧
    (Run.execute ⟨.if, none⟩ nestedIf.text { env := ⟨[]⟩ }).1.assignments.map
      (fun a => (a.target, a.value)) = [("x".toText, .int 1)] := by
  refine ⟨by decide +kernel, by decide +kernel, by decide +kernel⟩

end Program
end SclNarrator
