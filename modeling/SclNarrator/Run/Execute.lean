import SclNarrator.Expr.Evaluate
import SclNarrator.Source.Basic
import SclNarrator.Source.Structure

/-!
Runs. A run has an environment and what it has recorded so far: the steps of the narrative, the
assignments made, and the diagnostics. A snippet is carried out by its construct. A fault stops the
run where it strikes and keeps what was recorded before.

Correspondence (analyzer ↔ here):
  `RunContext`, `step`, `warn`            ↔ `Run`, `Run.step`, `Run.warn`
  `clean_for_display`, `_verdict`         ↔ `displayed`, `Run.verdictStep`
  `_assign`, `execute_assignments`        ↔ `Run.assign`, `Run.assignmentsOf`
  `_test_condition`, `_format_values_used` ↔ `Run.explainCondition`, `Run.currentValues`
  `_exec_plain`, `_exec_if`               ↔ `Run.assignmentsOf`, `Run.ifBlock`
  `_exec_loop`, `_exec_case`              ↔ `Run.loop`, `Run.caseOf`
  `_describe_case_branch`                 ↔ `Run.branchOf`
  `_exec_timer`, `_exec_counter`, `_describe_calls` ↔ `Run.instruction`, `Run.calls`
  `ExecutionEngine.execute`               ↔ `Run.execute`
-/

namespace SclNarrator

/-! ## Runs

A run: the environment, and what the run has recorded so far, which are the steps of the narrative,
the assignments made, and the diagnostics. -/

inductive Severity where
  | info | warning | error
  deriving DecidableEq, Repr

def Severity.name : Severity → Text
  | .info => "INFO".toText
  | .warning => "WARNING".toText
  | .error => "ERROR".toText

def Severity.ofName? (t : Text) : Option Severity :=
  [Severity.info, .warning, .error].find? fun s => s.name == t

/-- Something that the reader is to be warned of. -/
structure Diagnostic where
  severity : Severity
  message : Text
  subject : Option Text := none
  deriving DecidableEq

structure Assigned where
  target : Text
  value : Value
  inferredType : InferredType
  expression : Text
  deriving DecidableEq

structure Run where
  env : Environment
  places : Nat := 2
  steps : List Text := []
  assignments : List Assigned := []
  diagnostics : List Diagnostic := []
  deriving DecidableEq

/-- A run after some work, and the fault that stopped the work if there was one. What was recorded
before the fault stays. -/
abbrev Outcome := Run × Option Fault

/-- Work after work: the second part is done if the first was not stopped. -/
def Outcome.andThen (outcome : Outcome) (next : Run → Outcome) : Outcome :=
  match outcome with
  | (run, none) => next run
  | (run, some fault) => (run, some fault)

namespace Run

/-- A run over the tags of a snapshot that has done nothing yet. -/
def start (snapshot : Snapshot) (places : Nat) : Except Fault Run := do
  return { env := ← Environment.seed snapshot, places }

def step (run : Run) (text : Text) : Run := { run with steps := run.steps ++ [text] }

def warn (run : Run) (diagnostic : Diagnostic) : Run :=
  { run with diagnostics := run.diagnostics ++ [diagnostic] }

/-- The value of an expression in the run's environment. -/
def evaluate (run : Run) (expression : Text) : Value := run.env.evaluate expression

def shown (run : Run) (v : Value) : Except Fault Text := v.shown run.places

/-- The step that a text makes, unless there is none to show. -/
def narrate (run : Run) (text : Except Fault Text) : Outcome :=
  match text with
  | .ok t => (run.step t, none)
  | .error fault => (run, some fault)

end Run

/-! ## Assignments

Assignments carried out, one after the other. -/

/-- A text for display: tag names without their quotes, and one space between words. -/
def displayed (t : Text) : Text := (Text.replaceAll quotedName t).collapse

namespace Run

/-- What there is to say about the value of an assignment: that there is none, or that it is infinite
or no number. -/
def remark? (target : Text) (value : Value) : Option Diagnostic :=
  match value with
  | .none => some ⟨.info, "Expressão não avaliada em: ".toText ++ target, some target⟩
  | .float x =>
    match Double.view x with
    | .nan =>
      some ⟨.warning, "Resultado inválido (NaN) em: ".toText ++ target ++
        " - possível divisão por zero".toText, some target⟩
    | .infinite negative =>
      some ⟨.warning, "Divisão por zero em: ".toText ++ target ++ " → ".toText ++
        (if negative then "-∞ (div/0)" else "∞ (div/0)").toText, some target⟩
    | .finite .. => none
  | _ => none

def remark (run : Run) (target : Text) (value : Value) : Run :=
  match remark? target value with
  | some diagnostic => run.warn diagnostic
  | none => run

def assignmentStep (run : Run) (a : Source.Assignment) (value : Value) : Except Fault Text := do
  return a.target ++ " := ".toText ++ displayed a.expression ++ " → ".toText ++ (← run.shown value)

/-- The run after a value was bound and recorded. -/
def record (run : Run) (a : Source.Assignment) (value : Value) : Outcome :=
  match run.env.bind a.target value value.inferredType.name with
  | .error fault => (run, some fault)
  | .ok env =>
    let made : Assigned := ⟨a.target, value, value.inferredType, a.expression⟩
    let run := { run with env, assignments := run.assignments ++ [made] }
    run.narrate (run.assignmentStep a value)

/-- The run after one assignment: its expression is evaluated, remarked on, bound, recorded and told
of. -/
def assign (run : Run) (a : Source.Assignment) : Outcome :=
  let value := (run.evaluate a.expression).normalize
  (run.remark a.target value).record a value

/-- The run after assignments, in order; the first fault stops it. -/
def assignAll : List Source.Assignment → Run → Outcome
  | [], run => (run, none)
  | a :: rest, run => (run.assign a).andThen (assignAll rest)

def assignmentsOf (code : Text) (run : Run) : Outcome := assignAll (Source.assignments code) run

end Run

/-! ## IF structures

`IF` structures carried out: conditions are tested in order, and the body of the first that is true is
executed. -/

namespace Run

/-- The bindings that a condition mentions, each once, in the order of the identifiers. -/
def mentioned (env : Environment) (seen : List Text) : List Text → List Binding
  | [] => []
  | name :: rest =>
    match env.lookup name with
    | none => mentioned env seen rest
    | some binding =>
      let key := binding.name.fold
      if seen.contains key then mentioned env seen rest
      else binding :: mentioned env (key :: seen) rest

def currentLine (run : Run) (binding : Binding) : Except Fault Text := do
  return "  ".toText ++ binding.name ++ " [".toText ++ binding.declaredType ++ "] = ".toText ++
    (← run.shown binding.value)

/-- The step with the current values of what a condition mentions; nothing if it mentions nothing. -/
def currentValues (run : Run) (condition : Text) : Outcome :=
  match mentioned run.env [] (Source.identifiers condition) with
  | [] => (run, none)
  | bindings => run.narrate do
    let lines ← bindings.mapM run.currentLine
    return Text.join ['\n'] ("Valores atuais:".toText :: lines)

def operandLine (run : Run) (operand : Text) : Except Fault Text := do
  return "  ".toText ++ displayed operand ++ " → ".toText ++ (← run.shown (run.evaluate operand))

/-- The step with the values of a condition's operands, if there are several. -/
def operandValues (run : Run) (condition : Text) : Outcome :=
  let operands := Source.logicOperands condition
  if operands.length ≤ 1 then (run, none)
  else run.narrate do
    let lines ← operands.mapM run.operandLine
    return Text.join ['\n'] ("Avaliação:".toText :: lines)

/-- Whether a condition holds: its value is the truth value true, and not only a number that is not
zero. -/
def holds (run : Run) (condition : Text) : Bool := run.evaluate condition = .bool true

/-- The steps that tell of a condition, up to its verdict. -/
def explainCondition (run : Run) (keyword condition : Text) : Outcome :=
  ((run.step (keyword ++ " ".toText ++ displayed condition)).currentValues condition).andThen fun run =>
    run.operandValues condition

def verdictStep (holds : Bool) : Text :=
  "Condição: ".toText ++ (if holds then "VERDADEIRA" else "FALSA").toText

/-- The run behind conditions and bodies: those of the first condition that holds, or what is done
otherwise. `keyword` and `block` name the first condition and its body. -/
def branches (otherwise : Option Text) (keyword block : Text) : List (Text × Text) → Run → Outcome
  | [], run =>
    match otherwise with
    | some body =>
      if body.blank then (run.step "→ Nenhum bloco executado".toText, none)
      else assignmentsOf body (run.step "→ Executa bloco ELSE".toText)
    | none => (run.step "→ Nenhum bloco executado".toText, none)
  | (condition, body) :: rest, run =>
    (run.explainCondition keyword condition).andThen fun run =>
      let verdict := run.holds condition
      let run := run.step (verdictStep verdict)
      if verdict then assignmentsOf body (run.step ("→ Executa bloco ".toText ++ block))
      else branches otherwise "ELSIF".toText "ELSIF".toText rest run

/-- The run after the statements around and in an `IF` structure. -/
def ifBlock (block : Source.IfBlock) (run : Run) : Outcome :=
  ((assignmentsOf block.before run).andThen
    (branches block.otherwise "IF".toText "THEN".toText block.branches)).andThen
      (assignmentsOf block.after)

end Run

/-! ## Constructs

A snippet carried out by its construct. Plain statements and `IF` structures are executed. A loop, a
`CASE` statement, a timer or a counter is described, and its statements are executed once: no loop
repeats, and no branch of a `CASE` is left out. -/

namespace Run

def loopVerdict (v : Value) : Text :=
  match v with
  | .bool true => "VERDADEIRA".toText
  | .bool false => "FALSA".toText
  | _ => "indeterminada".toText

/-- A description of a loop without a complete header. -/
def plainLoop : Text := "Estrutura de repetição".toText

/-- The description of a `FOR` loop. -/
def describeFor (h : Source.ForHeader) : Text :=
  "Loop FOR: ".toText ++ h.counter ++ " de ".toText ++ displayed h.start ++ " até ".toText ++
    displayed h.stop ++
    match h.step with
    | some step => " (passo ".toText ++ displayed step ++ ")".toText
    | none => []

/-- The description of a loop with a condition; `word` says how the condition governs it. -/
def describeCondition (run : Run) (word condition : Text) : Text :=
  "Loop ".toText ++ word ++ " ".toText ++ displayed condition ++ " (atualmente ".toText ++
    loopVerdict (run.evaluate condition) ++ ")".toText

/-- The description of a loop, and the code without its header. -/
def describeLoop (run : Run) (kind : ConstructKind) (code : Text) : Text × Text :=
  match kind with
  | .for =>
    match Text.search Source.forHeader code with
    | some (before, h, after) => (describeFor h, before ++ after)
    | none => (plainLoop, code)
  | .while =>
    match Text.search Source.whileHeader code with
    | some (before, condition, after) =>
      (run.describeCondition "WHILE: executa enquanto".toText condition, before ++ after)
    | none => (plainLoop, code)
  | _ =>
    match Text.search Source.untilHeader code with
    | some (before, condition, after) =>
      (run.describeCondition "REPEAT: executa até".toText condition, before ++ after)
    | none => (plainLoop, code)

def loop (kind : ConstructKind) (code : Text) (run : Run) : Outcome :=
  let (description, body) := run.describeLoop kind code
  assignmentsOf body (run.step description)

/-- The step that names the branch of a `CASE` statement for a selector. -/
def branchStep (selector : Int) (body : Text) : Except Fault Text := do
  match ← Source.firstLabel? selector (Source.caseLabels body) with
  | some label => return "→ Ramo correspondente: ".toText ++ label.collapse
  | none =>
    if Source.hasElse body then return "→ Nenhum ramo corresponde (ELSE)".toText
    else return "→ Nenhum ramo corresponde".toText

/-- The step that names the selector of a `CASE` statement, with its value if it is bound. -/
def selectorStep (run : Run) (selector : Text) : Except Fault Text :=
  match run.env.lookup selector with
  | none => .ok ("Seletor: ".toText ++ selector)
  | some binding => do
    return "Seletor: ".toText ++ selector ++ " (valor atual: ".toText ++
      (← run.shown binding.value) ++ ")".toText

/-- The step that names the branch, if the selector is bound to a whole number. -/
def branchOf (run : Run) (selector body : Text) : Outcome :=
  match (run.env.lookup selector).map Binding.value with
  | some (.int n) => run.narrate (branchStep n body)
  | _ => (run, none)

/-- The run after a `CASE` statement. -/
def caseOf (code : Text) (run : Run) : Outcome :=
  match Text.search Source.caseHeader code with
  | none => assignmentsOf code (run.step "Estrutura CASE".toText)
  | some (before, written, after) =>
    let selector := Text.dropLeading '#' (displayed written)
    ((run.narrate (run.selectorStep selector)).andThen fun run =>
      run.branchOf selector after).andThen (assignmentsOf (before ++ after))

def parameterLine (run : Run) (p : Source.Parameter) : Except Fault Text :=
  if p.output then .ok ("  ".toText ++ p.name ++ " => ".toText ++ displayed p.expression)
  else do
    return "  ".toText ++ p.name ++ " := ".toText ++ displayed p.expression ++ " → ".toText ++
      (← run.shown (run.evaluate p.expression))

def callStep (run : Run) (c : Source.Call) : Except Fault Text := do
  let lines ← c.parameterList.mapM run.parameterLine
  return Text.join "\n".toText (("Chamada ".toText ++ displayed c.instanceName ++ ":".toText) :: lines)

/-- The run after all calls were told of. -/
def calls : List Source.Call → Run → Outcome
  | [], run => (run, none)
  | c :: rest, run => (run.narrate (run.callStep c)).andThen (calls rest)

/-- The description of a timer or counter by its instruction. -/
def describeInstruction (table : List (Text × Text)) (default : Text) (instruction : Option Text) :
    Text :=
  ((instruction.bind fun i => table.lookup i)).getD default

def timers : List (Text × Text) :=
  [("TON".toText, "Timer TON: liga saída após tempo (delay on)".toText),
    ("TOF".toText, "Timer TOF: desliga saída após tempo (delay off)".toText),
    ("TP".toText, "Timer TP: gera pulso com duração definida".toText),
    ("TONR".toText, "Timer TONR: timer com retenção".toText)]

def counters : List (Text × Text) :=
  [("CTU".toText, "Contador CTU: incrementa a cada pulso".toText),
    ("CTD".toText, "Contador CTD: decrementa a cada pulso".toText),
    ("CTUD".toText, "Contador CTUD: conta para cima e para baixo".toText)]

/-- The run after a timer or a counter: its description, its calls, and its statements. -/
def instruction (description code : Text) (run : Run) : Outcome :=
  (calls (Text.findAll Source.call code) (run.step description)).andThen (assignmentsOf code)

/-- The run after a snippet of code without comments, by the construct that governs it. An `IF`
structure that is not complete does nothing. -/
def execute (construct : Construct) (code : Text) (run : Run) : Outcome :=
  match construct.kind with
  | .plain => assignmentsOf code run
  | .if =>
    match Source.IfBlock.split? code with
    | none => (run, none)
    | some block => ifBlock block run
  | .for => loop .for code run
  | .while => loop .while code run
  | .repeat => loop .repeat code run
  | .case => caseOf code run
  | .timer =>
    instruction (describeInstruction timers "Temporizador".toText construct.instruction) code run
  | .counter =>
    instruction (describeInstruction counters "Contador".toText construct.instruction) code run

end Run

end SclNarrator
