import SclNarrator.Json.Basic
import SclNarrator.Number.Numeral
import SclNarrator.Run.Execute
import SclNarrator.Source.Basic
import SclNarrator.Tag.Basic
import SclNarrator.Text.Basic
import SclNarrator.Text.Case

/-!
The analysis of a snippet, and sessions. The report says what the snippet is, which tags it mentions,
and what happens when it runs against a snapshot. Malformed data and faults during the run are
reported as diagnostics. Only a tag whose text cannot be decoded, and a result that is too long to be
written, leave no report. A session has options and a snapshot to fall back on when an analysis is
given none; analyses share nothing else.

Correspondence (analyzer ↔ here):
  `build_narrative`, `summarize`   ↔ `Report.narrative`, `Report.summary`
  `compute_statistics`             ↔ `Report.statistics`
  `extract_tags`                   ↔ `Extraction.ofCode`
  `AnalyzerConfig`                 ↔ `Config`, `Config.ofOptions`
  `AnalysisResult`                 ↔ `Analysis`
  `SclAnalyzer`                    ↔ `Session`
  `set_tag_cache`, `analyze`       ↔ `Session.setCache`, `Session.analyze`
-/

namespace SclNarrator

/-! ## The narrative

The narrative of a run and the summary of its code. -/

namespace Report

def resultLine (places : Nat) (b : Binding) : Except Fault Text := do
  return "  ".toText ++ b.name ++ " = ".toText ++ (← b.value.shown places) ++ " [".toText ++
    b.declaredType ++ "]".toText

/-- The steps, the diagnostics and the results, each section with an empty line behind it and none if
there is nothing in it. -/
def narrative (steps : List Text) (diagnostics : List Diagnostic) (bindings : List Binding)
    (places : Nat) : Except Fault Text := do
  let results ← bindings.mapM (resultLine places)
  let told := if steps.isEmpty then [] else [Text.join ['\n'] steps]
  let warnings :=
    if diagnostics.isEmpty then []
    else [Text.join ['\n']
      ("Avisos:".toText :: diagnostics.map fun d => "⚠ ".toText ++ d.message)]
  let outcome :=
    if results.isEmpty then [] else [Text.join ['\n'] ("Resultados:".toText :: results)]
  return (Text.join ['\n', '\n'] (told ++ warnings ++ outcome)).trim

/-- One line about code without comments: the line itself if there is only one. -/
def summary (code : Text) : Text :=
  match ((Text.partsAt '\n' code).map Text.trim).filter (fun line => !line.isEmpty) with
  | [] => "Código vazio".toText
  | [line] => line
  | lines => "Lógica SCL com ".toText ++ Numeral.natText lines.length ++ " linhas".toText

end Report

def Run.narrative (run : Run) : Except Fault Text :=
  Report.narrative run.steps run.diagnostics run.env.computed run.places

/-! ## Lines of code

Lines of code by kind. A line that starts with a comment is a comment line, and so are the lines up
to the end of a comment that goes on over several lines. -/

namespace Report

inductive LineKind where
  | code | comment | empty
  deriving DecidableEq, Repr

/-- The kind of a line, and the mark that ends the comment that is open behind it, if one is. -/
def lineKind (closing : Option Text) (line : Text) : LineKind × Option Text :=
  let t := line.trim
  match closing with
  | some mark => (.comment, if Text.hasPart mark t then none else some mark)
  | none =>
    match t with
    | [] => (.empty, none)
    | .char '/' :: .char '/' :: _ => (.comment, none)
    | .char '(' :: .char '*' :: rest =>
      (.comment, if Text.hasPart ['*', ')'] rest then none else some ['*', ')'])
    | .char '\x7b' :: rest => (.comment, if Text.hasPart ['\x7d'] rest then none else some ['\x7d'])
    | _ => (.code, none)

def lineKinds (closing : Option Text) : List Text → List LineKind
  | [] => []
  | line :: rest =>
    let (kind, closing) := lineKind closing line
    kind :: lineKinds closing rest

def linesOf (code : Text) : List Text := Text.partsAt '\n' code

structure Statistics where
  totalLines : Nat := 0
  codeLines : Nat := 0
  commentLines : Nat := 0
  emptyLines : Nat := 0
  tagsFound : Int := 0
  tagsInSnapshot : Int := 0
  tagsNotInSnapshot : Int := 0
  deriving DecidableEq, Repr

/-- The statistics of code with so many tags in and not in the snapshot. -/
def statistics (code : Text) (inSnapshot notInSnapshot : Int) : Statistics :=
  let kinds := lineKinds none (linesOf code)
  { totalLines := (linesOf code).length
    codeLines := kinds.count .code
    commentLines := kinds.count .comment
    emptyLines := kinds.count .empty
    tagsFound := inSnapshot + notInSnapshot
    tagsInSnapshot := inSnapshot
    tagsNotInSnapshot := notInSnapshot }

end Report

/-! ## Tags of a snippet

The tags that a snippet refers to, looked up in a snapshot. -/

/-- A tag that the code refers to, as the report shows it. -/
structure TagRecord where
  name : Text
  declaredType : Text
  value : Text
  found : Bool := true
  address : Option Text := none
  quality : Option Text := none
  deriving DecidableEq

def TagRecord.ofTag (tag : Tag) : TagRecord :=
  ⟨tag.name, tag.dataType, tag.value, true, tag.address, tag.quality⟩

def TagRecord.missing (name : Text) : TagRecord := ⟨name, "UNKNOWN".toText, [], false, none, none⟩

/-- What the identifiers of a snippet lead to: records, and names without a tag. -/
structure Extraction where
  records : List TagRecord := []
  unresolved : List Text := []
  deriving DecidableEq

namespace Extraction

/-- The extraction with one more name. A tag counts once, whatever the spellings of its name, and so
does a name without a tag. -/
def add (snapshot : Snapshot) (includeUnresolved : Bool) (x : Extraction) (name : Text) :
    Extraction :=
  match snapshot.find? name with
  | none =>
    if x.unresolved.any (·.fold == name.fold) then x
    else
      { records := if includeUnresolved then x.records ++ [.missing name] else x.records
        unresolved := x.unresolved ++ [name] }
  | some tag =>
    if x.records.any (fun r => r.found && r.name.fold == tag.name.fold) then x
    else { x with records := x.records ++ [.ofTag tag] }

/-- The tags of code without comments, in the order of their first occurrence. Names that are not in
the snapshot have records of their own only if they are asked for. -/
def ofCode (code : Text) (snapshot : Snapshot) (includeUnresolved : Bool) : Extraction :=
  (Source.identifiers code).foldl (add snapshot includeUnresolved) {}

/-- The number of records found in the snapshot. -/
def foundCount (x : Extraction) : Nat := (x.records.filter TagRecord.found).length

end Extraction

/-! ## Options

The options of an analysis, and options from data that a host supplies. -/

/-- The options of an analysis. The time budget stops nothing. -/
structure Config where
  timeBudget : Int := 5000
  reportUnresolved : Bool := false
  places : Nat := 2
  deriving DecidableEq

namespace Config

abbrev Cause := Text

def wholeText (t : Text) : Except Cause Int :=
  match Whole.read t with
  | .ok n => .ok n
  | .error .tooLong => .error "int_parsing_size".toText
  | .error .malformed => .error "int_parsing".toText

/-- The size that a number with a point has to stay below to be taken for a whole one. -/
def doubleLimit : Nat := Nat.pow 2 63

/-- Whether a whole number that was given with a point is small enough. -/
def inDoubleRange (n : Int) : Bool := n.natAbs < doubleLimit

/-- Whether a whole number is small enough to be taken for a truth value. -/
def inTruthRange (n : Int) : Bool := -(doubleLimit : Int) ≤ n && n < doubleLimit

def wholeOption : Json → Except Cause Int
  | .bool b => .ok b.toNat
  | .int n => .ok n
  | .float x =>
    match Double.trunc? x with
    | none => .error "finite_number".toText
    | some n =>
      if !Double.isWhole x then .error "int_from_float".toText
      else if inDoubleRange n then .ok n
      else .error "int_parsing_size".toText
  | .text t => wholeText t
  | _ => .error "int_type".toText

def truthOfNumber (n : Int) : Except Cause Bool :=
  if n = 0 then .ok false else if n = 1 then .ok true else .error "bool_parsing".toText

def truthOption : Json → Except Cause Bool
  | .bool b => .ok b
  | .int n => if inTruthRange n then truthOfNumber n else .error "bool_type".toText
  | .float x =>
    match Double.trunc? x with
    | some n =>
      if Double.isWhole x && inDoubleRange n then truthOfNumber n else .error "bool_type".toText
    | none => .error "bool_type".toText
  | .text t =>
    let word := t.lower
    if ["true", "t", "yes", "y", "on", "1"].any (·.toText == word) then .ok true
    else if ["false", "f", "no", "n", "off", "0"].any (·.toText == word) then .ok false
    else .error "bool_parsing".toText
  | _ => .error "bool_type".toText

def budgetOption (v : Json) : Except Cause Int := do
  let n ← wholeOption v
  if 0 < n then return n else .error "greater_than".toText

/-- The number of places, from none to ten. -/
def placesInRange (n : Int) : Except Cause Nat :=
  if n < 0 then .error "greater_than_equal".toText
  else if 10 < n then .error "less_than_equal".toText
  else .ok n.toNat

def placesOption (v : Json) : Except Cause Nat := do placesInRange (← wholeOption v)

def option {α : Type} (fields : List (Text × Json)) (name : String) (read : Json → Except Cause α)
    (default : α) : Except (Text × Text) α :=
  match fields.lookup name.toText with
  | none => .ok default
  | some v => match read v with
    | .ok a => .ok a
    | .error cause => .error (name.toText, cause)

def refused {α : Type} : Except (Text × Text) α → List (Text × Text)
  | .ok _ => []
  | .error e => [e]

/-- The options that named values make, or all that are refused; other names are ignored. -/
def ofFields (fields : List (Text × Json)) : Except (List (Text × Text)) Config :=
  let budget := option fields "max_execution_time_ms" budgetOption 5000
  let report := option fields "report_unresolved_tags" truthOption false
  let places := option fields "decimal_places" placesOption 2
  match budget, report, places with
  | .ok budget, .ok report, .ok places => .ok ⟨budget, report, places⟩
  | budget, report, places => .error (refused budget ++ refused report ++ refused places)

/-- Why options that stand beside the code and the snapshot of an analysis are refused. -/
inductive OptionsFault where
  /-- An option has the name of another input. -/
  | inputName (name : Text)
  /-- Options are refused, for a cause each. -/
  | refused (fields : List (Text × Text))
  deriving DecidableEq

/-- The names of the other inputs of an analysis. -/
def inputNames : List Text := ["code".toText, "snapshot".toText]

/-- The options that stand beside the code and the snapshot of an analysis; a name of these is refused
before any option is read. -/
def ofOptions (fields : List (Text × Json)) : Except OptionsFault Config :=
  match fields.find? fun (name, _) => inputNames.contains name with
  | some (name, _) => .error (.inputName name)
  | none => (ofFields fields).mapError .refused

def refusalMessage (fields : List (Text × Text)) : Text := refusal "AnalyzerConfig".toText fields

end Config

/-! ## Reports

The analysis of a snippet: what it is, which tags it mentions, and what happens when it runs against a
snapshot. Malformed data and faults during the run are reported as diagnostics. Only a tag whose text
cannot be decoded, and a result that is too long to be written, leave no report. -/

structure Analysis where
  success : Bool
  construct : Construct
  summary : Text
  tags : List TagRecord
  assignments : List Assigned
  bindings : List Binding
  narrative : Text
  diagnostics : List Diagnostic
  statistics : Report.Statistics
  deriving DecidableEq

namespace Analysis

/-- The final binding of a name among the results, in any letter case. -/
def binding? (a : Analysis) (name : Text) : Option Binding :=
  a.bindings.find? fun b => b.name.fold == name.fold

def lastAssignment? (a : Analysis) : Option Assigned := a.assignments.getLast?

def snapshotDiagnostic (fault : SnapshotFault) : Diagnostic :=
  ⟨.error, "Snapshot de tags inválido: ".toText ++ fault.message, none⟩

def runDiagnostic (fault : Fault) : Diagnostic :=
  ⟨.error, "Erro na análise: ".toText ++ fault.message, none⟩

/-- The run over a snippet, with a diagnostic for the fault that stopped it; whether none did. -/
def carryOut (construct : Construct) (source : Text) (run : Run) : Run × Bool :=
  match run.execute construct source with
  | (run, none) => (run, true)
  | (run, some fault) => (run.warn (runDiagnostic fault), false)

/-- The report on code against tags. `earlier` are the diagnostics from before the run, which make the
analysis fail. -/
def ofTags (config : Config) (code : Text) (snapshot : Snapshot) (earlier : List Diagnostic) :
    Except Fault Analysis := do
  let run ← Run.start snapshot config.places
  let run := { run with diagnostics := earlier }
  let construct := Construct.classify code
  let source := Source.stripComments true code
  let extraction :=
    Extraction.ofCode (Source.stripComments false code) snapshot config.reportUnresolved
  let (run, completed) := carryOut construct source run
  let narrative ← run.narrative
  return {
    success := earlier.isEmpty && completed
    construct
    summary := Report.summary source
    tags := extraction.records
    assignments := run.assignments
    bindings := run.env.computed
    narrative
    diagnostics := run.diagnostics
    statistics := Report.statistics code extraction.foundCount extraction.unresolved.length }

/-- The report on code against data that a host supplies as a snapshot. -/
def ofData (config : Config) (code : Text) (data : Json) : Except Fault Analysis :=
  match Snapshot.ofJson data with
  | .ok snapshot => ofTags config code snapshot []
  | .error fault => ofTags config code .empty [snapshotDiagnostic fault]

end Analysis

/-! ## Sessions

A session: options, and a snapshot to fall back on when an analysis is given none. Analyses share
nothing else. -/

structure Session where
  config : Config := {}
  cache : Snapshot := .empty

namespace Session

def setCache (session : Session) (data : Json) : Except SnapshotFault Session := do
  return { session with cache := ← Snapshot.ofJson data }

/-- The report on code against a snapshot, or against the one to fall back on. -/
def analyze (session : Session) (code : Text) : Option Json → Except Fault Analysis
  | some data => Analysis.ofData session.config code data
  | none => Analysis.ofTags session.config code session.cache []

end Session

end SclNarrator
