import SclNarrator.Analysis.Session
import SclNarrator.Command.Files
import SclNarrator.Json.Basic
import SclNarrator.Number.Numeral
import SclNarrator.Tag.Basic
import SclNarrator.Text.Basic

/-!
The command line: its arguments, the two forms in which a report is printed, and the work of the
commands, given a way to read files and the standard input.

Correspondence (analyzer ↔ here):
  the parameters of the commands      ↔ `Command.parse?`
  `read_code`, `load_tags`            ↔ `Command.readCode`, `Command.readTags`
  `analyze`, `classify_command`       ↔ `Command.run`
  the exit code and the two outputs   ↔ `Ending`
-/

namespace SclNarrator

/-! ## Arguments

The arguments of the command line. -/

inductive Command where
  /-- A report on code from a file or, for `-`, from the standard input. -/
  | analyze (code : Text) (tags : Option Text) (json reportUnresolved : Bool) (places : Int)
  /-- The construct of code from a file or from the standard input. -/
  | classify (code : Text)
  deriving DecidableEq

namespace Command

/-- The options given so far, and the arguments that belong to none. Of an option that is given again
only the last value counts. -/
structure Given where
  tags : Option Text := none
  json : Bool := false
  reportUnresolved : Bool := false
  places : Option Text := none
  arguments : List Text := []
  deriving DecidableEq

inductive ValueOption where
  | tags | places
  deriving DecidableEq, Repr

def valueOption? (analyzing : Bool) (name : Text) : Option ValueOption :=
  if !analyzing then none
  else if name = "--tags".toText then some .tags
  else if name = "--decimal-places".toText then some .places
  else none

def setValue (given : Given) (option : ValueOption) (value : Text) : Given :=
  match option with
  | .tags => { given with tags := some value }
  | .places => { given with places := some value }

def setFlag (analyzing : Bool) (given : Given) (name : Text) : Option Given :=
  if name = "--verbose".toText then some given
  else if !analyzing then none
  else if name = "--json".toText then some { given with json := true }
  else if name = "--report-unresolved".toText then some { given with reportUnresolved := true }
  else none

/-- Whether an argument is one or several `v`s behind a dash. -/
def isVerboseLetters : Text → Bool
  | .char '-' :: rest => !rest.isEmpty && rest.all (· == .char 'v')
  | _ => false

def isOption (argument : Text) : Bool := argument.head? = some '-' && 1 < argument.length

/-- The options and arguments of a command, in any order; behind `--` there are only arguments. -/
def gather (analyzing : Bool) (given : Given) : List Text → Option Given
  | [] => some given
  | argument :: rest =>
    if argument = "--".toText then some { given with arguments := given.arguments ++ rest }
    else if isOption argument then
      let name := argument.takeWhile (· != .char '=')
      match valueOption? analyzing name with
      | some option =>
        match Text.splitOnce? ['='] argument, rest with
        | some (_, value), rest => gather analyzing (setValue given option value) rest
        | none, value :: rest => gather analyzing (setValue given option value) rest
        | none, [] => none
      | none =>
        if isVerboseLetters argument then gather analyzing given rest
        else (setFlag analyzing given argument).bind (gather analyzing · rest)
    else gather analyzing { given with arguments := given.arguments ++ [argument] } rest

/-- The number of places asked for; two if none is given. -/
def placesOf? : Option Text → Option Int
  | none => some 2
  | some value => (Whole.read value).toOption

def ofName? (name : Text) (arguments : List Text) : Option Command :=
  if name = "analyze".toText then
    match gather true {} arguments with
    | some ⟨tags, json, reportUnresolved, places, [code]⟩ =>
      (placesOf? places).map (.analyze code tags json reportUnresolved)
    | _ => none
  else if name = "classify".toText then
    match gather false {} arguments with
    | some ⟨_, _, _, _, [code]⟩ => some (.classify code)
    | _ => none
  else none

/-- The command that arguments ask for; none if they are not used as they should be. -/
def parse? : List Text → Option Command
  | [] => none
  | name :: rest =>
    if name = "--".toText then
      match rest with
      | [] => none
      | name :: rest => ofName? name rest
    else ofName? name rest

end Command

/-! ## Output

The two forms in which a report is printed: text for a reader, and JSON for a program. -/

def Value.toJson : Value → Json
  | none => .null
  | bool b => .bool b
  | int n => .int n
  | float x => .float x
  | text t => .text t
  | complex z => .text z.text

namespace Report

def field (name : String) (v : Json) : Text × Json := (name.toText, v)

def optional : Option Text → Json
  | some t => .text t
  | none => .null

def constructJson (c : Construct) : Json :=
  .object [field "kind" (.text c.kind.name), field "instruction" (optional c.instruction)]

def recordJson (r : TagRecord) : Json :=
  .object [field "name" (.text r.name), field "declaredType" (.text r.declaredType),
    field "value" (.text r.value), field "foundInSnapshot" (.bool r.found),
    field "address" (optional r.address), field "quality" (optional r.quality)]

def assignedJson (a : Assigned) : Json :=
  .object [field "variableName" (.text a.target), field "value" a.value.toJson,
    field "inferredType" (.text a.inferredType.name), field "sourceExpression" (.text a.expression)]

def bindingJson (b : Binding) : Json :=
  .object [field "name" (.text b.name), field "value" b.value.toJson,
    field "declaredType" (.text b.declaredType), field "origin" (.text b.origin.name)]

def diagnosticJson (d : Diagnostic) : Json :=
  .object [field "severity" (.text d.severity.name), field "message" (.text d.message),
    field "variable" (optional d.subject)]

def statisticsJson (s : Statistics) : Json :=
  .object [field "totalLines" (.int s.totalLines), field "codeLines" (.int s.codeLines),
    field "commentLines" (.int s.commentLines), field "emptyLines" (.int s.emptyLines),
    field "tagsFound" (.int s.tagsFound), field "tagsInSnapshot" (.int s.tagsInSnapshot),
    field "tagsNotInSnapshot" (.int s.tagsNotInSnapshot)]

def analysisJson (a : Analysis) : Json :=
  .object [field "success" (.bool a.success), field "classifiedType" (.text a.construct.kind.name),
    field "structure" (constructJson a.construct), field "summary" (.text a.summary),
    field "tagsReferenced" (.list (a.tags.map recordJson)),
    field "assignments" (.list (a.assignments.map assignedJson)),
    field "bindings" (.list (a.bindings.map bindingJson)), field "narrative" (.text a.narrative),
    field "diagnostics" (.list (a.diagnostics.map diagnosticJson)),
    field "statistics" (statisticsJson a.statistics)]

def tagLine (r : TagRecord) : Text :=
  "  ".toText ++ r.name ++ " [".toText ++ r.declaredType ++ "] = ".toText ++ r.value ++
    (if r.found then [] else " (não encontrada)".toText)

def analysisLines (a : Analysis) : List Text :=
  ["Tipo: ".toText ++ a.construct.kind.name, "Resumo: ".toText ++ a.summary] ++
    (if a.tags.isEmpty then [] else "Tags:".toText :: a.tags.map tagLine) ++
    (if a.narrative.isEmpty then [] else [[], a.narrative])

def constructLine (c : Construct) : Text :=
  match c.instruction with
  | some instruction =>
    if instruction.isEmpty then c.kind.name
    else c.kind.name ++ " (".toText ++ instruction ++ ")".toText
  | none => c.kind.name

/-- Lines as they are printed, without control sequences. -/
def printed (lines : List Text) : Text := lines.flatMap fun line => line.withoutControls ++ "\n".toText

end Report

/-! ## Commands

The work of the command line, given a way to read files and the standard input. -/

namespace Command

/-- Why a command ended without a result and without a message of its own. -/
inductive Crash where
  /-- A file cannot be read, and not because the system refused it. -/
  | unreadable (fault : ReadFault)
  /-- The analysis failed. -/
  | fault (fault : Fault)
  /-- A text with halves of characters was to be printed. -/
  | unprintable
  deriving DecidableEq

/-- How a command ended. -/
inductive Ending where
  /-- It was not used as it should be. -/
  | misused
  /-- Its input cannot be used. -/
  | refused (message : Text)
  /-- It broke off, after it had printed some of its result. -/
  | crashed (output : Text) (cause : Crash)
  /-- It printed its result; whether the analysis succeeded. -/
  | printed (output : Text) (success : Bool)
  deriving DecidableEq

def Ending.exitCode : Ending → Nat
  | .misused => 2
  | .refused _ => 2
  | .crashed .. => 1
  | .printed _ success => if success then 0 else 1

def Ending.output : Ending → Text
  | .printed output _ => output
  | .crashed output _ => output
  | _ => []

def Ending.errorOutput : Ending → Text
  | .misused => "Usage: analyze CODE [OPTIONS] | classify CODE\n".toText
  | .refused message => Report.printed ["Error: ".toText ++ message.escapeHalves]
  | _ => []

/-- What a command reads: files by their paths, and the standard input. -/
structure Input where
  file : Text → Except ReadFault (List UInt8)
  standard : List UInt8

def decoded (bytes : Except ReadFault (List UInt8)) : Except ReadFault Text :=
  match bytes with
  | .error fault => .error fault
  | .ok bytes => match Utf8.decode bytes with
    | .ok t => .ok t
    | .error fault => .error (.undecodable fault)

def readCode (input : Input) (code : Text) : Except ReadFault Text :=
  if code = "-".toText then decoded (.ok input.standard) else decoded (input.file code)

/-- The snapshot in a tags file; the message if there is none. -/
def readTags (input : Input) (path : Text) : Except Text Snapshot :=
  match decoded (input.file path) with
  | .error fault => .error fault.message
  | .ok text =>
    match TagFile.entries text with
    | .error fault => .error fault.message
    | .ok entries =>
      match Snapshot.ofEntries entries with
      | .error fault => .error fault.message
      | .ok snapshot => .ok snapshot

/-- The options of an analysis; the message if they are refused. -/
def configOf (reportUnresolved : Bool) (places : Int) : Except Text Config :=
  match Config.placesInRange places with
  | .ok places => .ok { reportUnresolved, places }
  | .error cause => .error (Config.refusalMessage [("decimal_places".toText, cause)])

/-- The inputs of an analysis, read in order: the code, the tags, the options. -/
def prepare (input : Input) (code : Text) (tags : Option Text) (reportUnresolved : Bool)
    (places : Int) : Except Text (Text × Snapshot × Config) := do
  let text ← (readCode input code).mapError ReadFault.message
  let snapshot ← match tags with
    | some path => readTags input path
    | none => .ok .empty
  let config ← configOf reportUnresolved places
  return (text, snapshot, config)

/-- The report in the form asked for, in the texts that are printed one by one. -/
def render (json : Bool) (a : Analysis) : List Text :=
  if json then [Json.write 0 (Report.analysisJson a)] else Report.analysisLines a

/-- The ending of a command that prints texts one by one: one that cannot be printed breaks it off. -/
def Ending.ofTexts (texts : List Text) (success : Bool) : Ending :=
  let output := Report.printed (texts.takeWhile Text.isWhole)
  if texts.all Text.isWhole then .printed output success else .crashed output .unprintable

def run (input : Input) : Command → Ending
  | .analyze code tags json reportUnresolved places =>
    match prepare input code tags reportUnresolved places with
    | .error message => .refused message
    | .ok (text, snapshot, config) =>
      match Analysis.ofTags config text snapshot [] with
      | .error fault => .crashed [] (.fault fault)
      | .ok a => .ofTexts (render json a) a.success
  | .classify code =>
    match readCode input code with
    | .error fault =>
      if fault.isSystem then .refused fault.message else .crashed [] (.unreadable fault)
    | .ok text => .ofTexts [Report.constructLine (Construct.classify text)] true

def runArguments (input : Input) (arguments : List Text) : Ending :=
  match parse? arguments with
  | some command => command.run input
  | none => .misused

end Command

end SclNarrator
