import Mathlib.Data.List.Induction
import SclNarrator.Analysis.Session

/-!
Histories of a session: calls that install a snapshot and calls that analyse a code, in any order.

What is proved:
  1. a session keeps its options and one snapshot, the one that was last installed without a fault
     (`cache_after` for one call, `cache_afterAll` for a history);
  2. what it answers behind any history is what a fresh session answers that is given this snapshot,
     and neither an analysis nor data that is refused leaves a trace (`answers_after_history`).

Correspondence (analyzer ↔ here):
  `set_tag_cache`, `analyze` ↔ `Session.setCache`, `Session.analyze`, the two forms of a `Call`
-/

namespace SclNarrator

inductive Call where
  /-- To fall back on other data from now on. -/
  | setCache (data : Json)
  /-- To report on code, against data or against the snapshot to fall back on. -/
  | analyze (code : Text) (data : Option Json)

/-- What a session answers. -/
inductive Answer where
  | installed
  | refused (fault : SnapshotFault)
  | reported (outcome : Except Fault Analysis)

def Call.installs? : Call → Answer → Option Json
  | .setCache data, .installed => some data
  | _, _ => none

/-- Data as the argument of an analysis: null is none. -/
def Json.given : Json → Option Json
  | .null => none
  | data => some data

namespace Session

def answer (session : Session) : Call → Answer
  | .setCache data =>
    match session.setCache data with
    | .ok _ => .installed
    | .error fault => .refused fault
  | .analyze code data => .reported (session.analyze code data)

/-- The session after a call. Data that is refused leaves it as it is. -/
def after (session : Session) : Call → Session
  | .setCache data => (session.setCache data).toOption.getD session
  | .analyze _ _ => session

def afterAll (session : Session) (calls : List Call) : Session := calls.foldl after session

/-- Calls with their answers, each given by the session that the calls before it left. -/
def transcript (session : Session) : List Call → List (Call × Answer)
  | [] => []
  | call :: calls => (call, session.answer call) :: (session.after call).transcript calls

def answers (session : Session) (calls : List Call) : List Answer := (session.transcript calls).map Prod.snd

/-- The data that was last installed in a transcript; an empty object if there is none. -/
def lastInstalled (entries : List (Call × Answer)) : Json :=
  (entries.reverse.findSome? fun entry => entry.1.installs? entry.2).getD (.object [])

theorem transcript_append (session : Session) (calls : List Call) (call : Call) :
    session.transcript (calls ++ [call]) =
      session.transcript calls ++ [(call, (session.afterAll calls).answer call)] := by
  induction calls generalizing session with
  | nil => rfl
  | cons first calls ih =>
    rw [List.cons_append, transcript, transcript, ih, List.cons_append]
    rfl

theorem afterAll_append (session : Session) (calls : List Call) (call : Call) :
    session.afterAll (calls ++ [call]) = (session.afterAll calls).after call := by
  rw [afterAll, List.foldl_append]
  rfl

theorem lastInstalled_append (entries : List (Call × Answer)) (call : Call) (answer : Answer) :
    lastInstalled (entries ++ [(call, answer)]) = (call.installs? answer).getD (lastInstalled entries) := by
  rw [lastInstalled, List.reverse_append, List.reverse_singleton, List.singleton_append, List.findSome?_cons]
  cases call.installs? answer with
  | none => rfl
  | some data => rfl

/-! ## What a call leaves -/

/-- The two ways in which data is dealt with: it is a snapshot and takes the place of the old one, or it is
refused and changes nothing. -/
theorem setCache_cases (session : Session) (data : Json) :
    (∃ snapshot, Snapshot.ofJson data = .ok snapshot ∧ session.answer (.setCache data) = .installed ∧
      session.after (.setCache data) = { session with cache := snapshot }) ∨
    ∃ fault, Snapshot.ofJson data = .error fault ∧ session.setCache data = .error fault ∧
      session.answer (.setCache data) = .refused fault ∧ session.after (.setCache data) = session := by
  rw [answer, after, setCache]
  cases Snapshot.ofJson data with
  | ok snapshot => exact .inl ⟨snapshot, rfl, rfl, rfl⟩
  | error fault => exact .inr ⟨fault, rfl, rfl, rfl, rfl⟩

theorem after_of_refused {session : Session} {data : Json} {fault : SnapshotFault}
    (refused : session.setCache data = .error fault) : session.after (.setCache data) = session := by
  rw [after, refused]
  rfl

theorem config_after (session : Session) (call : Call) : (session.after call).config = session.config := by
  cases call with
  | analyze code data => rfl
  | setCache data =>
    obtain ⟨snapshot, -, -, after⟩ | ⟨fault, -, -, -, after⟩ := session.setCache_cases data
    · rw [after]
    · rw [after]

/-- The options are those of the start, whatever was asked. -/
theorem config_afterAll (session : Session) (calls : List Call) :
    (session.afterAll calls).config = session.config := by
  induction calls using List.reverseRecOn with
  | nil => rfl
  | append_singleton calls call ih => rw [afterAll_append, config_after, ih]

/-- If the snapshot to fall back on is that of some data, it is so after a call of the data that was last
installed. -/
theorem cache_after {session : Session} {data : Json}
    (kept : Snapshot.ofJson data = .ok session.cache) (call : Call) :
    Snapshot.ofJson ((call.installs? (session.answer call)).getD data) = .ok (session.after call).cache := by
  cases call with
  | analyze code data' => exact kept
  | setCache data' =>
    obtain ⟨snapshot, read, answer, after⟩ | ⟨fault, -, -, answer, after⟩ := session.setCache_cases data'
    · rw [answer, after]
      exact read
    · rw [answer, after]
      exact kept

/-- The snapshot to fall back on is that of the data that was last installed. -/
theorem cache_afterAll (config : Config) (calls : List Call) :
    Snapshot.ofJson (lastInstalled (transcript { config } calls)) =
      .ok (afterAll { config } calls).cache := by
  induction calls using List.reverseRecOn with
  | nil => rfl
  | append_singleton calls call ih =>
    rw [transcript_append, lastInstalled_append, afterAll_append]
    exact cache_after ih call

/-- A session without a snapshot of its own reports on given data as one that falls back on its snapshot. -/
theorem analyze_given {session : Session} {data : Json} (kept : Snapshot.ofJson data = .ok session.cache)
    (code : Text) : analyze { config := session.config } code data.given = session.analyze code none := by
  have read (same : data.given = some data) :
      analyze { config := session.config } code data.given = session.analyze code none := by
    rw [same, analyze, analyze, Analysis.ofData, kept]
  cases data with
  | null =>
    have empty : session.cache = .empty := (Except.ok.inj kept).symm
    rw [Json.given, analyze, analyze, empty]
  | bool b => exact read rfl
  | int n => exact read rfl
  | float x => exact read rfl
  | text t => exact read rfl
  | list items => exact read rfl
  | object fields => exact read rfl

/-- **A history leaves nothing but the snapshot that was last installed.** Behind any history,
without data of its own an analysis gives what it gives in a fresh session that is handed this
snapshot, and with data what it gives in a fresh session. Data that is refused, and an analysis of
any outcome, change none of the later answers. -/
theorem answers_after_history (config : Config) (history : List Call) :
    let fresh : Session := { config }
    let session := fresh.afterAll history
    (∀ code, session.analyze code none =
      fresh.analyze code (lastInstalled (fresh.transcript history)).given) ∧
    (∀ code data, session.analyze code (some data) = fresh.analyze code (some data)) ∧
    (∀ data fault later, session.setCache data = .error fault →
      (fresh.afterAll (history ++ [.setCache data])).answers later = session.answers later) ∧
    ∀ code data later, (fresh.afterAll (history ++ [.analyze code data])).answers later =
      session.answers later := by
  have config' := config_afterAll { config } history
  refine ⟨fun code => ?_, fun code data => ?_, fun data fault later refused => ?_, fun code data later => ?_⟩
  · have given := analyze_given (cache_afterAll config history) code
    rw [config'] at given
    exact given.symm
  · rw [analyze, analyze, config']
  · rw [afterAll_append, after_of_refused refused]
  · rw [afterAll_append]
    rfl

/-- A history with data that is installed, an analysis that overwrites its tag, and data that is refused. -/
def pumpHistory : List Call :=
  [.setCache (.object [("Pump".toText,
    .object [("value".toText, .int 7), ("data_type".toText, .text "INT".toText)])]),
    .analyze "Pump := 1;".toText none, .setCache (.int 3), .analyze "x := 2;".toText (some (.object []))]

/-- Behind this history the tag still has its value, and data that is no object is refused without a trace. -/
theorem answers_after_history_pump :
    let session := afterAll {} pumpHistory
    (session.analyze "x := PUMP;".toText none).toOption.map (·.bindings.map Binding.value) = some [.int 7] ∧
    session.setCache (.text "tags".toText) = .error (.notObject "str".toText) ∧
    (afterAll {} (pumpHistory ++ [.setCache (.text "tags".toText)])).answers
      [.analyze "x := PUMP;".toText none] =
      session.answers [.analyze "x := PUMP;".toText none] := by
  obtain ⟨cached, -, refused, -⟩ := answers_after_history {} pumpHistory
  refine ⟨?_, rfl, refused _ _ _ rfl⟩
  rw [cached]
  decide +kernel

end Session
end SclNarrator
