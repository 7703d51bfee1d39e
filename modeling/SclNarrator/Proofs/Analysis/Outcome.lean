import SclNarrator.Analysis.Session
import SclNarrator.Proofs.Except

/-!
An analysis taken apart: the tags it runs against, the outcome of its run, and the report on that. It
ends in one of three ways. The tags make no environment; the run, whatever its outcome, has a result
that cannot be told; or there is a report.
-/

namespace SclNarrator

namespace Outcome

def closed : Outcome → Run
  | (run, none) => run
  | (run, some fault) => run.warn (Analysis.runDiagnostic fault)

@[simp] theorem closed_env (outcome : Outcome) : outcome.closed.env = outcome.1.env := by
  obtain ⟨run, _ | fault⟩ := outcome <;> rfl

@[simp] theorem closed_assignments (outcome : Outcome) :
    outcome.closed.assignments = outcome.1.assignments := by
  obtain ⟨run, _ | fault⟩ := outcome <;> rfl

/-- The diagnostic for the fault that stopped a run, if there was one. -/
def trailing (outcome : Outcome) : List Diagnostic := (outcome.2.map Analysis.runDiagnostic).toList

theorem closed_diagnostics (outcome : Outcome) :
    outcome.closed.diagnostics = outcome.1.diagnostics ++ outcome.trailing := by
  obtain ⟨run, _ | fault⟩ := outcome
  · exact (List.append_nil _).symm
  · rfl

end Outcome

theorem Analysis.carryOut_eq (construct : Construct) (source : Text) (run : Run) :
    carryOut construct source run =
      ((run.execute construct source).closed, (run.execute construct source).2.isNone) := by
  unfold carryOut
  obtain ⟨run, _ | fault⟩ := run.execute construct source <;> rfl

namespace Session

/-- The snapshot of an analysis: the host's data, or the one to fall back on. -/
def snapshotFor (session : Session) : Option Json → Except SnapshotFault Snapshot
  | some data => Snapshot.ofJson data
  | none => .ok session.cache

/-- The tags that an analysis runs against: none if the data is malformed. -/
def tagsFor (session : Session) (data : Option Json) : Snapshot :=
  match session.snapshotFor data with
  | .ok snapshot => snapshot
  | .error _ => .empty

/-- The diagnostics from before the run: one if the data is malformed. -/
def leading (session : Session) (data : Option Json) : List Diagnostic :=
  match session.snapshotFor data with
  | .ok _ => []
  | .error fault => [Analysis.snapshotDiagnostic fault]

/-- The outcome of the run of an analysis, if the tags make an environment. -/
def outcome (session : Session) (code : Text) (data : Option Json) : Except Fault Outcome := do
  let run ← Run.start (session.tagsFor data) session.config.places
  let run := { run with diagnostics := session.leading data }
  return run.execute (Construct.classify code) (Source.stripComments true code)

variable {session : Session} {code : Text} {data : Option Json}

theorem analyze_eq_ofTags :
    session.analyze code data =
      Analysis.ofTags session.config code (session.tagsFor data) (session.leading data) := by
  unfold tagsFor leading
  cases data with
  | none => rfl
  | some data =>
    rw [analyze, Analysis.ofData, snapshotFor]
    cases Snapshot.ofJson data with
    | ok snapshot => rfl
    | error fault => rfl

theorem analyze_of_unseeded {fault : Fault} (h : session.outcome code data = .error fault) :
    session.analyze code data = .error fault := by
  unfold outcome at h
  rw [analyze_eq_ofTags, Analysis.ofTags]
  cases started : Run.start (session.tagsFor data) session.config.places with
  | error fault' =>
    rw [started] at h
    cases h
    rfl
  | ok run =>
    rw [started] at h
    cases h

theorem analyze_of_outcome {outcome : Outcome} (h : session.outcome code data = .ok outcome) :
    ∃ report : Text → Analysis,
      session.analyze code data = outcome.closed.narrative.map report ∧
      ∀ narrative,
        (report narrative).success = ((session.leading data).isEmpty && outcome.2.isNone) ∧
        (report narrative).assignments = outcome.1.assignments ∧
        (report narrative).diagnostics = outcome.closed.diagnostics := by
  unfold Session.outcome at h
  obtain ⟨run, started, made⟩ := ok_of_bind h
  rw [analyze_eq_ofTags, Analysis.ofTags, started]
  simp only [ok_bind, Analysis.carryOut_eq, Except.ok.inj made]
  refine ⟨_, rfl, fun narrative => ⟨rfl, ?_, rfl⟩⟩
  exact Outcome.closed_assignments outcome

end Session
end SclNarrator
