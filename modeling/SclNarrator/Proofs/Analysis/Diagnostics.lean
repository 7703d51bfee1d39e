import SclNarrator.Proofs.Analysis.Outcome
import SclNarrator.Proofs.Run.Assign

/-!
The diagnostics of an analysis against the assignments that it reports.

What is proved:
  1. a run remarks on a value before it binds and records it, and the one kind of value that cannot be
     bound is never remarked on; so at every point of a run, also where a fault stops it, the remarks
     are those on the assignments recorded (`kept_mirrors`);
  2. around the remarks stand at most one error about the data and one about the run, each just if
     there was such a fault, and an analysis is a success if none of its diagnostics is an error
     (`Session.diagnostics_of_analyze`).

Correspondence (analyzer ↔ here):
  `RunContext.warn`, `_assign` ↔ `Run.warn`, `Run.assign`, `Value.concern`
  the handlers in `analyze`    ↔ the `leading` and `trailing` diagnostics
-/

namespace SclNarrator

/-- How serious it is that an assignment gives a value: no value at all is worth a note, an infinity or
something that is no number a warning. -/
def Value.concern : Value → Option Severity
  | none => some .info
  | float x =>
    match Double.view x with
    | .nan => some .warning
    | .infinite _ => some .warning
    | .finite .. => Option.none
  | _ => Option.none

theorem Value.concern_ne_error {v : Value} : v.concern ≠ some .error := by
  cases v with
  | float x =>
    rw [concern]
    cases Double.view x <;> simp
  | none => simp [concern]
  | bool b => simp [concern]
  | int n => simp [concern]
  | text t => simp [concern]
  | complex z => simp [concern]

namespace Run

theorem remark?_eq (target : Text) (value : Value) :
    (remark? target value).map (fun d => (d.severity, d.subject)) =
      value.concern.map fun s => (s, some target) := by
  cases value with
  | float x =>
    rw [remark?, Value.concern]
    cases Double.view x <;> rfl
  | none => rfl
  | bool b => rfl
  | int n => rfl
  | text t => rfl
  | complex z => rfl

theorem severity_of_remark? {target : Text} {value : Value} {d : Diagnostic}
    (h : remark? target value = some d) : d.severity ≠ .error := by
  have same := remark?_eq target value
  rw [h, Option.map_some] at same
  obtain ⟨s, concern, pair⟩ := Option.map_eq_some_iff.mp same.symm
  have severity : s = d.severity := congrArg Prod.fst pair
  intro error
  apply Value.concern_ne_error (v := value)
  rw [concern, severity, error]

theorem remark_diagnostics (run : Run) (target : Text) (value : Value) :
    (run.remark target value).diagnostics = run.diagnostics ++ (remark? target value).toList := by
  unfold remark
  cases remark? target value with
  | none => exact (List.append_nil _).symm
  | some d => rfl

theorem remark?_of_refused {env : Environment} {a : Source.Assignment} {fault : Fault}
    (h : env.assign a = .error fault) (target : Text) :
    remark? target (env.made a).value = none := by
  unfold Environment.assign Environment.bind at h
  split at h
  · next complex => rw [complex]; rfl
  · dsimp only at h
    split at h <;> cases h

/-- The diagnostics of a run are some from before, and behind them the remarks on the assignments
recorded. -/
def Mirrors (earlier : List Diagnostic) (run : Run) : Prop :=
  run.diagnostics = earlier ++ run.assignments.filterMap fun made => remark? made.target made.value

theorem kept_mirrors (earlier : List Diagnostic) : Kept (Mirrors earlier) where
  step := fun _ _ h => h
  assign := by
    intro run a h
    cases bound : run.env.assign a with
    | error fault =>
      rw [assign_of_refused bound, Mirrors, remark_diagnostics, remark?_of_refused bound,
        remark_assignments, Option.toList_none, List.append_nil]
      exact h
    | ok env =>
      have recorded : Mirrors earlier (run.recorded a env) := by
        rw [Mirrors, Run.recorded, remark_diagnostics, h, List.filterMap_append, List.append_assoc]
        rfl
      cases told : (run.env.made a).value.shown run.places with
      | error fault =>
        rw [assign_of_unspoken bound told]
        exact recorded
      | ok shown =>
        rw [assign_of_told bound told]
        exact recorded

end Run

namespace Session

variable {session : Session} {code : Text} {data : Option Json}

theorem mirrors_outcome {outcome : Outcome} (h : session.outcome code data = .ok outcome) :
    outcome.1.Mirrors (session.leading data) := by
  obtain ⟨run, started, made⟩ := ok_of_bind h
  obtain ⟨env, -, fresh⟩ := ok_of_bind started
  cases made
  cases fresh
  apply (Run.kept_mirrors _).execute
  exact (List.append_nil _).symm

theorem leading_ne_nil_iff :
    session.leading data ≠ [] ↔ ∃ fault, session.snapshotFor data = .error fault := by
  unfold leading
  cases session.snapshotFor data with
  | ok snapshot => simp
  | error fault => simp

theorem length_leading_le : (session.leading data).length ≤ 1 := by
  unfold leading
  cases session.snapshotFor data with
  | ok snapshot => exact Nat.zero_le 1
  | error fault => exact Nat.le_refl 1

theorem severity_of_mem_leading {d : Diagnostic} (h : d ∈ session.leading data) :
    d.severity = .error := by
  unfold leading at h
  split at h
  · cases h
  · rw [List.mem_singleton.mp h]
    rfl

end Session

namespace Outcome

variable {outcome : Outcome}

theorem trailing_ne_nil_iff : outcome.trailing ≠ [] ↔ ∃ fault, outcome.2 = some fault := by
  unfold trailing
  cases outcome.2 with
  | none => simp
  | some fault => simp

theorem length_trailing_le : outcome.trailing.length ≤ 1 := by
  unfold trailing
  cases outcome.2 with
  | none => exact Nat.zero_le 1
  | some fault => exact Nat.le_refl 1

theorem severity_of_mem_trailing {d : Diagnostic} (h : d ∈ outcome.trailing) :
    d.severity = .error := by
  rw [trailing, Option.mem_toList] at h
  obtain ⟨fault, -, rfl⟩ := Option.map_eq_some_iff.mp h
  rfl

end Outcome

/-- What comes first and last are errors and nothing between them is one, so that no error at all means
that nothing comes first or last. -/
theorem no_error_iff {first middle last : List Diagnostic}
    (outer : ∀ d ∈ first ++ last, d.severity = .error)
    (inner : ∀ d ∈ middle, d.severity ≠ .error) :
    (∀ d ∈ first ++ middle ++ last, d.severity ≠ .error) ↔ first = [] ∧ last = [] := by
  constructor
  · intro clean
    constructor
    · apply List.eq_nil_iff_forall_not_mem.mpr
      intro d mem
      exact clean d (by simp [mem]) (outer d (by simp [mem]))
    · apply List.eq_nil_iff_forall_not_mem.mpr
      intro d mem
      exact clean d (by simp [mem]) (outer d (by simp [mem]))
  · rintro ⟨rfl, rfl⟩
    simpa using inner

/-- **Diagnostics mirror assignments.** The diagnostics of a report are, in this order: an error if and
only if the data is malformed; one diagnostic for each assignment reported whose value is of concern, as
serious as that and naming its target; an error if and only if a fault stopped the run. The analysis
succeeds if and only if no diagnostic is an error. -/
theorem Session.diagnostics_of_analyze {session : Session} {code : Text} {data : Option Json}
    {a : Analysis} (h : session.analyze code data = .ok a) :
    ∃ outcome leading middle trailing,
      session.outcome code data = .ok outcome ∧
      a.diagnostics = leading ++ middle ++ trailing ∧
      leading.length ≤ 1 ∧ trailing.length ≤ 1 ∧
      (∀ d ∈ leading ++ trailing, d.severity = .error) ∧
      (leading ≠ [] ↔ ∃ fault, session.snapshotFor data = .error fault) ∧
      (trailing ≠ [] ↔ ∃ fault, outcome.2 = some fault) ∧
      middle.map (fun d => (d.severity, d.subject)) =
        a.assignments.filterMap (fun made =>
          made.value.concern.map fun s => (s, some made.target)) ∧
      (a.success = true ↔ ∀ d ∈ a.diagnostics, d.severity ≠ .error) := by
  cases ended : session.outcome code data with
  | error fault =>
    rw [analyze_of_unseeded ended] at h
    cases h
  | ok outcome =>
    obtain ⟨report, same, parts⟩ := analyze_of_outcome ended
    rw [same] at h
    obtain ⟨narrative, -, rfl⟩ := ok_of_map h
    obtain ⟨success, assignments, diagnostics⟩ := parts narrative
    let middle := outcome.1.assignments.filterMap fun made => Run.remark? made.target made.value
    have split : (report narrative).diagnostics =
        session.leading data ++ middle ++ outcome.trailing := by
      rw [diagnostics, Outcome.closed_diagnostics, mirrors_outcome ended]
    have outer : ∀ d ∈ session.leading data ++ outcome.trailing, d.severity = .error := by
      intro d mem
      rcases List.mem_append.mp mem with mem | mem
      · exact severity_of_mem_leading mem
      · exact Outcome.severity_of_mem_trailing mem
    have inner : ∀ d ∈ middle, d.severity ≠ .error := by
      intro d mem
      obtain ⟨made, -, remarked⟩ := List.mem_filterMap.mp mem
      exact Run.severity_of_remark? remarked
    refine ⟨outcome, session.leading data, middle, outcome.trailing, rfl, split, length_leading_le,
      Outcome.length_trailing_le, outer, leading_ne_nil_iff, Outcome.trailing_ne_nil_iff, ?_, ?_⟩
    · rw [assignments, List.map_filterMap]
      simp only [Run.remark?_eq]
    · rw [split, no_error_iff outer inner, success, Bool.and_eq_true, List.isEmpty_iff,
        Outcome.trailing]
      simp

/-- Malformed data, a division by zero, and a condition whose operand is too long to be told: all three
kinds of diagnostics stand in one report. -/
theorem Session.diagnostics_of_analyze_all_kinds :
    ∃ a, Session.analyze {} "x := 1/0; IF SHL(1,20000) OR x THEN END_IF;".toText (some (.int 5)) =
        .ok a ∧
      a.diagnostics.map Diagnostic.severity = [.error, .warning, .error] ∧
      (a.success = true ↔ ∀ d ∈ a.diagnostics, d.severity ≠ .error) := by
  have severities :
      (Session.analyze {} "x := 1/0; IF SHL(1,20000) OR x THEN END_IF;".toText
        (some (.int 5))).toOption.map (fun a => a.diagnostics.map Diagnostic.severity) =
        some [.error, .warning, .error] := by
    decide +kernel
  cases reported : Session.analyze {} "x := 1/0; IF SHL(1,20000) OR x THEN END_IF;".toText
      (some (.int 5)) with
  | error fault =>
    rw [reported] at severities
    cases severities
  | ok a =>
    rw [reported] at severities
    obtain ⟨_, _, _, _, -, -, -, -, -, -, -, -, success⟩ := diagnostics_of_analyze reported
    exact ⟨a, rfl, Option.some_inj.mp severities, success⟩

end SclNarrator
