import Mathlib.Data.List.Basic
import Mathlib.Data.List.Induction
import SclNarrator.Proofs.Run.Assign
import SclNarrator.Proofs.Run.Environment

/-!
The computed bindings of a run are the replay of the assignments it recorded.

An environment keeps its entries in one list, which assignments change in three ways: a binding of the
snapshot gives way to one at the end, a computed one is replaced in its place, a new one goes to the
end. The assignments are recorded elsewhere.

What is proved: the two records agree after every sequence of snippets (`computed_eq_replay`). The
entries are those of the snapshot that nothing was assigned to, and behind them, in the order of first
assignment, one for each target with what was assigned to it last (`Replayed`).

Correspondence (analyzer ↔ here):
  `_assign`, `bind_computed` ↔ `Run.assign`, `Environment.bind`
  `ExecutionEngine.execute`  ↔ `Run.execute`, any number of times on one run
-/

namespace SclNarrator

open Environment (Seeded)

namespace Assigned

/-- The form that the spellings of the target share. -/
def key (a : Assigned) : Text := a.target.fold

def binding (a : Assigned) : Binding := ⟨a.target, a.value, a.value.inferredType.name, .computed⟩

end Assigned

/-- The targets of assignments up to letter case, in the order of first assignment. -/
def assignedKeys (made : List Assigned) : List Text := (made.map Assigned.key).eraseDups

def lastAssigned? (made : List Assigned) (key : Text) : Option Assigned :=
  made.reverse.find? fun a => a.key = key

/-- The bindings that assignments leave: one for each target, in the order of first assignment, with
the spelling, the value and the type of the last one. -/
def replay (made : List Assigned) : List Binding :=
  (assignedKeys made).filterMap fun key => (lastAssigned? made key).map Assigned.binding

/-- The same bindings under their keys. -/
def replayEntries (made : List Assigned) : List (Text × Binding) :=
  (assignedKeys made).filterMap fun key => (lastAssigned? made key).map fun a => (key, a.binding)

theorem map_snd_replayEntries (made : List Assigned) :
    (replayEntries made).map Prod.snd = replay made := by
  simp only [replayEntries, replay, List.map_filterMap]
  congr 1
  funext key
  cases lastAssigned? made key <;> rfl

/-! ## One more assignment -/

theorem lastAssigned?_append (made : List Assigned) (a : Assigned) (key : Text) :
    lastAssigned? (made ++ [a]) key = if a.key = key then some a else lastAssigned? made key := by
  simp only [lastAssigned?, List.reverse_append, List.reverse_singleton, List.singleton_append,
    List.find?_cons]
  by_cases h : a.key = key <;> simp [h]

theorem mem_assignedKeys {made : List Assigned} {key : Text} :
    key ∈ assignedKeys made ↔ ∃ a ∈ made, a.key = key := by
  simp [assignedKeys, List.mem_eraseDups]

theorem assignedKeys_append (made : List Assigned) (a : Assigned) :
    assignedKeys (made ++ [a]) =
      if a.key ∈ assignedKeys made then assignedKeys made else assignedKeys made ++ [a.key] := by
  rw [assignedKeys, List.map_append, List.map_singleton, Environment.eraseDups_concat]
  simp only [assignedKeys, List.mem_eraseDups]

theorem nodup_assignedKeys (made : List Assigned) : (assignedKeys made).Nodup := by
  induction made using List.reverseRecOn with
  | nil => exact List.nodup_nil
  | append_singleton made a ih =>
    rw [assignedKeys_append]
    split
    · exact ih
    · next fresh => exact List.nodup_append.mpr ⟨ih, by simp, by grind⟩

theorem lastAssigned?_isSome {made : List Assigned} {key : Text} (h : key ∈ assignedKeys made) :
    (lastAssigned? made key).isSome := by
  obtain ⟨a, mem, rfl⟩ := mem_assignedKeys.mp h
  simp only [lastAssigned?, List.find?_isSome]
  exact ⟨a, List.mem_reverse.mpr mem, by simp⟩

theorem putKey_filterMap {key : Text} {b : Binding} {make : Text → Option Binding} {keys : List Text}
    (unique : keys.Nodup) (mem : key ∈ keys) (old : (make key).isSome) :
    putKey key b (keys.filterMap fun k => (make k).map (k, ·)) =
      keys.filterMap fun k => (if key = k then some b else make k).map (k, ·) := by
  induction keys with
  | nil => simp at mem
  | cons k rest ih =>
    obtain ⟨fresh, unique⟩ := List.nodup_cons.mp unique
    by_cases same : key = k
    · subst same
      obtain ⟨c, hc⟩ := Option.isSome_iff_exists.mp old
      have others : ∀ k ∈ rest, (if key = k then some b else make k).map (k, ·) =
          (make k).map (k, ·) := by
        intro k hk
        rw [if_neg]
        rintro rfl
        exact fresh hk
      simp [hc, putKey, List.filterMap_congr others]
    · have mem : key ∈ rest := (List.mem_cons.mp mem).resolve_left same
      have ih := ih unique mem
      cases hk : make k with
      | none => simpa [List.filterMap_cons, hk, same] using ih
      | some c =>
        have other : k ≠ key := fun h => same h.symm
        simpa [List.filterMap_cons, hk, same, putKey, other] using ih

/-- An assignment changes the replay as it changes an environment without a snapshot. -/
theorem replayEntries_append (made : List Assigned) (a : Assigned) :
    replayEntries (made ++ [a]) = putKey a.key a.binding (replayEntries made) := by
  have shape : ∀ made : List Assigned, replayEntries made =
      (assignedKeys made).filterMap fun key =>
        ((lastAssigned? made key).map Assigned.binding).map (key, ·) := by
    intro made
    simp [replayEntries, Option.map_map, Function.comp_def]
  have last : ∀ key, (lastAssigned? (made ++ [a]) key).map Assigned.binding =
      if a.key = key then some a.binding else (lastAssigned? made key).map Assigned.binding := by
    intro key
    rw [lastAssigned?_append]
    split <;> rfl
  simp only [shape, last, assignedKeys_append]
  split
  · next mem =>
    have old : ((lastAssigned? made a.key).map Assigned.binding).isSome := by
      simpa using lastAssigned?_isSome mem
    exact (putKey_filterMap (nodup_assignedKeys made) mem old).symm
  · next fresh =>
    have others : ∀ key ∈ assignedKeys made, (if a.key = key then some a.binding
        else (lastAssigned? made key).map Assigned.binding).map (key, ·) =
        ((lastAssigned? made key).map Assigned.binding).map (key, ·) := by
      intro key mem
      rw [if_neg]
      rintro rfl
      exact fresh mem
    rw [List.filterMap_append, List.filterMap_congr others]
    have apart : ∀ e ∈ (assignedKeys made).filterMap fun key =>
        ((lastAssigned? made key).map Assigned.binding).map (key, ·), e.1 ≠ a.key := by
      intro e he same
      obtain ⟨key, mem, made⟩ := List.mem_filterMap.mp he
      obtain ⟨b, -, rfl⟩ := Option.map_eq_some_iff.mp made
      exact fresh (same ▸ mem)
    have := putKey_append_of_not_mem (a := a.binding) apart []
    simpa [putKey] using this.symm

/-! ## The invariant -/

/-- The entries of a run that started with the entries `seeded`: those that nothing was assigned to,
and behind them the replay of the assignments. -/
def Replayed (seeded : List (Text × Binding)) (run : Run) : Prop :=
  run.env.entries =
    seeded.filter (fun e => e.1 ∉ assignedKeys run.assignments) ++ replayEntries run.assignments

theorem mem_replayEntries {made : List Assigned} {e : Text × Binding} (h : e ∈ replayEntries made) :
    e.1 ∈ assignedKeys made ∧ ∃ a ∈ made, a.key = e.1 ∧ e.2 = a.binding := by
  obtain ⟨key, mem, found⟩ := List.mem_filterMap.mp h
  obtain ⟨a, last, rfl⟩ := Option.map_eq_some_iff.mp found
  have here : a ∈ made := List.mem_reverse.mp (List.mem_of_find?_eq_some last)
  have same : a.key = key := by simpa using List.find?_some last
  exact ⟨mem, a, here, same, rfl⟩

/-- Where an environment finds the key of an assignment: among the entries of the snapshot if nothing
was assigned to it, and else among the computed ones. -/
theorem lookup_origin {seeded : List (Text × Binding)} (hs : Seeded seeded) {made : List Assigned}
    {key : Text} {b : Binding}
    (h : (seeded.filter (fun e => e.1 ∉ assignedKeys made) ++ replayEntries made).lookup key = some b) :
    b.origin = .cache ↔ key ∉ assignedKeys made := by
  have mem : (key, b) ∈ seeded.filter (fun e => e.1 ∉ assignedKeys made) ++ replayEntries made := by
    obtain ⟨front, back, split, -⟩ := List.lookup_eq_some_iff.mp h
    exact split ▸ List.mem_append_right front List.mem_cons_self
  rcases List.mem_append.mp mem with mem | mem
  · obtain ⟨mem, free⟩ := List.mem_filter.mp mem
    exact iff_of_true (hs _ mem).2 (by simpa using free)
  · obtain ⟨assigned, a, -, -, same⟩ := mem_replayEntries mem
    have computed : b.origin = .computed := by rw [show b = a.binding from same]; rfl
    exact iff_of_false (by simp [computed]) (by simpa using assigned)

theorem mem_assignedKeys_append {made : List Assigned} {a : Assigned} {key : Text} :
    key ∈ assignedKeys (made ++ [a]) ↔ key ∈ assignedKeys made ∨ key = a.key := by
  rw [assignedKeys_append]
  split
  · next known => exact ⟨.inl, fun h => h.elim id (· ▸ known)⟩
  · simp

/-- The entries of the snapshot that are left after one more assignment. -/
theorem filter_assignedKeys_append (seeded : List (Text × Binding)) (made : List Assigned)
    (a : Assigned) :
    seeded.filter (fun e => e.1 ∉ assignedKeys (made ++ [a])) =
      (seeded.filter fun e => e.1 ∉ assignedKeys made).filter (·.1 != a.key) := by
  rw [List.filter_filter]
  congr 1
  funext e
  by_cases known : e.1 ∈ assignedKeys made <;> by_cases same : e.1 = a.key <;>
    simp [mem_assignedKeys_append, known, same]

theorem replayed_bind {seeded : List (Text × Binding)} (hs : Seeded seeded) {made : List Assigned}
    {env env' : Environment} (a : Assigned)
    (before : env.entries =
      seeded.filter (fun e => e.1 ∉ assignedKeys made) ++ replayEntries made)
    (bound : env.bind a.target a.value a.value.inferredType.name = .ok env') :
    env'.entries =
      seeded.filter (fun e => e.1 ∉ assignedKeys (made ++ [a])) ++ replayEntries (made ++ [a]) := by
  rw [filter_assignedKeys_append, replayEntries_append]
  obtain ⟨old, found, cached, entries⟩ | ⟨uncached, entries⟩ := Environment.bind_cases bound
  · -- a binding of the snapshot gives way, so nothing was assigned to the key before
    have fresh : a.key ∉ assignedKeys made := (lookup_origin hs (before ▸ found)).mp cached
    have apart : ∀ e ∈ replayEntries made, e.1 ≠ a.key := by
      rintro e mem same
      exact fresh (same ▸ (mem_replayEntries mem).1)
    have all : (replayEntries made).filter (·.1 != a.key) = replayEntries made :=
      List.filter_eq_self.mpr fun e mem => by simpa using apart e mem
    have last := putKey_append_of_not_mem (a := a.binding) apart []
    rw [entries, before, List.filter_append]
    simp only [List.append_nil, putKey] at last
    rw [show a.target.fold = a.key from rfl, all, last, List.append_assoc]
    rfl
  · -- no entry of the snapshot under the key is left
    have apart : ∀ e ∈ seeded.filter (fun e => e.1 ∉ assignedKeys made), e.1 ≠ a.key := by
      intro e mem same
      have fresh : a.key ∉ assignedKeys made := by
        simpa [same] using (List.mem_filter.mp mem).2
      cases found : env.entries.lookup a.key with
      | none =>
        have absent := List.lookup_eq_none_iff.mp found e (before ▸ List.mem_append_left _ mem)
        simp [same] at absent
      | some old =>
        have cached := (lookup_origin hs (before ▸ found)).mpr fresh
        rw [uncached old found] at cached
        cases cached
    have all : (seeded.filter fun e => e.1 ∉ assignedKeys made).filter (·.1 != a.key) =
        seeded.filter fun e => e.1 ∉ assignedKeys made :=
      List.filter_eq_self.mpr fun e mem => by simpa using apart e mem
    rw [entries, before, all]
    exact putKey_append_of_not_mem apart (replayEntries made)

/-- Whether no value that was assigned is a whole double. -/
def Normalized (made : List Assigned) : Prop :=
  ∀ a ∈ made, ∀ x, a.value = .float x → Double.isWhole x = false

theorem isWhole_of_normalize {v : Value} {x : Float} (h : v.normalize = .float x) :
    Double.isWhole x = false := by
  cases v with
  | float y =>
    simp only [Value.normalize] at h
    cases part : Double.trunc? y with
    | none =>
      rw [part] at h
      cases h
      -- a double without a whole part is not finite
      simp only [Double.trunc?] at part
      simp only [Double.isWhole]
      split at part
      · cases part
      · rfl
    | some n =>
      rw [part] at h
      dsimp only at h
      split at h
      · cases h
      · next broken =>
        cases h
        simpa using broken
  | _ => cases h

/-- What the entries and the records of a run that started with `seeded` have in common. -/
structure InStep (seeded : List (Text × Binding)) (run : Run) : Prop where
  replayed : Replayed seeded run
  normalized : Normalized run.assignments

/-- Steps and assignments keep a run in step with its records, whichever part of an assignment
fails. -/
theorem kept_inStep {seeded : List (Text × Binding)} (hs : Seeded seeded) :
    Run.Kept (InStep seeded) where
  step _ _ h := ⟨h.replayed, h.normalized⟩
  assign run a h := by
    obtain ⟨sameEnv, sameMade⟩ | ⟨bound, made⟩ := run.assign_cases a
    · refine ⟨?_, sameMade ▸ h.normalized⟩
      unfold Replayed
      rw [sameEnv, sameMade]
      exact h.replayed
    · refine ⟨?_, ?_⟩
      · unfold Replayed
        rw [made]
        exact replayed_bind hs (run.env.made a) h.replayed bound
      · rw [made]
        intro b mem x float
        rcases List.mem_append.mp mem with mem | mem
        · exact h.normalized b mem x float
        · obtain rfl := List.mem_singleton.mp mem
          exact isWhole_of_normalize float

theorem inStep_start {snapshot : Snapshot} {places : Nat} {run : Run}
    (h : Run.start snapshot places = .ok run) :
    Seeded run.env.entries ∧ InStep run.env.entries run := by
  obtain ⟨env, seeded, made⟩ := ok_of_bind h
  cases made
  refine ⟨Environment.seeded_seed seeded, ⟨?_, fun _ mem => absurd mem List.not_mem_nil⟩⟩
  simp [Replayed, replayEntries, assignedKeys]

/-! ## What the invariant says of the bindings -/

theorem mem_replay {made : List Assigned} {b : Binding} (h : b ∈ replay made) :
    ∃ a ∈ made, b = a.binding := by
  rw [← map_snd_replayEntries] at h
  obtain ⟨e, mem, rfl⟩ := List.mem_map.mp h
  obtain ⟨-, a, here, -, same⟩ := mem_replayEntries mem
  exact ⟨a, here, same⟩

theorem InStep.bindings {seeded : List (Text × Binding)} {run : Run} (h : InStep seeded run) :
    run.env.bindings = (seeded.filter fun e => e.1 ∉ assignedKeys run.assignments).map Prod.snd ++
      replay run.assignments := by
  unfold Environment.bindings
  rw [h.replayed, List.map_append, map_snd_replayEntries]

theorem InStep.computed {seeded : List (Text × Binding)} (hs : Seeded seeded) {run : Run}
    (h : InStep seeded run) : run.env.computed = replay run.assignments := by
  have front : ((seeded.filter fun e => e.1 ∉ assignedKeys run.assignments).map Prod.snd).filter
      (·.origin = .computed) = [] := by
    rw [List.filter_eq_nil_iff]
    intro b mem
    obtain ⟨e, here, rfl⟩ := List.mem_map.mp mem
    simp [(hs e (List.mem_filter.mp here).1).2]
  have back : (replay run.assignments).filter (·.origin = .computed) = replay run.assignments := by
    rw [List.filter_eq_self]
    intro b mem
    obtain ⟨a, -, rfl⟩ := mem_replay mem
    rfl
  rw [Environment.computed, h.bindings, List.filter_append, front, back, List.nil_append]

theorem InStep.untouched {seeded : List (Text × Binding)} (hs : Seeded seeded) {run : Run}
    (h : InStep seeded run) :
    run.env.bindings.filter (fun b => b.name.fold ∉ assignedKeys run.assignments) =
      (seeded.map Prod.snd).filter fun b => b.name.fold ∉ assignedKeys run.assignments := by
  have front : ∀ e ∈ seeded, (e.2.name.fold ∉ assignedKeys run.assignments) =
      (e.1 ∉ assignedKeys run.assignments) := by
    intro e mem
    rw [(hs e mem).1]
  have back : (replay run.assignments).filter
      (fun b => b.name.fold ∉ assignedKeys run.assignments) = [] := by
    rw [List.filter_eq_nil_iff]
    intro b mem
    obtain ⟨a, here, rfl⟩ := mem_replay mem
    have known : a.binding.name.fold ∈ assignedKeys run.assignments :=
      mem_assignedKeys.mpr ⟨a, here, rfl⟩
    simpa using known
  rw [h.bindings, List.filter_append, back, List.append_nil, List.filter_map, List.filter_map,
    List.filter_filter]
  congr 1
  apply List.filter_congr
  intro e mem
  simp [front e mem]

/-- **Bindings and records agree.** After any sequence of snippets on a run that started from a
snapshot, faults included: the computed bindings are the replay of the assignments recorded, none of
them is a whole double, and the bindings that nothing was assigned to are those of the snapshot. -/
theorem computed_eq_replay (snapshot : Snapshot) (places : Nat) (first : Run)
    (started : Run.start snapshot places = .ok first) (snippets : List (Construct × Text)) :
    let last := Run.executeEach snippets first
    last.env.computed = replay last.assignments ∧
    (∀ b ∈ last.env.computed, ∀ x, b.value = .float x → Double.isWhole x = false) ∧
    (∀ b ∈ first.env.bindings, b.origin = .cache) ∧
    last.env.bindings.filter (fun b => b.name.fold ∉ assignedKeys last.assignments) =
      first.env.bindings.filter fun b => b.name.fold ∉ assignedKeys last.assignments := by
  obtain ⟨hs, start⟩ := inStep_start started
  have h := (kept_inStep hs).executeEach snippets start
  refine ⟨h.computed hs, ?_, ?_, h.untouched hs⟩
  · intro b mem x float
    rw [h.computed hs] at mem
    obtain ⟨a, here, rfl⟩ := mem_replay mem
    exact h.normalized a here x float
  · intro b mem
    obtain ⟨e, here, rfl⟩ := List.mem_map.mp mem
    exact (hs e here).2

def oneTag : Snapshot :=
  Snapshot.empty.put (some "a".toText, ⟨"a".toText, "1".toText, "INT".toText, none, none⟩)

/-- A tag that is overwritten in two spellings, with a fault in between: the number assigned first is
too long to be shown, so `b` is never assigned, and the next snippet goes on. -/
theorem computed_eq_replay_after_fault :
    ∃ first, Run.start oneTag 2 = .ok first ∧
      let last := Run.executeEach
        [(⟨.plain, none⟩, "A := SHL(1, 20000); b := 1;".toText),
          (⟨.plain, none⟩, "a := 3;".toText)] first
      last.assignments.map Assigned.target = ["A".toText, "a".toText] ∧
      replay last.assignments = [⟨"a".toText, .int 3, "INT".toText, .computed⟩] ∧
      last.env.computed = replay last.assignments := by
  refine ⟨_, rfl, by decide +kernel, by decide +kernel, ?_⟩
  exact (computed_eq_replay oneTag 2 _ rfl _).1

end SclNarrator
