import SclNarrator.Proofs.Keyed
import SclNarrator.Run.Environment

/-!
The entries of an environment: what putting, binding and seeding do to them. Binding has two cases
(`bind_cases`) and so has taking up a tag (`seedTag_cases`), and whatever a snapshot puts there is a
binding of the snapshot under the folded form of its name (`seeded_seed`).
-/

namespace SclNarrator.Environment

/-- The two ways in which a value is bound: a binding of the snapshot gives way to one at the end, and
else the binding is put where the key is or at the end. -/
theorem bind_cases {env env' : Environment} {name type : Text} {value : Value}
    (h : env.bind name value type = .ok env') :
    (∃ old, env.entries.lookup name.fold = some old ∧ old.origin = .cache ∧
      env'.entries = env.entries.filter (·.1 != name.fold) ++
        [(name.fold, ⟨name, value, type, .computed⟩)]) ∨
    ((∀ old, env.entries.lookup name.fold = some old → old.origin = .computed) ∧
      env'.entries = putKey name.fold ⟨name, value, type, .computed⟩ env.entries) := by
  unfold Environment.bind at h
  split at h
  · cases h
  · dsimp only at h
    split at h
    · next found =>
      cases h
      exact .inl ⟨_, found, rfl, rfl⟩
    · next other =>
      cases h
      refine .inr ⟨fun old found => ?_, rfl⟩
      obtain ⟨_, _, _, origin⟩ := old
      cases origin with
      | cache => exact absurd found (other _ _ _)
      | computed => rfl

theorem bind_fails_iff {env : Environment} {name type : Text} {value : Value} {fault : Fault} :
    env.bind name value type = .error fault ↔ (∃ z, value = .complex z) ∧ fault = .complexBinding := by
  constructor
  · intro h
    unfold Environment.bind at h
    split at h
    · cases h
      exact ⟨⟨_, rfl⟩, rfl⟩
    · dsimp only at h
      split at h <;> cases h
  · rintro ⟨⟨z, rfl⟩, rfl⟩
    rfl

/-! ## Binding in two environments -/

theorem likewise_bind {R : Environment → Environment → Prop} {env env' : Environment}
    {name type : Text} {value : Value}
    (bound : ∀ next next', env.bind name value type = .ok next →
      env'.bind name value type = .ok next' → R next next') :
    Likewise R (env.bind name value type) (env'.bind name value type) := by
  cases left : env.bind name value type with
  | error fault =>
    rw [bind_fails_iff.mpr (bind_fails_iff.mp left)]
    exact .error fault
  | ok next =>
    cases right : env'.bind name value type with
    | error fault =>
      rw [bind_fails_iff.mpr (bind_fails_iff.mp right)] at left
      cases left
    | ok next' => exact .ok (bound next next' left right)

/-- If the same stands under the key of a name, a binding of the snapshot gives way in both environments or
in none. -/
theorem bind_cases_of_lookup {env env' next next' : Environment} {name type : Text} {value : Value}
    (found : env.entries.lookup name.fold = env'.entries.lookup name.fold)
    (left : env.bind name value type = .ok next) (right : env'.bind name value type = .ok next') :
    (next.entries = env.entries.filter (·.1 != name.fold) ++ [(name.fold, ⟨name, value, type, .computed⟩)] ∧
      next'.entries = env'.entries.filter (·.1 != name.fold) ++
        [(name.fold, ⟨name, value, type, .computed⟩)]) ∨
    ((∀ old, env.entries.lookup name.fold = some old → old.origin = .computed) ∧
      next.entries = putKey name.fold ⟨name, value, type, .computed⟩ env.entries ∧
      next'.entries = putKey name.fold ⟨name, value, type, .computed⟩ env'.entries) := by
  rcases bind_cases left with ⟨old, bound, cache, entries⟩ | ⟨computed, entries⟩
  · rcases bind_cases right with ⟨_, -, -, entries'⟩ | ⟨computed, -⟩
    · exact .inl ⟨entries, entries'⟩
    · rw [computed old (found ▸ bound)] at cache
      cases cache
  · rcases bind_cases right with ⟨old, bound, cache, -⟩ | ⟨-, entries'⟩
    · rw [computed old (found ▸ bound)] at cache
      cases cache
    · exact .inr ⟨computed, entries, entries'⟩

/-! ## Entries under other keys -/

def others (env : Environment) (key : Text) : List (Text × Binding) := env.entries.filter (·.1 != key)

/-- Binding a name keeps the entries under other keys, and their order. -/
theorem others_bind {env env' : Environment} {name type : Text} {value : Value}
    (h : env.bind name value type = .ok env') : env'.others name.fold = env.others name.fold := by
  unfold others
  rcases bind_cases h with ⟨_, -, -, entries⟩ | ⟨-, entries⟩
  · rw [entries, List.filter_append, List.filter_filter]
    simp
  · rw [entries, filter_putKey]

/-! ## Keys and assigned entries -/

/-- The keys with one more: a known one is not listed again. -/
theorem eraseDups_concat (keys : List Text) (key : Text) :
    (keys ++ [key]).eraseDups = if key ∈ keys then keys.eraseDups else keys.eraseDups ++ [key] := by
  rw [List.eraseDups_append]
  by_cases known : key ∈ keys
  · simp [List.removeAll, known]
  · simp [List.removeAll, known, List.eraseDups_cons]

theorem computed_eq (env : Environment) :
    env.computed = (env.entries.filter (·.2.origin = .computed)).map Prod.snd := by
  rw [computed, bindings, List.filter_map]
  rfl

/-! ## Seeding -/

def Seeded (entries : List (Text × Binding)) : Prop :=
  ∀ e ∈ entries, e.1 = e.2.name.fold ∧ e.2.origin = .cache

/-- The two ways in which a tag is dealt with: it is passed over because its name is bound, or its value
is bound under the folded name. -/
theorem seedTag_cases {env env' : Environment} {tag : Tag} (h : env.seedTag tag = .ok env') :
    ((env.lookup tag.name).isSome = true ∧ env' = env) ∨
    ((env.lookup tag.name).isSome = false ∧ ∃ value, Value.decode tag.value tag.dataType = .ok value ∧
      env' = ⟨putKey tag.name.fold ⟨tag.name, value, tag.dataType, .cache⟩ env.entries⟩) := by
  unfold seedTag at h
  split at h
  · next bound =>
    cases h
    exact .inl ⟨bound, rfl⟩
  · next free =>
    obtain ⟨value, decoded, made⟩ := ok_of_bind h
    cases made
    exact .inr ⟨Bool.eq_false_iff.mpr free, value, decoded, rfl⟩

theorem seedTag_fails_iff {env : Environment} {tag : Tag} {fault : Fault} :
    env.seedTag tag = .error fault ↔
      (env.lookup tag.name).isSome = false ∧
        Value.decode tag.value tag.dataType = .error fault := by
  unfold seedTag
  split
  · next bound => simp [bound]
  · next free =>
    rw [Bool.not_eq_true] at free
    cases Value.decode tag.value tag.dataType with
    | ok value => simp [pure, Except.pure]
    | error fault' =>
      rw [error_bind]
      simp [free]

theorem seeded_seedTag {env env' : Environment} {tag : Tag} (h : env.seedTag tag = .ok env')
    (seeded : Seeded env.entries) : Seeded env'.entries := by
  obtain ⟨-, rfl⟩ | ⟨-, value, -, rfl⟩ := seedTag_cases h
  · exact seeded
  · intro e mem
    rcases mem_putKey mem with rfl | mem
    · exact ⟨rfl, rfl⟩
    · exact seeded e mem

/-- A snapshot makes bindings of the snapshot only, each under the folded form of its name. -/
theorem seeded_seed {snapshot : Snapshot} {env : Environment} (h : seed snapshot = .ok env) :
    Seeded env.entries :=
  foldlM_kept (P := fun env => Seeded env.entries) h
    (fun _ _ _ _ taken seeded => seeded_seedTag taken seeded)
    fun _ mem => absurd mem List.not_mem_nil

end SclNarrator.Environment
