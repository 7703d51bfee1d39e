import SclNarrator.Proofs.Run.Reorder

/-!
The layout of an environment (`Laid`): the entries of the snapshot come first and those that were
assigned behind them, in the order in which their names were first bound; each stands under the folded
form of its name, and no two under one.

What is proved:
  1. a binding keeps this layout (`Laid.bind`), and so does every sequence of bindings, whatever is
     refused in between (`laid_bindEach`);
  2. a look-up finds what was bound last under the name, else what the snapshot has there; and a
     binding changes nothing under other names (`layout_bindEach`).

Correspondence (analyzer ↔ here):
  `bind_computed`, `lookup`, `computed` ↔ `Environment.bind`, `.lookup`, `.computed`
-/

namespace SclNarrator

structure Write where
  name : Text
  value : Value
  declaredType : Text

namespace Write

/-- The form that the spellings of the name share. -/
def key (w : Write) : Text := w.name.fold

def binding (w : Write) : Binding := ⟨w.name, w.value, w.declaredType, .computed⟩

/-- Whether the value can be bound: it is no complex number. -/
def isSound (w : Write) : Bool :=
  match w.value with
  | .complex _ => false
  | _ => true

/-- What was last bound to a name, given by its folded form. -/
def last? (made : List Write) (key : Text) : Option Binding :=
  (made.reverse.find? fun w => w.key = key).map binding

theorem last?_append (made : List Write) (w : Write) (key : Text) :
    last? (made ++ [w]) key = if key = w.key then some w.binding else last? made key := by
  rw [last?, List.reverse_append, List.reverse_singleton, List.singleton_append, List.find?_cons]
  by_cases same : key = w.key
  · simp [same]
  · simp [same, Ne.symm same, last?]

end Write

namespace Environment

/-- The environment with a name bound, unless the value is refused. -/
def write (env : Environment) (w : Write) : Except Fault Environment := env.bind w.name w.value w.declaredType

/-- The environment after several bindings. One that is refused leaves it as it is. -/
def bindEach (env : Environment) (writes : List Write) : Environment :=
  writes.foldl (fun env w => (env.write w).toOption.getD env) env

theorem bindEach_append (env : Environment) (writes : List Write) (w : Write) :
    env.bindEach (writes ++ [w]) = ((env.bindEach writes).write w).toOption.getD (env.bindEach writes) := by
  rw [bindEach, List.foldl_append]
  rfl

theorem write_eq_error_iff {env : Environment} {w : Write} {fault : Fault} :
    env.write w = .error fault ↔ w.isSound = false ∧ fault = .complexBinding := by
  rw [write, bind_fails_iff]
  refine and_congr_left fun _ => ⟨?_, fun refused => ?_⟩
  · rintro ⟨z, same⟩
    rw [Write.isSound, same]
  · unfold Write.isSound at refused
    split at refused
    · next z same => exact ⟨z, same⟩
    · cases refused

theorem exists_write (env : Environment) {w : Write} (sound : w.isSound = true) :
    ∃ next, env.write w = .ok next := by
  cases made : env.write w with
  | ok next => exact ⟨next, rfl⟩
  | error fault =>
    rw [(write_eq_error_iff.mp made).1] at sound
    cases sound

/-- The two ways in which a name is bound: a binding of the snapshot gives way to one at the end,
and else the binding is put where the key is or at the end. -/
theorem write_cases {env next : Environment} {w : Write} (h : env.write w = .ok next) :
    (∃ old, env.entries.lookup w.key = some old ∧ old.origin = .cache ∧
      next.entries = env.entries.filter (·.1 != w.key) ++ [(w.key, w.binding)]) ∨
    ((∀ old, env.entries.lookup w.key = some old → old.origin = .computed) ∧
      next.entries = putKey w.key w.binding env.entries) := bind_cases h

theorem others_write {env next : Environment} {w : Write} (h : env.write w = .ok next) :
    next.others w.key = env.others w.key := others_bind h

/-- Binding a name changes nothing under another key. -/
theorem lookup_write_of_ne {env next : Environment} {w : Write} (h : env.write w = .ok next) {key : Text}
    (other : key ≠ w.key) : next.entries.lookup key = env.entries.lookup key := by
  rw [← lookup_others other next, ← lookup_others other env, others_write h]

/-! ## Entries -/

theorem nodup_seedTag {env next : Environment} {tag : Tag} (h : env.seedTag tag = .ok next)
    (keys : (env.entries.map Prod.fst).Nodup) : (next.entries.map Prod.fst).Nodup := by
  obtain ⟨-, rfl⟩ | ⟨-, value, -, rfl⟩ := seedTag_cases h
  · exact keys
  · rw [keys_putKey]
    split
    · exact keys
    · next fresh => exact List.nodup_append.mpr ⟨keys, by simp, by grind⟩

theorem nodup_seed {snapshot : Snapshot} {env : Environment} (h : seed snapshot = .ok env) :
    (env.entries.map Prod.fst).Nodup :=
  foldlM_kept (P := fun env => (env.entries.map Prod.fst).Nodup) h (fun _ _ _ _ taken => nodup_seedTag taken)
    List.nodup_nil

/-! ## The layout -/

/-- The layout of an environment that started as `seeded` and in which `made` was bound. -/
structure Laid (seeded : Environment) (made : List Write) (env : Environment) : Prop where
  /-- Every entry stands under the folded form of its name. -/
  keyed : ∀ e ∈ env.entries, e.1 = e.2.name.fold
  /-- No two entries stand under one key. -/
  distinct : (env.entries.map Prod.fst).Nodup
  /-- Behind an entry that was assigned there are only such. -/
  layered : (env.entries.map (·.2.origin)).Pairwise fun a b => a = .computed → b = .computed
  /-- Those that were assigned stand in the order in which their names were first bound. -/
  ordered : (env.entries.filter (·.2.origin = .computed)).map Prod.fst = (made.map Write.key).eraseDups
  /-- Under a key stands what was last bound there, or else what stood there at the start. -/
  found : ∀ key, env.entries.lookup key = (Write.last? made key).or (seeded.entries.lookup key)

theorem laid_seed {snapshot : Snapshot} {seeded : Environment} (h : seed snapshot = .ok seeded) :
    Laid seeded [] seeded := by
  have cached := seeded_seed h
  refine ⟨fun e mem => (cached e mem).1, nodup_seed h, ?_, ?_, fun key => rfl⟩
  · refine List.pairwise_map.mpr (List.pairwise_of_forall_mem_list ?_)
    intro a mem b _ computed
    rw [(cached a mem).2] at computed
    cases computed
  · rw [List.filter_eq_nil_iff.mpr fun e mem => by simp [(cached e mem).2]]
    rfl

namespace Laid

variable {seeded env next : Environment} {made : List Write} {w : Write}

/-- A key was assigned to if and only if an entry that was assigned stands under it. -/
theorem mem_keys (h : Laid seeded made env) {key : Text} :
    key ∈ made.map Write.key ↔ ∃ e ∈ env.entries, e.2.origin = .computed ∧ e.1 = key := by
  rw [← List.mem_eraseDups, ← h.ordered, List.mem_map]
  simp [and_assoc]

/-- What the look-up of a key finds is the one entry under it. -/
theorem eq_of_lookup (h : Laid seeded made env) {e : Text × Binding} (mem : e ∈ env.entries) {old : Binding}
    (found : env.entries.lookup e.1 = some old) : e.2 = old :=
  Option.some_inj.mp ((lookup_of_mem h.distinct mem).symm.trans found)

theorem keyed_bind (h : Laid seeded made env) (bound : env.write w = .ok next) :
    ∀ e ∈ next.entries, e.1 = e.2.name.fold := by
  intro e mem
  have among := (perm_bind h.distinct bound).mem_iff.mp mem
  rcases List.mem_cons.mp among with rfl | old
  · rfl
  · exact h.keyed e (List.mem_filter.mp old).1

theorem layered_bind (h : Laid seeded made env) (bound : env.write w = .ok next) :
    (next.entries.map (·.2.origin)).Pairwise fun a b => a = .computed → b = .computed := by
  have last {origins : List Origin}
      (before : origins.Pairwise fun a b => a = Origin.computed → b = .computed) :
      (origins ++ [Origin.computed]).Pairwise fun a b => a = Origin.computed → b = .computed :=
    List.pairwise_append.mpr ⟨before, List.pairwise_singleton _ _, by simp⟩
  obtain ⟨old, -, -, entries⟩ | ⟨assigned, entries⟩ := write_cases bound
  · rw [entries, List.map_append]
    exact last (h.layered.sublist (List.filter_sublist.map _))
  · rw [entries, map_putKey (fun e : Text × Binding => e.2.origin) assigned]
    split
    · exact h.layered
    · exact last h.layered

theorem ordered_bind (h : Laid seeded made env) (bound : env.write w = .ok next) :
    (next.entries.filter (·.2.origin = .computed)).map Prod.fst =
      ((made ++ [w]).map Write.key).eraseDups := by
  rw [List.map_append, List.map_singleton, eraseDups_concat]
  obtain ⟨old, found, cached, entries⟩ | ⟨assigned, entries⟩ := write_cases bound
  · -- the one entry under the key is of the snapshot, so the key is new among those assigned
    have under : ∀ e ∈ env.entries, e.1 = w.key → e.2.origin = .cache := by
      intro e mem here
      rw [h.eq_of_lookup mem (here ▸ found)]
      exact cached
    have fresh : w.key ∉ made.map Write.key := by
      rw [h.mem_keys]
      rintro ⟨e, mem, computed, here⟩
      rw [under e mem here] at computed
      cases computed
    have kept : (env.entries.filter (·.1 != w.key)).filter (·.2.origin = .computed) =
        env.entries.filter (·.2.origin = .computed) := by
      rw [List.filter_filter]
      refine List.filter_congr fun e mem => ?_
      by_cases here : e.1 = w.key
      · simp [under e mem here]
      · simp [here]
    rw [if_neg fresh, ← h.ordered, ← kept, entries, List.filter_append, List.map_append]
    rfl
  · -- an entry under the key was assigned before, and the new one takes its place
    have under : ∀ e ∈ env.entries, e.1 = w.key → decide (e.2.origin = .computed) = true := fun e mem here =>
      decide_eq_true (assigned e.2 (here ▸ lookup_of_mem h.distinct mem))
    rw [entries, filter_putKey_of_kept rfl under, keys_putKey, h.ordered]
    simp only [List.mem_eraseDups]

theorem found_bind (h : Laid seeded made env) (bound : env.write w = .ok next) (key : Text) :
    next.entries.lookup key = (Write.last? (made ++ [w]) key).or (seeded.entries.lookup key) := by
  rw [Write.last?_append]
  by_cases same : key = w.key
  · rw [if_pos same, same]
    exact lookup_bind bound
  · rw [if_neg same, lookup_write_of_ne bound same, h.found key]

/-- One more binding keeps the layout. -/
theorem bind (h : Laid seeded made env) (bound : env.write w = .ok next) :
    Laid seeded (made ++ [w]) next where
  keyed := h.keyed_bind bound
  distinct := nodup_bind h.distinct bound
  layered := h.layered_bind bound
  ordered := h.ordered_bind bound
  found := h.found_bind bound

end Laid

/-- Every sequence of bindings keeps the layout; the ones that are refused leave no trace in it. -/
theorem laid_bindEach {snapshot : Snapshot} {seeded : Environment} (h : seed snapshot = .ok seeded)
    (writes : List Write) : Laid seeded (writes.filter Write.isSound) (seeded.bindEach writes) := by
  induction writes using List.reverseRecOn with
  | nil => exact laid_seed h
  | append_singleton writes w ih =>
    rw [bindEach_append, List.filter_append]
    cases sound : w.isSound with
    | true =>
      obtain ⟨next, bound⟩ := exists_write (seeded.bindEach writes) sound
      rw [bound, List.filter_cons_of_pos sound]
      exact ih.bind bound
    | false =>
      rw [write_eq_error_iff.mpr ⟨sound, rfl⟩, List.filter_cons_of_neg (by simp [sound])]
      rw [List.filter_nil, List.append_nil]
      exact ih

theorem Laid.names_computed {seeded env : Environment} {made : List Write} (h : Laid seeded made env) :
    env.computed.map (·.name.fold) = (made.map Write.key).eraseDups := by
  rw [computed_eq, List.map_map, ← h.ordered]
  exact List.map_congr_left fun e mem => (h.keyed e (List.mem_filter.mp mem).1).symm

/-- **The layout of an environment** that a snapshot made, after any sequence of bindings, refused
ones among them. Every entry stands under the folded form of its name, and no two under one key.
Those of the snapshot come before those that were assigned, and these stand in the order in which
their names were first bound. A name has what was last bound to a spelling of it, or else what the
snapshot gave it. One more binding changes nothing under other keys, and if it is refused nothing at
all. -/
theorem layout_bindEach {snapshot : Snapshot} {seeded : Environment} (h : seed snapshot = .ok seeded)
    (writes : List Write) :
    let env := seeded.bindEach writes
    let made := writes.filter Write.isSound
    (∀ e ∈ env.entries, e.1 = e.2.name.fold) ∧ (env.entries.map Prod.fst).Nodup ∧
    (env.bindings.map Binding.origin).Pairwise (fun a b => a = .computed → b = .computed) ∧
    env.computed.map (·.name.fold) = (made.map Write.key).eraseDups ∧
    (∀ name, name.head? ≠ some (.char '#') →
      env.lookup name = (Write.last? made name.fold).or (seeded.lookup name)) ∧
    ∀ w : Write,
      (w.isSound = true → ∃ next, env.write w = .ok next ∧ seeded.bindEach (writes ++ [w]) = next ∧
        next.others w.key = env.others w.key ∧
        ∀ name, lookupKey name ≠ w.key → next.lookup name = env.lookup name) ∧
      (w.isSound = false → env.write w = .error .complexBinding ∧ seeded.bindEach (writes ++ [w]) = env) := by
  have laid := laid_bindEach h writes
  refine ⟨laid.keyed, laid.distinct, ?_, laid.names_computed, fun name bare => ?_,
    fun w => ⟨fun sound => ?_, fun refused => ?_⟩⟩
  · rw [bindings, List.map_map]
    exact laid.layered
  · rw [lookup, lookup, lookupKey_of_head? bare]
    exact laid.found name.fold
  · obtain ⟨next, bound⟩ := exists_write (seeded.bindEach writes) sound
    refine ⟨next, bound, by rw [bindEach_append, bound]; rfl, others_write bound, fun name other => ?_⟩
    exact lookup_write_of_ne bound other
  · have failed : (seeded.bindEach writes).write w = .error .complexBinding :=
      write_eq_error_iff.mpr ⟨refused, rfl⟩
    exact ⟨failed, by rw [bindEach_append, failed]; rfl⟩

def pumpTags : Snapshot :=
  ⟨[(some "Pump".toText, ⟨"Pump".toText, "1".toText, "INT".toText, none, none⟩),
    (some "b".toText, ⟨"b".toText, "2".toText, "INT".toText, none, none⟩)], by decide +kernel⟩

/-- A name that is new, a tag in another spelling, a complex number, and the new name again. -/
def pumpWrites : List Write :=
  [⟨"c".toText, .int 3, "INT".toText⟩, ⟨"PUMP".toText, .int 4, "INT".toText⟩,
    ⟨"z".toText, .complex ⟨0, 1⟩, "UNKNOWN".toText⟩, ⟨"C".toText, .int 5, "INT".toText⟩]

/-- A tag that is overwritten goes to the end, and a name that was assigned before stays in its place. -/
theorem layout_bindEach_pump : ∃ seeded, seed pumpTags = .ok seeded ∧
    let env := seeded.bindEach pumpWrites
    env.bindings.map Binding.name = ["b".toText, "C".toText, "PUMP".toText] ∧
    env.computed.map (·.name.fold) = ["c".toText, "pump".toText] ∧
    env.lookup "pUMP".toText = some ⟨"PUMP".toText, .int 4, "INT".toText, .computed⟩ := by
  have started : seed pumpTags = .ok _ := rfl
  obtain ⟨-, -, -, order, found, -⟩ := layout_bindEach started pumpWrites
  refine ⟨_, started, by decide +kernel, order.trans (by decide +kernel), ?_⟩
  exact (found "pUMP".toText (by decide)).trans (by decide +kernel)

end Environment
end SclNarrator
