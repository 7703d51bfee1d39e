import Mathlib.Data.List.Nodup
import Mathlib.Data.List.Pairwise
import SclNarrator.Proofs.Expr.Names
import SclNarrator.Proofs.Expr.Variables
import SclNarrator.Proofs.Run.Parallel
import SclNarrator.Proofs.Run.Seeding

/-!
Environments with the same entries in another order. A look-up finds one entry at most under a key,
so the order is nothing to it. Substitution tries the bound names one after the other, longer ones
first, and the order decides between names of one length; but of these only one can stand at a point
(`nameAt?_perm`). An assignment puts its entry in the same place among those that were assigned. So
the environments are parallel for everything that a code does (`Reordered.parallel`).
-/

namespace SclNarrator

/-! ## Substitution -/

namespace Substitution

/-- Of names of one length only one can stand at a point, so their order does not matter. -/
theorem nameAt?_perm {names names' : List Text} (perm : names.Perm names')
    (left : names.Pairwise fun a b => b.length ≤ a.length)
    (right : names'.Pairwise fun a b => b.length ≤ a.length)
    (back t : Text) : nameAt? names back t = nameAt? names' back t := by
  unfold nameAt?
  split
  · refine find?_perm perm left right fun a _ b _ here there shorter longer => ?_
    split at here
    · next after found =>
      split at there
      · next after' found' =>
        -- both names start the text, and none is the longer one
        have whole : a ++ after = b ++ after' :=
          (dropPart?_eq_some.mp found).symm.trans (dropPart?_eq_some.mp found')
        exact (List.append_inj whole (Nat.le_antisymm longer shorter)).1
      · cases there
    · cases here
  · rfl

end Substitution

namespace Environment

theorem pairwise_names (env : Environment) : env.names.Pairwise fun a b => b.length ≤ a.length := by
  have sorted : env.names.Pairwise fun a b => decide (b.length ≤ a.length) = true := by
    refine List.pairwise_mergeSort (fun a b c first second => ?_) (fun a b => ?_) _
    · exact decide_eq_true (Nat.le_trans (of_decide_eq_true second) (of_decide_eq_true first))
    · rw [Bool.or_eq_true, decide_eq_true_eq, decide_eq_true_eq]
      exact Nat.le_total _ _
  exact sorted.imp of_decide_eq_true

/-! ## Entries with a key each -/

theorem perm_bind {env next : Environment} {name type : Text} {value : Value}
    (keys : (env.entries.map Prod.fst).Nodup) (h : env.bind name value type = .ok next) :
    next.entries.Perm ((name.fold, ⟨name, value, type, .computed⟩) :: env.others name.fold) := by
  rcases bind_cases h with ⟨_, -, -, entries⟩ | ⟨-, entries⟩
  · rw [entries]
    exact List.perm_append_singleton _ _
  · rw [entries]
    exact perm_putKey _ keys

theorem nodup_bind {env next : Environment} {name type : Text} {value : Value}
    (keys : (env.entries.map Prod.fst).Nodup) (h : env.bind name value type = .ok next) :
    (next.entries.map Prod.fst).Nodup := by
  rw [((perm_bind keys h).map Prod.fst).nodup_iff, List.map_cons, List.nodup_cons]
  refine ⟨fun mem => ?_, keys.sublist (List.filter_sublist.map _)⟩
  obtain ⟨e, other, same⟩ := List.mem_map.mp mem
  exact bne_iff_ne.mp (List.mem_filter.mp other).2 same

/-! ## Another order -/

/-- Whether two environments have the same entries, no two under one key, and those that were
assigned in the same order. -/
structure Reordered (env env' : Environment) : Prop where
  perm : env.entries.Perm env'.entries
  keys : (env.entries.map Prod.fst).Nodup
  assigned : env.entries.filter (·.2.origin = .computed) = env'.entries.filter (·.2.origin = .computed)

namespace Reordered

variable {env env' : Environment}

theorem entries_lookup (h : Reordered env env') (key : Text) :
    env.entries.lookup key = env'.entries.lookup key :=
  lookup_perm h.perm fun _ ha _ hb here there => List.inj_on_of_nodup_map h.keys ha hb (here.trans there.symm)

theorem lookup (h : Reordered env env') (name : Text) : env.lookup name = env'.lookup name :=
  h.entries_lookup _

theorem computed_eq (h : Reordered env env') : env.computed = env'.computed := by
  rw [Environment.computed_eq, Environment.computed_eq, h.assigned]

/-! ### Expressions -/

theorem names_perm (h : Reordered env env') : env.names.Perm env'.names :=
  ((List.mergeSort_perm _ _).trans ((h.perm.map Prod.snd).map Binding.name)).trans
    (List.mergeSort_perm _ _).symm

theorem substitute_eq (h : Reordered env env') (e : Text) : env.substitute e = env'.substitute e := by
  have source : env.source = env'.source := by
    funext name
    rw [Environment.source, Environment.source, h.lookup]
  have replaced : Substitution.replaceNames env.names env'.source 0 [] =
      Substitution.replaceNames env'.names env'.source 0 [] := by
    funext t
    refine Substitution.replaceNames_congr (fun back u _ => ?_) (fun _ _ _ _ _ => rfl) 0 []
    exact Substitution.nameAt?_perm h.names_perm env.pairwise_names env'.pairwise_names back u
  have perm := h.names_perm
  unfold substitute
  rw [source]
  cases left : env.names with
  | nil =>
    rw [left] at perm
    rw [perm.nil_eq.symm]
  | cons name names =>
    cases right : env'.names with
    | nil =>
      rw [left, right] at perm
      cases perm.eq_nil
    | cons name' names' =>
      rw [left, right] at replaced
      simp only [replaced]

theorem evaluate_eq (h : Reordered env env') (e : Text) : env.evaluate e = env'.evaluate e := by
  have tree (t : Expr) : t.eval env = t.eval env' := Expr.eval_congr t fun name _ => h.lookup name
  rw [evaluate, evaluate, trace, trace, h.substitute_eq]
  simp only [tree]

/-! ### Assignments -/

theorem bind (h : Reordered env env') (name : Text) (value : Value) (type : Text) :
    Likewise Reordered (env.bind name value type) (env'.bind name value type) := by
  refine likewise_bind fun next next' left right => ?_
  have keys' : (env'.entries.map Prod.fst).Nodup := (h.perm.map Prod.fst).nodup_iff.mp h.keys
  refine ⟨?_, nodup_bind h.keys left, ?_⟩
  · exact ((perm_bind h.keys left).trans ((h.perm.filter _).cons _)).trans (perm_bind keys' right).symm
  · rcases bind_cases_of_lookup
      (h.entries_lookup _) left right with ⟨entries, entries'⟩ | ⟨computed, entries, entries'⟩
    · rw [entries, entries', List.filter_append, List.filter_append, List.filter_comm, h.assigned,
        List.filter_comm]
    · -- the entry that is replaced was assigned too, so the new one takes its place among those
      have old : ∀ e ∈ env.entries, e.1 = name.fold → decide (e.2.origin = .computed) = true :=
        fun e mem key =>
        decide_eq_true (computed e.2 (key ▸ lookup_of_mem h.keys mem))
      have old' : ∀ e ∈ env'.entries, e.1 = name.fold → decide (e.2.origin = .computed) = true := fun e mem =>
        old e (h.perm.mem_iff.mpr mem)
      rw [entries, entries', filter_putKey_of_kept rfl old, filter_putKey_of_kept rfl old', h.assigned]

theorem parallel : Parallel Scope.all Reordered where
  evaluate h e _ := h.evaluate_eq e
  lookup h name _ := h.lookup name
  made h a _ := by rw [Environment.made, Environment.made, h.evaluate_eq]
  assign h a _ := by
    rw [Environment.assign, Environment.assign, Environment.made, Environment.made, h.evaluate_eq]
    exact h.bind _ _ _

end Reordered

/-! ## Seeding -/

def tagEntry (tag : Tag) : Text × Binding :=
  (tag.name.fold, ⟨tag.name, (Value.decode tag.value tag.dataType).toOption.getD .none, tag.dataType, .cache⟩)

theorem foldlM_seedTag {tags : List Tag} {env : Environment}
    (decodes : ∀ t ∈ tags, ∃ value, Value.decode t.value t.dataType = .ok value)
    (bare : ∀ t ∈ tags, t.name.head? ≠ some (.char '#')) (names : (tags.map (·.name.fold)).Nodup)
    (free : ∀ t ∈ tags, ∀ e ∈ env.entries, e.1 ≠ t.name.fold) :
    tags.foldlM seedTag env = .ok ⟨env.entries ++ tags.map tagEntry⟩ := by
  induction tags generalizing env with
  | nil => rw [List.map_nil, List.append_nil]; rfl
  | cons tag tags ih =>
    rw [List.forall_mem_cons] at decodes bare free
    rw [List.map_cons, List.nodup_cons] at names
    have unbound : env.lookup tag.name = none := by
      rw [lookup, lookupKey_of_head? bare.1, List.lookup_eq_none_iff]
      exact fun e mem => bne_iff_ne.mpr (free.1 e mem).symm
    have taken : env.seedTag tag = .ok ⟨env.entries ++ [tagEntry tag]⟩ := by
      obtain ⟨value, decoded⟩ := decodes.1
      have last := putKey_append_of_not_mem (a := ⟨tag.name, value, tag.dataType, .cache⟩) free.1 []
      rw [List.append_nil] at last
      rw [seedTag, unbound, tagEntry, decoded, if_neg (by simp), ok_bind, last]
      rfl
    rw [List.foldlM_cons, taken, ok_bind, ih decodes.2 bare.2 names.2]
    · rw [List.append_assoc, List.map_cons, List.singleton_append]
    · intro t mem e among
      rcases List.mem_append.mp among with among | new
      · exact free.2 t mem e among
      · rw [List.mem_singleton.mp new]
        exact fun same => names.1 (List.mem_map.mpr ⟨t, mem, same.symm⟩)

theorem seed_perm {snapshot snapshot' : Snapshot} (perm : snapshot.entries.Perm snapshot'.entries)
    (names : (snapshot.tags.map (·.name.fold)).Nodup)
    (bare : ∀ t ∈ snapshot.tags, t.name.head? ≠ some (.char '#'))
    (decodes : ∀ t ∈ snapshot.tags, ∃ value, Value.decode t.value t.dataType = .ok value) :
    Likewise Reordered (seed snapshot) (seed snapshot') := by
  have tags : snapshot.tags.Perm snapshot'.tags := perm.map Prod.snd
  have unassigned (ts : List Tag) : (ts.map tagEntry).filter (·.2.origin = .computed) = [] := by
    refine List.filter_eq_nil_iff.mpr fun e mem => ?_
    obtain ⟨t, -, rfl⟩ := List.mem_map.mp mem
    exact Bool.false_ne_true
  rw [seed, seed, foldlM_seedTag decodes bare names fun _ _ _ mem => absurd mem List.not_mem_nil,
    foldlM_seedTag (fun t mem => decodes t (tags.mem_iff.mpr mem))
      (fun t mem => bare t (tags.mem_iff.mpr mem))
      ((tags.map _).nodup_iff.mp names) fun _ _ _ mem => absurd mem List.not_mem_nil]
  refine .ok ⟨tags.map _, ?_, (unassigned _).trans (unassigned _).symm⟩
  rw [List.nil_append, List.map_map]
  exact names

end Environment
end SclNarrator
