import SclNarrator.Proofs.Keyed
import SclNarrator.Proofs.Run.Layout

/-!
Aliases among the tags of a snapshot: tags whose names fold to the same form.

What is proved:
  1. a name is bound to the first tag of its form (`lookup_seed_eq`);
  2. a number sign in front of a name is dropped when the name is looked up, but a tag is bound with
     it. So a tag is reached by its own name, as the first of its aliases, if and only if the name does
     not start with a number sign; and without such names there are as many bindings as forms
     (`reaches_iff`).

Asked for: every tag can be decoded.

Correspondence (analyzer ↔ here):
  `LocalEnvironment.from_snapshot`, `lookup` ↔ `Environment.seed`, `Environment.lookup`
-/

namespace SclNarrator

namespace Tag

def binding (tag : Tag) : Except Fault Binding := do
  return ⟨tag.name, ← Value.decode tag.value tag.dataType, tag.dataType, .cache⟩

def Decodes (tag : Tag) : Prop := ∃ value, Value.decode tag.value tag.dataType = .ok value

def first? (tags : List Tag) (form : Text) : Option Tag := tags.find? fun tag => tag.name.fold == form

theorem Decodes.binding {tag : Tag} (h : tag.Decodes) : ∃ b, tag.binding = .ok b := by
  obtain ⟨value, decoded⟩ := h
  exact ⟨_, by rw [Tag.binding, decoded]; rfl⟩

end Tag

namespace Environment

/-- A tag is bound to the names of its form, unless they are bound already. -/
theorem lookup_seedTag_eq {env next : Environment} {tag : Tag} (h : env.seedTag tag = .ok next)
    (name : Text) :
    next.lookup name =
      (env.lookup name).or (if tag.name.fold = lookupKey name then tag.binding.toOption else none) := by
  obtain ⟨bound, rfl⟩ | ⟨free, value, decoded, rfl⟩ := seedTag_cases h
  · split
    · next form =>
      rw [lookup, lookupKey_eq_of_fold_eq form] at bound
      obtain ⟨b, found⟩ := Option.isSome_iff_exists.mp bound
      rw [lookup, found, Option.some_or]
    · rw [Option.or_none]
  · rw [lookup, lookup_putKey]
    split
    · next form =>
      have here := Option.isNone_iff_eq_none.mp (Option.isSome_eq_false_iff.mp free)
      rw [lookup, lookupKey_eq_of_fold_eq form.symm] at here
      rw [if_pos form.symm, lookup, here, Option.none_or, Tag.binding, decoded]
      rfl
    · next other => rw [if_neg (Ne.symm other), Option.or_none, lookup]

theorem lookup_foldlM_eq {tags : List Tag} (decodes : ∀ tag ∈ tags, tag.Decodes) {env last : Environment}
    (h : tags.foldlM seedTag env = .ok last) (name : Text) :
    last.lookup name =
      (env.lookup name).or ((Tag.first? tags (lookupKey name)).bind fun tag => tag.binding.toOption) := by
  induction tags generalizing env with
  | nil =>
    cases h
    exact Option.or_none.symm
  | cons tag rest ih =>
    rw [List.forall_mem_cons] at decodes
    obtain ⟨next, taken, later⟩ := ok_of_bind h
    rw [ih decodes.2 later, lookup_seedTag_eq taken, Option.or_assoc, Tag.first?, Tag.first?, List.find?_cons]
    by_cases form : tag.name.fold = lookupKey name
    · obtain ⟨b, made⟩ := decodes.1.binding
      simp only [if_pos form, beq_iff_eq.mpr form, Option.bind_some, made]
      rfl
    · rw [if_neg form, beq_eq_false_iff_ne.mpr form, Option.none_or]

/-- A name is bound to the first tag whose folded name is the form under which the name is looked up. -/
theorem lookup_seed_eq {snapshot : Snapshot} (decodes : ∀ tag ∈ snapshot.tags, tag.Decodes)
    {env : Environment}
    (h : seed snapshot = .ok env) (name : Text) :
    env.lookup name = (Tag.first? snapshot.tags (lookupKey name)).bind fun tag => tag.binding.toOption := by
  rw [lookup_foldlM_eq decodes h]
  rfl

theorem exists_seed {snapshot : Snapshot} (decodes : ∀ tag ∈ snapshot.tags, tag.Decodes) :
    ∃ env, seed snapshot = .ok env := by
  cases seeded : seed snapshot with
  | ok env => exact ⟨env, rfl⟩
  | error fault =>
    obtain ⟨tag, fault', ⟨before, after, whole, -⟩, failed⟩ := (seed_fails_iff snapshot).mp ⟨fault, seeded⟩
    obtain ⟨value, decoded⟩ := decodes tag (by rw [whole]; simp)
    rw [failed] at decoded
    cases decoded

/-- Without number signs in front of names the keys are the folded names. -/
theorem mem_keys_seed {snapshot : Snapshot} {env : Environment} (h : seed snapshot = .ok env)
    (bare : ∀ tag ∈ snapshot.tags, tag.name.head? ≠ some (.char '#')) (key : Text) :
    key ∈ env.entries.map Prod.fst ↔ key ∈ snapshot.tags.map (·.name.fold) := by
  constructor
  · intro mem
    obtain ⟨e, entry, rfl⟩ := List.mem_map.mp mem
    obtain ⟨tag, among, same⟩ := namedBy_seed h e entry
    rw [(seeded_seed h e entry).1, ← same]
    exact List.mem_map_of_mem among
  · intro mem
    obtain ⟨tag, among, rfl⟩ := List.mem_map.mp mem
    have bound := (lookup_seed h tag.name).mpr ⟨tag, among, (lookupKey_of_head? (bare tag among)).symm⟩
    obtain ⟨b, found⟩ := Option.isSome_iff_exists.mp bound
    rw [lookup, lookupKey_of_head? (bare tag among)] at found
    exact List.mem_map_of_mem (mem_of_lookup found)

/-- Whether a tag is reached by its own name: the binding that is found there is the one of the
first tag with its folded name. -/
def Reaches (snapshot : Snapshot) (env : Environment) (tag : Tag) : Prop :=
  ∃ first value, Tag.first? snapshot.tags tag.name.fold = some first ∧
    Value.decode first.value first.dataType = .ok value ∧
    env.lookup tag.name = some ⟨first.name, value, first.dataType, .cache⟩

/-- **Aliases share the first of their tags.** If all tags of a snapshot can be decoded, they make
an environment. A tag is found there under its own name, with the name, the type and the value of
the first of its aliases, if and only if its name does not start with a number sign; and if no name
does, there is one binding for each folded name. -/
theorem reaches_iff (snapshot : Snapshot) (decodes : ∀ tag ∈ snapshot.tags, tag.Decodes) :
    ∃ env, seed snapshot = .ok env ∧
      (∀ tag ∈ snapshot.tags, Reaches snapshot env tag ↔ tag.name.head? ≠ some (.char '#')) ∧
      ((∀ tag ∈ snapshot.tags, tag.name.head? ≠ some (.char '#')) →
        env.entries.length = (snapshot.tags.map (·.name.fold)).eraseDups.length) := by
  obtain ⟨env, seeded⟩ := exists_seed decodes
  refine ⟨env, seeded, fun tag among => ⟨?_, fun bare => ?_⟩, fun bare => ?_⟩
  · rintro ⟨first, value, found, -, bound⟩ sign
    -- the binding has the folded name of the tag, and it was found under a form without the sign
    have named : first.name.fold = lookupKey tag.name := name_of_lookup_seed seeded bound
    have same : first.name.fold = tag.name.fold := by simpa using List.find?_some found
    obtain ⟨rest, signed⟩ := List.head?_eq_some_iff.mp sign
    refine head?_lookupKey tag.name ?_
    rw [← named, same, signed]
    rfl
  · have first : (Tag.first? snapshot.tags tag.name.fold).isSome = true :=
      List.find?_isSome.mpr ⟨tag, among, beq_self_eq_true _⟩
    obtain ⟨first, found⟩ := Option.isSome_iff_exists.mp first
    obtain ⟨value, decoded⟩ := decodes first (List.mem_of_find?_eq_some found)
    refine ⟨first, value, found, decoded, ?_⟩
    rw [lookup_seed_eq decodes seeded, lookupKey_of_head? bare, found, Option.bind_some, Tag.binding, decoded]
    rfl
  · have distinct : (snapshot.tags.map (·.name.fold)).eraseDups.Nodup := by
      rw [← map_firstsBy]
      exact nodup_firstsBy snapshot.tags
    have same : (env.entries.map Prod.fst).Perm (snapshot.tags.map (·.name.fold)).eraseDups :=
      (List.perm_ext_iff_of_nodup (nodup_seed seeded) distinct).mpr fun key => by
        rw [mem_keys_seed seeded bare, List.mem_eraseDups]
    rw [← same.length_eq, List.length_map]

def levelTags : Snapshot :=
  ⟨[(some "Level".toText, { name := "Level".toText, value := "1".toText, dataType := "INT".toText }),
    (some "LEVEL".toText, { name := "LEVEL".toText, value := "2".toText, dataType := "DINT".toText }),
    (some "Temp".toText, { name := "Temp".toText, value := "3".toText, dataType := "INT".toText })],
    by decide +kernel⟩

/-- The three tags make two bindings, and each tag is reached. -/
theorem reaches_iff_levelTags :
    (∀ tag ∈ levelTags.tags, tag.Decodes) ∧ (∀ tag ∈ levelTags.tags, tag.name.head? ≠ some (.char '#')) ∧
      ∃ env, seed levelTags = .ok env ∧ (∀ tag ∈ levelTags.tags, Reaches levelTags env tag) ∧
        env.entries.length = 2 := by
  have decodes : ∀ tag ∈ levelTags.tags, tag.Decodes := by
    simp only [levelTags, Snapshot.tags, Snapshot.map, List.map_cons, List.map_nil, List.forall_mem_cons]
    exact ⟨⟨_, rfl⟩, ⟨_, rfl⟩, ⟨_, rfl⟩, fun _ mem => absurd mem List.not_mem_nil⟩
  have bare : ∀ tag ∈ levelTags.tags, tag.name.head? ≠ some (.char '#') := by decide +kernel
  have forms : (levelTags.tags.map (·.name.fold)).eraseDups.length = 2 := by decide +kernel
  obtain ⟨env, seeded, reached, count⟩ := reaches_iff levelTags decodes
  exact ⟨decodes, bare, env, seeded, fun tag among => (reached tag among).mpr (bare tag among),
    (count bare).trans forms⟩

/-- Two aliases with a number sign in front. -/
def signedTags : Snapshot :=
  ⟨[(some "#x".toText, { name := "#x".toText, value := "1".toText, dataType := "INT".toText }),
    (some "#X".toText, { name := "#X".toText, value := "2".toText, dataType := "INT".toText })],
    by decide +kernel⟩

/-- With a number sign in front the last alias overwrites the first one, and neither is found by its name. -/
theorem signed_aliases_are_overwritten :
    (∀ tag ∈ signedTags.tags, tag.Decodes) ∧
      seed signedTags = .ok ⟨[("#x".toText, ⟨"#X".toText, .int 2, "INT".toText, .cache⟩)]⟩ ∧
      lookup ⟨[("#x".toText, ⟨"#X".toText, .int 2, "INT".toText, .cache⟩)]⟩ "#x".toText = none := by
  refine ⟨?_, by decide +kernel, by decide +kernel⟩
  simp only [signedTags, Snapshot.tags, Snapshot.map, List.map_cons, List.map_nil, List.forall_mem_cons]
  exact ⟨⟨_, rfl⟩, ⟨_, rfl⟩, fun _ mem => absurd mem List.not_mem_nil⟩

end Environment
end SclNarrator
