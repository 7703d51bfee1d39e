import SclNarrator.Proofs.Run.Environment
import SclNarrator.Proofs.Text.Folding

/-!
Seeding an environment from a snapshot, by the names of the tags alone. A name is bound afterwards if
and only if a tag has its form (`lookup_seed`), and seeding fails if and only if the text of a tag that
is taken up cannot be decoded (`seed_fails_iff`).
-/

namespace SclNarrator

namespace Snapshot

/-- Whether an environment takes up a tag of the snapshot: none of the tags before it has the form under
which its name is looked up. -/
def Seeds (snapshot : Snapshot) (tag : Tag) : Prop :=
  ∃ before after, snapshot.tags = before ++ tag :: after ∧
    ∀ earlier ∈ before, earlier.name.fold ≠ Environment.lookupKey tag.name

end Snapshot

namespace Environment

/-- What stands under another key is found among the entries under other keys. -/
theorem lookup_others {n key : Text} (other : key ≠ n) (env : Environment) :
    (env.others n).lookup key = env.entries.lookup key := by
  unfold others
  induction env.entries with
  | nil => rfl
  | cons e rest ih =>
    rw [List.filter_cons, lookup_cons]
    split
    · rw [lookup_cons, ih]
    · next same =>
      have here : e.1 = n := by simpa using same
      rw [ih, if_neg (here ▸ other)]

theorem lookup_bind {env env' : Environment} {name type : Text} {value : Value}
    (h : env.bind name value type = .ok env') :
    env'.entries.lookup name.fold = some ⟨name, value, type, .computed⟩ := by
  rcases bind_cases h with ⟨_, -, -, entries⟩ | ⟨-, entries⟩
  · have gone : (env.entries.filter (·.1 != name.fold)).lookup name.fold = none := by
      rw [List.lookup_eq_none_iff]
      intro e mem
      have := (List.mem_filter.mp mem).2
      rw [bne_iff_ne] at this
      exact bne_iff_ne.mpr this.symm
    rw [entries, List.lookup_append, gone, lookup_cons, if_pos rfl]
    rfl
  · rw [entries, lookup_putKey, if_pos rfl]

/-! ## The form of a name -/

theorem head?_lookupKey (name : Text) : (lookupKey name).head? ≠ some (.char '#') :=
  Text.head?_fold (Text.head?_dropLeading name)

theorem lookupKey_of_head? {name : Text} (h : name.head? ≠ some (.char '#')) :
    lookupKey name = name.fold := by
  rw [lookupKey, Text.dropLeading_of_head? h]

/-- A tag whose folded name is the form of a name has that form itself: it has no number sign to lose. -/
theorem lookupKey_eq_of_fold_eq {tagName name : Text} (h : tagName.fold = lookupKey name) :
    lookupKey tagName = lookupKey name := by
  have bare : tagName.head? ≠ some (.char '#') := by
    cases tagName with
    | nil => simp
    | cons c rest =>
      intro sign
      rw [List.head?_cons, Option.some_inj] at sign
      apply head?_lookupKey name
      rw [← h, sign]
      rfl
  rw [lookupKey_of_head? bare, h]

/-! ## Bound names -/

/-- A tag makes the names of its form bound, and changes nothing for the others. -/
theorem lookup_seedTag {env env' : Environment} {tag : Tag} (h : env.seedTag tag = .ok env')
    (name : Text) :
    (env'.lookup name).isSome = true ↔
      (env.lookup name).isSome = true ∨ tag.name.fold = lookupKey name := by
  obtain ⟨bound, rfl⟩ | ⟨-, value, -, rfl⟩ := seedTag_cases h
  · refine ⟨.inl, fun h => h.elim id fun form => ?_⟩
    -- the tag is passed over because its form is bound, and that form is the name's
    rw [lookup, lookupKey_eq_of_fold_eq form] at bound
    exact bound
  · rw [lookup, lookup_putKey]
    by_cases form : lookupKey name = tag.name.fold
    · simp [form]
    · simp [form, Ne.symm form, lookup]

theorem lookup_foldlM {tags : List Tag} {env env' : Environment}
    (h : tags.foldlM seedTag env = .ok env') (name : Text) :
    (env'.lookup name).isSome = true ↔
      (env.lookup name).isSome = true ∨ ∃ tag ∈ tags, tag.name.fold = lookupKey name := by
  induction tags generalizing env with
  | nil =>
    cases h
    simp
  | cons tag rest ih =>
    obtain ⟨next, first, later⟩ := ok_of_bind h
    rw [ih later, lookup_seedTag first]
    simp [or_assoc]

theorem lookup_empty (name : Text) : (lookup {} name).isSome = false := rfl

/-- A name is bound by a snapshot if and only if the folded name of one of its tags is the form under
which the name is looked up. -/
theorem lookup_seed {snapshot : Snapshot} {env : Environment} (h : seed snapshot = .ok env)
    (name : Text) :
    (env.lookup name).isSome = true ↔ ∃ tag ∈ snapshot.tags, tag.name.fold = lookupKey name := by
  rw [lookup_foldlM h, lookup_empty]
  simp

theorem name_of_lookup_seed {snapshot : Snapshot} {env : Environment} (h : seed snapshot = .ok env)
    {name : Text} {b : Binding} (found : env.lookup name = some b) : b.name.fold = lookupKey name :=
  (seeded_seed h _ (mem_of_lookup found)).1.symm

/-- The entries of an environment have names of tags among these. -/
def NamedBy (tags : List Tag) (env : Environment) : Prop :=
  ∀ e ∈ env.entries, ∃ tag ∈ tags, tag.name = e.2.name

theorem namedBy_seedTag {tags : List Tag} {env env' : Environment} {tag : Tag} (mem : tag ∈ tags)
    (h : env.seedTag tag = .ok env') (named : NamedBy tags env) : NamedBy tags env' := by
  obtain ⟨-, rfl⟩ | ⟨-, value, -, rfl⟩ := seedTag_cases h
  · exact named
  · intro e entry
    rcases mem_putKey entry with rfl | entry
    · exact ⟨tag, mem, rfl⟩
    · exact named e entry

theorem namedBy_seed {snapshot : Snapshot} {env : Environment} (h : seed snapshot = .ok env) :
    NamedBy snapshot.tags env :=
  foldlM_kept h (fun _ _ _ mem taken => namedBy_seedTag mem taken)
    fun _ mem => absurd mem List.not_mem_nil

theorem tag_of_lookup_seed {snapshot : Snapshot} {env : Environment} (h : seed snapshot = .ok env)
    {name : Text} {b : Binding} (found : env.lookup name = some b) :
    ∃ tag ∈ snapshot.tags, tag.name = b.name :=
  namedBy_seed h _ (mem_of_lookup found)

/-! ## Failure -/

/-- Behind some tags it is a tag's turn if no name among theirs has its form. -/
theorem free_of_foldlM {before : List Tag} {env : Environment} {tag : Tag}
    (h : before.foldlM seedTag {} = .ok env) :
    (env.lookup tag.name).isSome = false ↔
      ∀ earlier ∈ before, earlier.name.fold ≠ lookupKey tag.name := by
  rw [← Bool.not_eq_true, lookup_foldlM h, lookup_empty]
  simp

/-- Seeding fails if and only if the text of a tag that the environment takes up cannot be decoded. -/
theorem seed_fails_iff (snapshot : Snapshot) :
    (∃ fault, seed snapshot = .error fault) ↔
      ∃ tag fault, snapshot.Seeds tag ∧ Value.decode tag.value tag.dataType = .error fault := by
  constructor
  · rintro ⟨fault, failed⟩
    obtain ⟨before, tag, after, env, whole, taken, stopped⟩ := error_of_foldlM failed
    obtain ⟨free, undecoded⟩ := seedTag_fails_iff.mp stopped
    exact ⟨tag, fault, ⟨before, after, whole, (free_of_foldlM taken).mp free⟩, undecoded⟩
  · rintro ⟨tag, fault, ⟨before, after, whole, free⟩, undecoded⟩
    cases seeded : seed snapshot with
    | error fault' => exact ⟨fault', rfl⟩
    | ok env =>
      -- the tags before it were taken up, and so it was its turn
      rw [seed, whole, List.foldlM_append] at seeded
      obtain ⟨middle, taken, later⟩ := ok_of_bind seeded
      have stopped := seedTag_fails_iff.mpr ⟨(free_of_foldlM taken).mpr free, undecoded⟩
      rw [List.foldlM_cons, stopped] at later
      cases later

end Environment
end SclNarrator
