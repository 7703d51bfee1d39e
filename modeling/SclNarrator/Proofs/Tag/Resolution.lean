import SclNarrator.Proofs.Run.Seeding
import SclNarrator.Analysis.Session

/-!
Two ways from a name to a tag. The extraction of tags looks for three spellings of the name among the
keys of the snapshot; the environment compares the folded names.

What is proved:
  1. which tags each way leads to, and that for a name without a number sign in front and without a
     dotless i the first way leads to no tag that the second one misses (`find?_and_lookup`);
  2. the converse fails for a tag in another mix of capitals and small letters
     (`mixed_case_tag_is_missed`).

Asked for: every tag is filed under its own name, and the snapshot seeds an environment.

Correspondence (analyzer ↔ here):
  `find_tag`                ↔ `Snapshot.find?`
  `LocalEnvironment.lookup` ↔ `Environment.lookup`
-/

namespace SclNarrator

namespace Snapshot

/-- The spellings of a name that the extraction of tags looks for. -/
def spellings (name : Text) : List Text := [name, name.lower, name.upper]

/-- Every tag stands under its own name. -/
def Keyed (snapshot : Snapshot) : Prop := ∀ e ∈ snapshot.entries, e.1 = some e.2.name

variable {snapshot : Snapshot} {name : Text}

theorem mem_of_find? (keyed : snapshot.Keyed) {tag : Tag} (h : snapshot.find? name = some tag) :
    tag ∈ snapshot.tags ∧ tag.name ∈ spellings name := by
  obtain ⟨key, spelled, found⟩ := List.exists_of_findSome?_eq_some h
  have mem := mem_of_lookup found
  refine ⟨List.mem_map_of_mem (f := Prod.snd) mem, ?_⟩
  rw [← Option.some_inj.mp (keyed _ mem)]
  exact spelled

theorem find?_isSome_iff (keyed : snapshot.Keyed) (name : Text) :
    (snapshot.find? name).isSome = true ↔ ∃ tag ∈ snapshot.tags, tag.name ∈ spellings name := by
  constructor
  · intro found
    obtain ⟨tag, found⟩ := Option.isSome_iff_exists.mp found
    exact ⟨tag, mem_of_find? keyed found⟩
  · rintro ⟨tag, mem, spelled⟩
    obtain ⟨e, entry, rfl⟩ := List.mem_map.mp mem
    refine List.findSome?_isSome_iff.mpr ⟨e.2.name, spelled, ?_⟩
    rw [List.lookup_isSome_iff]
    exact ⟨e, entry, by simp [keyed e entry]⟩

theorem fold_of_mem_spellings (plain : CodePoint.char 'ı' ∉ name) {spelling : Text}
    (h : spelling ∈ spellings name) : spelling.fold = name.fold := by
  simp only [spellings, List.mem_cons, List.not_mem_nil, or_false] at h
  rcases h with rfl | rfl | rfl
  · rfl
  · exact Text.fold_lower name
  · exact Text.fold_upper plain

end Snapshot

namespace Extraction

variable {snapshot : Snapshot} {includeUnresolved : Bool}

theorem find?_of_mem_add {x : Extraction} (h : ∀ name ∈ x.unresolved, snapshot.find? name = none)
    (next : Text) :
    ∀ name ∈ (add snapshot includeUnresolved x next).unresolved, snapshot.find? name = none := by
  intro name mem
  unfold add at mem
  split at mem
  · next missing =>
    split at mem
    · exact h name mem
    · rcases List.mem_append.mp mem with mem | mem
      · exact h name mem
      · rw [List.mem_singleton.mp mem]
        exact missing
  · split at mem
    · exact h name mem
    · exact h name mem

theorem find?_of_mem_unresolved {code name : Text}
    (h : name ∈ (ofCode code snapshot includeUnresolved).unresolved) :
    snapshot.find? name = none := by
  have run : ∀ (names : List Text) (x : Extraction),
      (∀ name ∈ x.unresolved, snapshot.find? name = none) →
      ∀ name ∈ (names.foldl (add snapshot includeUnresolved) x).unresolved,
        snapshot.find? name = none := by
    intro names
    induction names with
    | nil => exact fun _ kept => kept
    | cons next rest ih => exact fun x kept => ih _ (find?_of_mem_add kept next)
  exact run _ {} (fun _ mem => absurd mem List.not_mem_nil) name h

end Extraction

open Environment Snapshot

/-- **Extraction and evaluation on one snapshot.** Extraction finds a name in three spellings, and
evaluation finds it in every spelling that folds to its form. So what extraction finds, evaluation finds
under one and the same folded name, unless a number sign in front of the name or a dotless i in it makes
the two forms differ; and a name that extraction reports as unresolved is bound, if at all, to a tag in
a spelling that extraction does not look for. -/
theorem find?_and_lookup {snapshot : Snapshot} {env : Environment} (keyed : snapshot.Keyed)
    (seeded : seed snapshot = .ok env) (name : Text) :
    ((snapshot.find? name).isSome = true ↔
      ∃ tag ∈ snapshot.tags, tag.name ∈ spellings name) ∧
    ((env.lookup name).isSome = true ↔
      ∃ tag ∈ snapshot.tags, tag.name.fold = lookupKey name) ∧
    (name.head? ≠ some (.char '#') → CodePoint.char 'ı' ∉ name →
      ((snapshot.find? name).isSome = true ↔
        (env.lookup name).isSome = true ∧
          ∃ tag ∈ snapshot.tags, tag.name.fold = name.fold ∧ tag.name ∈ spellings name) ∧
      ∀ tag b, snapshot.find? name = some tag → env.lookup name = some b →
        tag.name.fold = b.name.fold) ∧
    ∀ code includeUnresolved,
      name ∈ (Extraction.ofCode code snapshot includeUnresolved).unresolved →
      ∀ b, env.lookup name = some b → b.name ∉ spellings name := by
  have extraction := find?_isSome_iff keyed name
  have evaluation := lookup_seed seeded name
  refine ⟨extraction, evaluation, ?agree, ?unresolved⟩
  case agree =>
    intro bare plain
    have form := lookupKey_of_head? bare
    constructor
    · rw [extraction, evaluation, form]
      constructor
      · rintro ⟨tag, mem, spelled⟩
        have same := fold_of_mem_spellings plain spelled
        exact ⟨⟨tag, mem, same⟩, tag, mem, same, spelled⟩
      · rintro ⟨-, tag, mem, -, spelled⟩
        exact ⟨tag, mem, spelled⟩
    · intro tag b found bound
      rw [fold_of_mem_spellings plain (mem_of_find? keyed found).2,
        name_of_lookup_seed seeded bound, form]
  case unresolved =>
    intro code includeUnresolved reported b bound spelled
    obtain ⟨tag, mem, same⟩ := tag_of_lookup_seed seeded bound
    have found := extraction.mpr ⟨tag, mem, same ▸ spelled⟩
    rw [Extraction.find?_of_mem_unresolved reported] at found
    cases found

/-- A tag in mixed letters and a tag in capitals. -/
def tankSnapshot : Snapshot :=
  ⟨[(some "Level".toText, { name := "Level".toText, value := "1".toText, dataType := "INT".toText }),
    (some "TEMP".toText, { name := "TEMP".toText, value := "2".toText, dataType := "INT".toText })],
    by decide +kernel⟩

def tankEnvironment : Environment :=
  ⟨[("level".toText, ⟨"Level".toText, .int 1, "INT".toText, .cache⟩),
    ("temp".toText, ⟨"TEMP".toText, .int 2, "INT".toText, .cache⟩)]⟩

theorem keyed_tankSnapshot : tankSnapshot.Keyed := by
  unfold Keyed
  decide +kernel

theorem seed_tankSnapshot : seed tankSnapshot = .ok tankEnvironment := by
  decide +kernel

/-- A name in small letters leads both ways to the tag in capitals. -/
theorem find?_and_lookup_capitals :
    tankSnapshot.Keyed ∧ seed tankSnapshot = .ok tankEnvironment ∧
    ((tankSnapshot.find? "temp".toText).isSome = true ↔
      (tankEnvironment.lookup "temp".toText).isSome = true ∧
        ∃ tag ∈ tankSnapshot.tags, tag.name.fold = "temp".toText.fold ∧
          tag.name ∈ spellings "temp".toText) :=
  ⟨keyed_tankSnapshot, seed_tankSnapshot,
    ((find?_and_lookup keyed_tankSnapshot seed_tankSnapshot "temp".toText).2.2.1
      (by decide +kernel) (by decide +kernel)).1⟩

/-- The converse fails: a name in capitals is reported as unresolved although evaluation finds the tag,
which is spelled in mixed letters. -/
theorem mixed_case_tag_is_missed :
    tankSnapshot.Keyed ∧ seed tankSnapshot = .ok tankEnvironment ∧
    "LEVEL".toText ∈ Source.identifiers "LEVEL := 0;".toText ∧
    tankSnapshot.find? "LEVEL".toText = none ∧
    "LEVEL".toText ∈ (Extraction.ofCode "LEVEL := 0;".toText tankSnapshot true).unresolved ∧
    (tankEnvironment.lookup "LEVEL".toText).isSome = true :=
  ⟨keyed_tankSnapshot, seed_tankSnapshot, by decide +kernel, by decide +kernel, by decide +kernel,
    by decide +kernel⟩

-- the two exceptions are needed: extraction finds a tag through the capital of a dotless i, and one
-- behind a number sign, where evaluation finds none
example : ((empty.put (some "I".toText, ⟨"I".toText, [], [], none, none⟩)).find? "ı".toText).isSome = true ∧
    (lookup ⟨[("i".toText, ⟨"I".toText, .text [], [], .cache⟩)]⟩ "ı".toText).isSome = false := by
  decide +kernel

example : ((empty.put (some "#x".toText, ⟨"#x".toText, [], [], none, none⟩)).find?
    "#x".toText).isSome = true ∧
    (lookup ⟨[("#x".toText, ⟨"#x".toText, .text [], [], .cache⟩)]⟩ "#x".toText).isSome = false := by
  decide +kernel

end SclNarrator
