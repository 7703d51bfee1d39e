import SclNarrator.Proofs.Run.Aliases
import SclNarrator.Proofs.Text.Folding
import SclNarrator.Proofs.Value.Written
import SclNarrator.Tag.Basic

/-!
Native values of a host. A whole number or a truth value that a host supplies is taken as the text that
stands for it, and that text is decoded by the declared type when an environment is made.

What is proved: such a value comes out of the environment as it went in, under every type that admits
it (`seed_ofJson_native`).

Asked for: the record has the value under one of its names and no field in the way (`Carries`), and the
other entries of the data can be read and have other names (`Beside`).

Correspondence (analyzer ↔ here):
  `build_snapshot`, `_value_as_text` ↔ `Snapshot.ofJson`, `Tag.valueField`
  `decode_tag_value`                 ↔ `Value.decode`
-/

namespace SclNarrator

/-! ## Declared types -/

theorem DataType.ofName?_typeName (t : Text) : DataType.ofName? (Tag.typeName t) = DataType.ofName? t := by
  unfold Tag.typeName
  by_cases empty : t.trim.upper = []
  · rw [empty]
    simp only [DataType.ofName?, empty]
    decide +kernel
  · rw [if_neg (by simpa using empty)]
    simp only [DataType.ofName?, Text.trim_upper, Text.upper_upper]

namespace Tag

/-- The type that a tag has from the type name of its record, if there is one. -/
def declaredType (type : Option Text) : Text := (type.map typeName).getD "UNKNOWN".toText

/-- The family of the type that a record names; none if it names no type that is known. -/
def declaredFamily (type : Option Text) : Option TypeFamily :=
  (type.bind DataType.ofName?).map DataType.family

theorem family_declaredType (type : Option Text) :
    (DataType.ofName? (declaredType type)).map DataType.family = declaredFamily type := by
  cases type with
  | none => decide +kernel
  | some t => exact congrArg (Option.map DataType.family) (DataType.ofName?_typeName t)

/-- The native values of a host that a declared type admits, each with the value that it stands for. -/
inductive Native (type : Option Text) : Json → Value → Prop where
  /-- A whole number that can be written, under any type but one of truth values or doubles. -/
  | whole {n : Int} (fits : n.natAbs < 10 ^ Numeral.digitLimit)
      (admits : declaredFamily type ∈ [some .whole, some .duration, some .textual, none]) :
      Native type (.int n) (.int n)
  /-- A truth value, under any type but one of numbers. -/
  | truth (b : Bool) (admits : declaredFamily type ∈ [some .truth, some .textual, none]) :
      Native type (.bool b) (.bool b)

variable {type : Option Text} {host : Json} {value : Value} {fields : List (Text × Json)}

/-- A whole number that can be written is taken as its text. -/
theorem valueField_int {n : Int} (fits : n.natAbs < 10 ^ Numeral.digitLimit) :
    valueField (.int n) = .ok (Numeral.text n) := by
  unfold valueField
  simp only [Value.intText_of_fits fits]

theorem Native.decode_valueField (native : Native type host value) :
    ∃ t, valueField host = .ok t ∧ Value.decode t (declaredType type) = .ok value := by
  have family := family_declaredType type
  cases native with
  | whole fits admits =>
    rw [← family] at admits
    exact ⟨_, valueField_int fits, Value.decode_text fits (fun truth => by simp [truth] at admits)
      (fun double => by simp [double] at admits)⟩
  | truth b admits =>
    rw [← family] at admits
    exact ⟨Value.truthText b, rfl, Value.decode_truthText b (fun whole => by simp [whole] at admits)
      (fun double => by simp [double] at admits) (fun duration => by simp [duration] at admits)⟩

/-! ## Records -/

/-- Whether a record carries a value under a declared type, has no name of its own, and has nothing
but texts or null for its address and quality. -/
structure Carries (fields : List (Text × Json)) (type : Option Text) (host : Json) : Prop where
  value : fields.lookup "value".toText = some host
  dataType : fields.lookup "data_type".toText = type.map .text
  noTagName : fields.lookup "tag_name".toText = none
  noName : fields.lookup "name".toText = none
  address : ∀ v ∈ fields.lookup "address".toText, ∃ a, optionalField v = .ok a
  quality : ∀ v ∈ fields.lookup "quality".toText, ∃ q, optionalField v = .ok q

theorem exists_fieldOr {α : Type} {name : Text} {read : Json → Except Text α}
    (reads : ∀ v ∈ fields.lookup name, ∃ a, read v = .ok a) (default : α) :
    ∃ a, fieldOr fields name read default = .ok a := by
  unfold fieldOr
  cases found : fields.lookup name with
  | none => exact ⟨default, rfl⟩
  | some v =>
    obtain ⟨a, made⟩ := reads v found
    exact ⟨a, by simp only [made]⟩

theorem Carries.ofRecord (carries : Carries fields type host) (native : Native type host value) (key : Text) :
    ∃ tag, Tag.ofRecord key fields = .ok tag ∧ tag.name = key ∧ tag.dataType = declaredType type ∧
      Value.decode tag.value tag.dataType = .ok value := by
  obtain ⟨t, text, decoded⟩ := native.decode_valueField
  obtain ⟨address, hasAddress⟩ := exists_fieldOr carries.address none
  obtain ⟨quality, hasQuality⟩ := exists_fieldOr carries.quality none
  have name : nameField key fields = .ok key := by
    simp only [nameField, fieldOr, carries.noTagName, carries.noName]
    rfl
  have value : fieldOr fields "value".toText valueField [] = .ok t := by
    simp only [fieldOr, carries.value, text]
  have dataType : fieldOr fields "data_type".toText (fun v => (textField v).map typeName) "UNKNOWN".toText =
      .ok (declaredType type) := by
    rw [fieldOr, carries.dataType]
    cases type <;> rfl
  refine ⟨⟨key, t, declaredType type, address, quality⟩, ?_, rfl, rfl, decoded⟩
  simp only [Tag.ofRecord, name, value, dataType, hasAddress, hasQuality]

structure Apart (name : Text) (tag : Tag) : Prop where
  decodes : tag.Decodes
  fold_ne : tag.name.fold ≠ name.fold
  lookupKey_ne : tag.name.fold ≠ Environment.lookupKey name

end Tag

/-! ## Environments -/

namespace Environment

theorem lookup_entries_seedTag {env next : Environment} {tag : Tag} {key : Text}
    (taken : env.seedTag tag = .ok next)
    (other : tag.name.fold ≠ key) : next.entries.lookup key = env.entries.lookup key := by
  obtain ⟨-, rfl⟩ | ⟨-, value, -, rfl⟩ := seedTag_cases taken
  · rfl
  · rw [lookup_putKey, if_neg other.symm]

theorem seed_of_apart {snapshot : Snapshot} {before after : List Tag} {tag : Tag} {value : Value}
    (whole : snapshot.tags = before ++ tag :: after) (apart : ∀ t ∈ before ++ after, t.Apart tag.name)
    (decoded : Value.decode tag.value tag.dataType = .ok value) :
    ∃ env, seed snapshot = .ok env ∧
      env.entries.lookup tag.name.fold = some ⟨tag.name, value, tag.dataType, .cache⟩ := by
  have decodes : ∀ t ∈ snapshot.tags, t.Decodes := by
    intro t mem
    rw [whole, List.mem_append, List.mem_cons] at mem
    obtain early | rfl | late := mem
    · exact (apart t (List.mem_append_left after early)).decodes
    · exact ⟨value, decoded⟩
    · exact (apart t (List.mem_append_right before late)).decodes
  obtain ⟨env, seeded⟩ := exists_seed decodes
  refine ⟨env, seeded, ?_⟩
  rw [seed, whole, List.foldlM_append] at seeded
  obtain ⟨middle, earlier, rest⟩ := ok_of_bind seeded
  rw [List.foldlM_cons] at rest
  obtain ⟨next, taken, later⟩ := ok_of_bind rest
  have free : (middle.lookup tag.name).isSome = false :=
    (free_of_foldlM earlier).mpr fun t mem => (apart t (List.mem_append_left after mem)).lookupKey_ne
  have here : next.entries.lookup tag.name.fold = some ⟨tag.name, value, tag.dataType, .cache⟩ := by
    obtain ⟨bound, -⟩ | ⟨-, value', decoded', rfl⟩ := seedTag_cases taken
    · rw [free] at bound
      cases bound
    · rw [decoded] at decoded'
      cases decoded'
      rw [lookup_putKey, if_pos rfl]
  -- the tags behind it are bound under other keys
  refine foldlM_kept (P := fun env => env.entries.lookup tag.name.fold = _) later
    (fun _ t _ mem step kept => ?_) here
  rw [lookup_entries_seedTag step (apart t (List.mem_append_right before mem)).fold_ne, kept]

end Environment

/-! ## The data of a host -/

namespace Snapshot

open Tag Environment

variable {snapshot : Snapshot} {e e' : Option Text × Tag}

theorem mem_put (h : e ∈ (snapshot.put e').entries) : e = e' ∨ e ∈ snapshot.entries := by
  obtain ⟨_ | key, tag⟩ := e'
  · exact (List.mem_append.mp h).symm.imp List.mem_singleton.mp id
  · exact mem_putKey h

theorem mem_put_self (snapshot : Snapshot) (e : Option Text × Tag) : e ∈ (snapshot.put e).entries := by
  obtain ⟨_ | key, tag⟩ := e
  · exact List.mem_append_right _ (List.mem_singleton_self _)
  · exact mem_of_lookup (by rw [put, lookup_putKey, if_pos rfl])

theorem mem_put_of_ne (mem : e ∈ snapshot.entries) (other : e.1 ≠ e'.1) : e ∈ (snapshot.put e').entries := by
  obtain ⟨_ | key, tag⟩ := e'
  · exact List.mem_append_left _ mem
  · have kept : e ∈ (putKey (some key) tag snapshot.entries).filter (·.1 != some key) := by
      rw [filter_putKey]
      exact List.mem_filter.mpr ⟨mem, bne_iff_ne.mpr other⟩
    exact (List.mem_filter.mp kept).1

theorem mem_of_mem_foldl_put {es : List (Option Text × Tag)} (h : e ∈ (es.foldl put snapshot).entries) :
    e ∈ es ∨ e ∈ snapshot.entries := by
  induction es generalizing snapshot with
  | nil => exact .inr h
  | cons e' rest ih =>
    rcases ih h with later | mem
    · exact .inl (List.mem_cons_of_mem _ later)
    · rcases mem_put mem with rfl | mem
      · exact .inl List.mem_cons_self
      · exact .inr mem

/-- An entry stays as long as nothing is put under its key. -/
theorem mem_foldl_put {es : List (Option Text × Tag)} (mem : e ∈ snapshot.entries)
    (other : ∀ e' ∈ es, e.1 ≠ e'.1) :
    e ∈ (es.foldl put snapshot).entries := by
  induction es generalizing snapshot with
  | nil => exact mem
  | cons e' rest ih =>
    rw [List.forall_mem_cons] at other
    exact ih (mem_put_of_ne mem other.1) other.2

theorem key_ne_of_split {key : Text} {tag : Tag} {before after : List (Option Text × Tag)}
    (whole : snapshot.entries = before ++ (some key, tag) :: after) :
    ∀ e ∈ before ++ after, e.1 ≠ some key := by
  have nodup := snapshot.nodup
  have here : ((some key, tag) :: after).filterMap Prod.fst = key :: after.filterMap Prod.fst := rfl
  rw [whole, List.filterMap_append, here, List.nodup_middle, List.nodup_cons,
    ← List.filterMap_append] at nodup
  exact fun e mem here => nodup.1 (List.mem_filterMap.mpr ⟨e, mem, here⟩)

/-- Whether a field of the host's data stands under another key than a name, as all fields of a mapping
but one do, and makes a tag that is apart from the name. -/
def Beside (name : Text) (field : Text × Json) : Prop :=
  field.1 ≠ name ∧ ∃ tag, entry (some field.1) field.2 = .ok (some field.1, tag) ∧ tag.Apart name

theorem exists_entries {name : Text} {fields : List (Text × Json)}
    (beside : ∀ field ∈ fields, Beside name field) :
    ∃ made, ((entriesOf fields).mapM fun e => entry e.1 e.2) = .ok made ∧
      ∀ e ∈ made, some name ≠ e.1 ∧ e.2.Apart name := by
  apply exists_mapM
  intro e mem
  obtain ⟨field, among, rfl⟩ := List.mem_map.mp mem
  obtain ⟨other, tag, made, apart⟩ := beside field among
  exact ⟨_, made, fun same => other (Option.some_inj.mp same).symm, apart⟩

/-- **Native values survive.** A record of the host's data that carries a native value, under a type
that admits it and under any key, makes a binding from the snapshot with the key for its name and
exactly that value, if the other records make tags that can be decoded and are apart from the key.
The key leads to it unless it starts with a number sign. -/
theorem seed_ofJson_native {type : Option Text} {host : Json} {value : Value}
    (native : Native type host value)
    {record : List (Text × Json)} (carries : Carries record type host) (key : Text)
    (before after : List (Text × Json))
    (beside : ∀ field ∈ before ++ after, Beside key field) :
    ∃ snapshot env, ofJson (.object (before ++ (key, .object record) :: after)) = .ok snapshot ∧
      seed snapshot = .ok env ∧
      env.entries.lookup key.fold = some ⟨key, value, declaredType type, .cache⟩ ∧
      (key.head? ≠ some (.char '#') → env.lookup key = some ⟨key, value, declaredType type, .cache⟩) := by
  obtain ⟨tag, made, rfl, typed, decoded⟩ := carries.ofRecord native key
  obtain ⟨front, first, apartFront⟩ :=
    exists_entries fun field mem => beside field (List.mem_append_left after mem)
  obtain ⟨back, last, apartBack⟩ :=
    exists_entries fun field mem => beside field (List.mem_append_right before mem)
  have here : entry (some tag.name) (.object record) = .ok (some tag.name, tag) := by
    simp only [entry, Option.getD_some, made]
    rfl
  have taken : ofJson (.object (before ++ (tag.name, .object record) :: after)) =
      .ok ((front ++ (some tag.name, tag) :: back).foldl put empty) := by
    have filled : (Json.object (before ++ (tag.name, .object record) :: after)).nonzero = true := by
      simp [Json.nonzero]
    rw [ofJson, if_pos filled]
    simp only [ofEntries, entriesOf, List.map_append, List.map_cons, List.mapM_append, List.mapM_cons]
    simp only [entriesOf] at first last
    rw [first, ok_bind, here, ok_bind, last]
    rfl
  generalize filed : (front ++ (some tag.name, tag) :: back).foldl put empty = snapshot at taken
  have mem : (some tag.name, tag) ∈ snapshot.entries := by
    rw [← filed, List.foldl_append, List.foldl_cons]
    exact mem_foldl_put (mem_put_self _ _) fun e mem => (apartBack e mem).1
  obtain ⟨earlier, later, whole⟩ := List.append_of_mem mem
  -- what stands beside the entry was put there under another key
  have apart : ∀ e ∈ earlier ++ later, e.2.Apart tag.name := by
    intro e among
    have inside : e ∈ snapshot.entries := by
      rw [whole, List.mem_append, List.mem_cons]
      exact (List.mem_append.mp among).imp id .inr
    have put : e ∈ front ++ (some tag.name, tag) :: back :=
      (mem_of_mem_foldl_put (filed ▸ inside)).resolve_right List.not_mem_nil
    rw [List.mem_append, List.mem_cons] at put
    rcases put with early | rfl | late
    · exact (apartFront e early).2
    · exact absurd rfl (key_ne_of_split whole _ among)
    · exact (apartBack e late).2
  have tags : snapshot.tags = earlier.map Prod.snd ++ tag :: later.map Prod.snd := by
    rw [Snapshot.tags, Snapshot.map, whole, List.map_append, List.map_cons]
  have others : ∀ t ∈ earlier.map Prod.snd ++ later.map Prod.snd, t.Apart tag.name := by
    intro t mem
    rw [← List.map_append] at mem
    obtain ⟨e, among, rfl⟩ := List.mem_map.mp mem
    exact apart e among
  obtain ⟨env, seeded, bound⟩ := seed_of_apart tags others decoded
  rw [typed] at bound
  refine ⟨_, env, taken, seeded, bound, fun bare => ?_⟩
  rw [Environment.lookup, lookupKey_of_head? bare, bound]

/-- The least whole number that can be written survives as a duration, behind a truth value. -/
theorem seed_ofJson_native_least :
    Native (some " ltime ".toText) (.int (1 - (10 ^ Numeral.digitLimit : Nat)))
      (.int (1 - (10 ^ Numeral.digitLimit : Nat))) ∧
    Carries [("value".toText, .int (1 - (10 ^ Numeral.digitLimit : Nat))),
      ("data_type".toText, .text " ltime ".toText)]
      (some " ltime ".toText) (.int (1 - (10 ^ Numeral.digitLimit : Nat))) ∧
    Beside "Limit".toText ("Flag".toText, .object [("value".toText, .bool true)]) ∧
    ∃ snapshot env, ofJson (.object [("Flag".toText, .object [("value".toText, .bool true)]),
        ("Limit".toText, .object [("value".toText, .int (1 - (10 ^ Numeral.digitLimit : Nat))),
          ("data_type".toText, .text " ltime ".toText)])]) = .ok snapshot ∧
      seed snapshot = .ok env ∧
      env.lookup "Limit".toText =
        some ⟨"Limit".toText, .int (1 - (10 ^ Numeral.digitLimit : Nat)), "LTIME".toText, .cache⟩ := by
  have small := Numeral.natAbs_least_lt
  generalize (1 - (10 ^ Numeral.digitLimit : Nat) : Int) = n at small ⊢
  have native : Native (some " ltime ".toText) (.int n) (.int n) := .whole small (by decide +kernel)
  have carries : Carries [("value".toText, .int n), ("data_type".toText, .text " ltime ".toText)]
      (some " ltime ".toText) (.int n) :=
    ⟨rfl, rfl, rfl, rfl, fun _ found => (by cases found), fun _ found => (by cases found)⟩
  have beside : Beside "Limit".toText ("Flag".toText, .object [("value".toText, .bool true)]) := by
    refine ⟨by decide, ⟨"Flag".toText, "TRUE".toText, "UNKNOWN".toText, none, none⟩, rfl, ?_,
      by decide, by decide⟩
    exact ⟨.bool true, Value.decode_truthText true (by decide) (by decide) (by decide)⟩
  obtain ⟨snapshot, env, taken, seeded, -, found⟩ := seed_ofJson_native native carries "Limit".toText
    [("Flag".toText, .object [("value".toText, .bool true)])] [] fun field mem =>
      List.mem_singleton.mp mem ▸ beside
  exact ⟨native, carries, beside, snapshot, env, taken, seeded, found (by decide)⟩

end Snapshot
end SclNarrator
