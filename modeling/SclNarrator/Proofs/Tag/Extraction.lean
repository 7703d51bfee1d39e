import SclNarrator.Analysis.Session
import SclNarrator.Proofs.Except
import SclNarrator.Proofs.Keyed

/-!
The tags that a code refers to: what they depend on, and how the identifiers of the code are parted by
whether they lead to one.

What is proved:
  1. the tags depend on what the identifiers lead to, and not on where else the snapshot has tags
     (`ofCode_congr`). Records for names without a tag come on top of the others and change nothing
     else (`agrees_ofCode`);
  2. one more identifier adds to one of the two parts, or to none if its tag or its own folded name is
     known (`Parted.add`);
  3. so each part holds the first of what its identifiers lead to, in order (`parted_ofCode`), and
     nothing twice; records of names without a tag are an addition, and the statistics count both
     parts (`partition_ofCode`).

Correspondence (analyzer ↔ here):
  `extract_tags`, `find_tag` ↔ `Extraction.ofCode`, `Snapshot.find?`
-/

namespace SclNarrator

/-! ## What the tags depend on -/

namespace Extraction

theorem ofCode_congr {snapshot snapshot' : Snapshot} {code : Text} (includeUnresolved : Bool)
    (same : ∀ name ∈ Source.identifiers code, snapshot.find? name = snapshot'.find? name) :
    ofCode code snapshot includeUnresolved = ofCode code snapshot' includeUnresolved := by
  have run (names : List Text) :
      ∀ x : Extraction, (∀ name ∈ names, snapshot.find? name = snapshot'.find? name) →
      names.foldl (add snapshot includeUnresolved) x = names.foldl (add snapshot' includeUnresolved) x := by
    induction names with
    | nil => exact fun _ _ => rfl
    | cons name names ih =>
      intro x same
      rw [List.forall_mem_cons] at same
      rw [List.foldl_cons, List.foldl_cons, ih _ same.2, add, add, same.1]
  exact run _ {} same

/-! ### Records for names without a tag -/

variable {snapshot : Snapshot} {x x' : Extraction} {asked asked' : Bool}

/-- Whether two extractions have found the same and missed the same; whether the names without a tag are among
their records is left open, unless it was asked for alike. -/
structure Agrees (asked asked' : Bool) (x x' : Extraction) : Prop where
  found : x.records.filter TagRecord.found = x'.records.filter TagRecord.found
  unresolved : x.unresolved = x'.unresolved
  records : asked = asked' → x.records = x'.records

theorem Agrees.foundCount_eq (h : Agrees asked asked' x x') : x.foundCount = x'.foundCount := by
  rw [foundCount, foundCount, h.found]

theorem any_found (records : List TagRecord) (key : Text) :
    records.any (fun r => r.found && r.name.fold == key) =
      (records.filter TagRecord.found).any (fun r => r.name.fold == key) :=
  List.any_filter.symm

theorem filter_found_missing (asked : Bool) (records : List TagRecord) (name : Text) :
    (if asked then records ++ [.missing name] else records).filter TagRecord.found =
      records.filter TagRecord.found := by
  cases asked with
  | false => rfl
  | true =>
    rw [if_pos rfl, List.filter_append]
    exact List.append_nil _

theorem Agrees.add (h : Agrees asked asked' x x') (name : Text) :
    Agrees asked asked' (add snapshot asked x name) (add snapshot asked' x' name) := by
  unfold Extraction.add
  split
  · rw [h.unresolved]
    split
    · exact h
    · refine ⟨?_, rfl, fun same => ?_⟩
      · rw [filter_found_missing, filter_found_missing, h.found]
      · rw [same, h.records same]
  · rw [any_found, any_found, h.found]
    split
    · exact h
    · refine ⟨?_, h.unresolved, fun same => ?_⟩
      · rw [List.filter_append, List.filter_append, h.found]
      · rw [h.records same]

/-- Asking for the names without a tag changes neither what is found nor what is missed. -/
theorem agrees_ofCode (code : Text) (snapshot : Snapshot) (asked asked' : Bool) :
    Agrees asked asked' (ofCode code snapshot asked) (ofCode code snapshot asked') := by
  have run (names : List Text) : ∀ x x', Agrees asked asked' x x' →
      Agrees asked asked' (names.foldl (Extraction.add snapshot asked) x)
        (names.foldl (Extraction.add snapshot asked') x') := by
    induction names with
    | nil => exact fun _ _ h => h
    | cons name names ih => exact fun x x' h => ih _ _ (h.add name)
  exact run _ {} {} ⟨rfl, rfl, fun _ => rfl⟩

theorem found_of_unasked (code : Text) (snapshot : Snapshot) :
    ∀ r ∈ (ofCode code snapshot false).records, r.found = true := by
  have run (names : List Text) : ∀ x : Extraction, (∀ r ∈ x.records, r.found = true) →
      ∀ r ∈ (names.foldl (add snapshot false) x).records, r.found = true := by
    induction names with
    | nil => exact fun _ h => h
    | cons name names ih =>
      intro x h
      refine ih _ ?_
      unfold Extraction.add
      split
      · split
        · exact h
        · exact h
      · split
        · exact h
        · exact List.forall_mem_append.mpr ⟨h, List.forall_mem_singleton.mpr rfl⟩
  exact run _ {} fun r mem => absurd mem List.not_mem_nil

end Extraction

/-! ## The two parts -/

namespace TagRecord

/-- The record that a name leads to: of its tag, or of the name itself if it has none. -/
def ofName (snapshot : Snapshot) (name : Text) : TagRecord :=
  match snapshot.find? name with
  | some tag => .ofTag tag
  | none => .missing name

/-- What the records of one tag, or of one name without a tag, have in common. -/
def key (r : TagRecord) : Bool × Text := (r.found, r.name.fold)

end TagRecord

namespace Extraction

variable {snapshot : Snapshot} {asked : Bool} {names : List Text} {x : Extraction}

/-- What some names lead to, parted: the first record of each tag, the first spelling of each name
without a tag, and the records of both in one order if those without a tag are asked for. -/
structure Parted (snapshot : Snapshot) (asked : Bool) (names : List Text) (x : Extraction) : Prop where
  found : x.records.filter TagRecord.found =
    (firstsBy (·.name.fold) (names.filterMap snapshot.find?)).map .ofTag
  unresolved : x.unresolved = firstsBy Text.fold (names.filter fun name => (snapshot.find? name).isNone)
  missing : x.records.filter (!·.found) = if asked then x.unresolved.map .missing else []
  records : asked = true → x.records = firstsBy TagRecord.key (names.map (TagRecord.ofName snapshot))

theorem Parted.any_tag (h : Parted snapshot asked names x) (form : Text) :
    (x.records.any fun r => r.found && r.name.fold == form) =
      (firstsBy (·.name.fold) (names.filterMap snapshot.find?)).any fun tag => tag.name.fold == form := by
  rw [any_found, h.found, List.any_map]
  rfl

/-- Whether a name without a tag has a record can be told from the names that were missed, if it gets one. -/
theorem Parted.any_missing (h : Parted snapshot true names x) (form : Text) :
    (x.records.any fun r => !r.found && r.name.fold == form) = x.unresolved.any (·.fold == form) := by
  rw [← List.any_filter, h.missing, if_pos rfl, List.any_map]
  rfl

theorem key_beq_missing (r : TagRecord) (name : Text) :
    (r.key == (TagRecord.missing name).key) = (!r.found && r.name.fold == name.fold) := by
  rw [TagRecord.key, TagRecord.key]
  cases r.found <;> rfl

theorem key_beq_ofTag (r : TagRecord) (tag : Tag) :
    (r.key == (TagRecord.ofTag tag).key) = (r.found && r.name.fold == tag.name.fold) := by
  rw [TagRecord.key, TagRecord.key]
  cases r.found <;> rfl

theorem Parted.add_missing (h : Parted snapshot asked names x) {name : Text}
    (unfound : snapshot.find? name = none) :
    Parted snapshot asked (names ++ [name]) (add snapshot asked x name) := by
  have tags : (names ++ [name]).filterMap snapshot.find? = names.filterMap snapshot.find? := by simp [unfound]
  have missed : firstsBy Text.fold ((names ++ [name]).filter fun name => (snapshot.find? name).isNone) =
      if x.unresolved.any (·.fold == name.fold) then x.unresolved else x.unresolved ++ [name] := by
    rw [List.filter_append, List.filter_cons_of_pos (by rw [unfound]; rfl), List.filter_nil, firstsBy_concat,
      ← h.unresolved]
  have all (ask : asked = true) : firstsBy TagRecord.key ((names ++ [name]).map (TagRecord.ofName snapshot)) =
      if x.unresolved.any (·.fold == name.fold) then x.records else x.records ++ [.missing name] := by
    subst ask
    have last : TagRecord.ofName snapshot name = .missing name := by rw [TagRecord.ofName, unfound]
    simp only [List.map_append, List.map_singleton, last, firstsBy_concat, ← h.records rfl, key_beq_missing,
      h.any_missing]
  simp only [Extraction.add, unfound]
  split
  · next known =>
    rw [if_pos known] at missed
    exact ⟨tags ▸ h.found, missed.symm, h.missing, fun ask => by rw [all ask, if_pos known]⟩
  · next new =>
    rw [if_neg new] at missed
    refine ⟨?_, missed.symm, ?_, fun ask => by rw [all ask, if_neg new, if_pos ask]⟩
    · rw [filter_found_missing, tags, h.found]
    · cases asked with
      | false => exact h.missing
      | true =>
        have before := h.missing
        rw [if_pos rfl] at before ⊢
        rw [if_pos rfl, List.filter_append, before, List.map_append]
        rfl

theorem Parted.add_found (h : Parted snapshot asked names x) {name : Text} {tag : Tag}
    (found : snapshot.find? name = some tag) :
    Parted snapshot asked (names ++ [name]) (add snapshot asked x name) := by
  have tags : firstsBy (·.name.fold) ((names ++ [name]).filterMap snapshot.find?) =
      if x.records.any (fun r => r.found && r.name.fold == tag.name.fold) then
        firstsBy (·.name.fold) (names.filterMap snapshot.find?)
      else firstsBy (·.name.fold) (names.filterMap snapshot.find?) ++ [tag] := by
    rw [h.any_tag, List.filterMap_append, List.filterMap_cons_some found, List.filterMap_nil, firstsBy_concat]
  have missed : (names ++ [name]).filter (fun name => (snapshot.find? name).isNone) =
      names.filter fun name => (snapshot.find? name).isNone := by simp [found]
  have all (ask : asked = true) : firstsBy TagRecord.key ((names ++ [name]).map (TagRecord.ofName snapshot)) =
      if x.records.any (fun r => r.found && r.name.fold == tag.name.fold) then x.records
      else x.records ++ [.ofTag tag] := by
    have last : TagRecord.ofName snapshot name = .ofTag tag := by rw [TagRecord.ofName, found]
    simp only [List.map_append, List.map_singleton, last, firstsBy_concat, ← h.records ask, key_beq_ofTag]
  simp only [Extraction.add, found]
  split
  · next known =>
    rw [if_pos known] at tags
    exact ⟨tags ▸ h.found, missed ▸ h.unresolved, h.missing, fun ask => by rw [all ask, if_pos known]⟩
  · next new =>
    rw [if_neg new] at tags
    refine ⟨?_, missed ▸ h.unresolved, ?_, fun ask => by rw [all ask, if_neg new]⟩
    · rw [tags, List.filter_append, h.found, List.map_append]
      rfl
    · rw [List.filter_append, h.missing]
      exact List.append_nil _

/-- One more name keeps the parts. -/
theorem Parted.add (h : Parted snapshot asked names x) (name : Text) :
    Parted snapshot asked (names ++ [name]) (add snapshot asked x name) := by
  cases found : snapshot.find? name with
  | none => exact h.add_missing found
  | some tag => exact h.add_found found

/-- The extraction of tags parts the identifiers of a code. -/
theorem parted_ofCode (code : Text) (snapshot : Snapshot) (asked : Bool) :
    Parted snapshot asked (Source.identifiers code) (ofCode code snapshot asked) := by
  rw [ofCode]
  generalize Source.identifiers code = names
  induction names using List.reverseRecOn with
  | nil => exact ⟨rfl, rfl, by cases asked <;> rfl, fun _ => rfl⟩
  | append_singleton names name ih =>
    rw [List.foldl_append]
    exact ih.add name

structure Partition (snapshot : Snapshot) (names : List Text) (x : Extraction) : Prop where
  /-- No tag is found twice, in whatever spellings. -/
  found_nodup : ((x.records.filter TagRecord.found).map (·.name.fold)).Nodup
  /-- No name without a tag is reported twice, in whatever spellings. -/
  unresolved_nodup : (x.unresolved.map Text.fold).Nodup
  /-- Every name leads to a tag that has just one record, or is reported just once as a name without a tag. -/
  covers : ∀ name ∈ names,
    (∃ tag, snapshot.find? name = some tag ∧
      x.records.countP (fun r => r.found && r.name.fold == tag.name.fold) = 1) ∨
    (snapshot.find? name = none ∧ x.unresolved.countP (·.fold == name.fold) = 1)
  /-- The records are those of the first name for each tag, in the order of the names. -/
  found_eq : x.records.filter TagRecord.found =
    (firstsBy (·.name.fold) (names.filterMap snapshot.find?)).map .ofTag
  /-- What is reported is the first spelling of each name without a tag, in the order of the names. -/
  unresolved_eq : x.unresolved = firstsBy Text.fold (names.filter fun name => (snapshot.find? name).isNone)

theorem Parted.partition (h : Parted snapshot asked names x) : Partition snapshot names x := by
  refine ⟨?_, h.unresolved ▸ nodup_firstsBy _, fun name mem => ?_, h.found, h.unresolved⟩
  · rw [h.found, List.map_map]
    exact nodup_firstsBy _
  · cases found : snapshot.find? name with
    | some tag =>
      have among : tag ∈ names.filterMap snapshot.find? := List.mem_filterMap.mpr ⟨name, mem, found⟩
      have once : (firstsBy (·.name.fold) (names.filterMap snapshot.find?)).countP
          (fun other => other.name.fold == tag.name.fold) = 1 := countP_firstsBy among
      refine .inl ⟨tag, rfl, ?_⟩
      simp only [Bool.and_comm (TagRecord.found _)]
      rw [← List.countP_filter, h.found, List.countP_map, ← once]
      rfl
    | none =>
      have among : name ∈ names.filter fun name => (snapshot.find? name).isNone :=
        List.mem_filter.mpr ⟨mem, by rw [found]; rfl⟩
      exact .inr ⟨rfl, h.unresolved ▸ countP_firstsBy among⟩

/-- The numbers of tags in a report are those of the extraction. -/
theorem statistics_ofTags {config : Config} {code : Text} {snapshot : Snapshot} {earlier : List Diagnostic}
    {a : Analysis} (h : Analysis.ofTags config code snapshot earlier = .ok a) :
    let x := ofCode (Source.stripComments false code) snapshot config.reportUnresolved
    a.tags = x.records ∧
      a.statistics.tagsFound = (x.records.filter TagRecord.found).length + x.unresolved.length := by
  unfold Analysis.ofTags at h
  obtain ⟨run, -, h⟩ := ok_of_bind h
  obtain ⟨narrative, -, h⟩ := ok_of_bind h
  cases h
  exact ⟨rfl, rfl⟩

/-- **The identifiers of a code are parted without duplicates.** Asking for records of the names
without a tag changes neither part: it puts one record of each such name in its place among the
others. A report counts both parts. -/
theorem partition_ofCode (snapshot : Snapshot) :
    (∀ code asked, Partition snapshot (Source.identifiers code) (ofCode code snapshot asked)) ∧
    (∀ code, let plain := ofCode code snapshot false
      let full := ofCode code snapshot true
      full.unresolved = plain.unresolved ∧
        full.records.filter TagRecord.found = plain.records ∧
        full.records.filter (!·.found) = plain.unresolved.map .missing ∧
        full.records = firstsBy TagRecord.key ((Source.identifiers code).map (TagRecord.ofName snapshot))) ∧
    ∀ config code earlier a, Analysis.ofTags config code snapshot earlier = .ok a →
      let x := ofCode (Source.stripComments false code) snapshot config.reportUnresolved
      a.tags = x.records ∧
        a.statistics.tagsFound = (x.records.filter TagRecord.found).length + x.unresolved.length := by
  refine ⟨fun code asked => (parted_ofCode code snapshot asked).partition, fun code => ?_,
    fun _ _ _ _ report => statistics_ofTags report⟩
  have full := parted_ofCode code snapshot true
  have agrees := agrees_ofCode code snapshot true false
  refine ⟨agrees.unresolved, ?_, ?_, full.records rfl⟩
  · rw [agrees.found, List.filter_eq_self.mpr (found_of_unasked code snapshot)]
  · rw [← agrees.unresolved]
    exact full.missing

/-- A tag under another name than its own. -/
def pumpSnapshot : Snapshot :=
  Snapshot.empty.put (some "PUMP".toText,
    { name := "Pump 1".toText, value := "3".toText, dataType := "INT".toText })

/-- Three spellings of two names, one of which leads to a tag. -/
theorem partition_ofCode_pump :
    let code := "a := A + pump;".toText
    (ofCode code pumpSnapshot true).records =
        [.missing "a".toText, .ofTag ⟨"Pump 1".toText, "3".toText, "INT".toText, none, none⟩] ∧
      Partition pumpSnapshot (Source.identifiers code) (ofCode code pumpSnapshot true) ∧
      ∃ a, Analysis.ofTags {} code pumpSnapshot [] = .ok a ∧ a.statistics.tagsFound = 2 := by
  intro code
  refine ⟨by decide +kernel, (partition_ofCode pumpSnapshot).1 code true, ?_⟩
  cases report : Analysis.ofTags {} code pumpSnapshot [] with
  | ok a =>
    refine ⟨a, rfl, ((partition_ofCode pumpSnapshot).2.2 {} code [] a report).2.trans ?_⟩
    decide +kernel
  | error fault =>
    have made : (Analysis.ofTags {} code pumpSnapshot []).toOption.isSome = true := by decide +kernel
    rw [report] at made
    cases made

end Extraction

end SclNarrator
