import Mathlib.Data.List.Chain
import SclNarrator.Proofs.Analysis.Parallel
import SclNarrator.Proofs.Run.Alike
import SclNarrator.Proofs.Tag.Extraction
import SclNarrator.Proofs.Tag.Resolution

/-!
Tags that a code does not mention.

What is proved: one more tag anywhere in the snapshot changes nothing in the report, if no stretch of
the code without comments folds to its name (`ofTags_insert`).

Asked for besides:
  1. names are identifiers, and the code has no double quote;
  2. no beginning of the name stands before a `#` and the start of a name, because a call that is
     taken out there could join the name together (`call_joins_name`);
  3. in an expression that the run tells of and that has an apostrophe without a partner, no
     backslash stands before the start of a name, because behind such an apostrophe the text of
     another tag could come to be read as an expression;
  4. the tag, and later ones of the same name in other letters, can be decoded, because the tag
     comes before them and one that is not taken up need not be decoded.

Correspondence (analyzer ↔ here):
  `extract_tags`                   ↔ `Extraction.ofCode`
  `LocalEnvironment.from_snapshot` ↔ `Environment.seed`
  `_strip_calls`                   ↔ `Source.stripCalls`
-/

namespace SclNarrator

/-! ## Code without comments -/

namespace Source

theorem mem_of_mem_stripComments {code : Text} {keep : Bool} {c : CodePoint} (mark : c ≠ '\'')
    (h : c ∈ stripComments keep code) : c ∈ code := by
  obtain ⟨piece, among, mem⟩ := List.mem_flatMap.mp h
  rw [← Text.cut_text part code]
  refine List.mem_flatMap.mpr ⟨piece, among, ?_⟩
  cases piece with
  | plain d => exact mem
  | found t kind =>
    cases kind with
    | comment => cases mem
    | literal =>
      cases keep with
      | true => exact mem
      | false => exact absurd mem (by simpa [stripPiece] using mark)

theorem infix_stripComments {code w : Text} (words : ∀ c ∈ w, isWord c = true)
    (h : w <:+: stripComments false code) : w <:+: stripComments true code := by
  refine infix_of_flatMap words (fun piece _ => ?_) h
  cases piece with
  | plain c => exact .inl rfl
  | found t kind =>
    cases kind with
    | comment => exact .inl rfl
    | literal =>
      have marks : ∀ c ∈ [CodePoint.char '\'', .char '\''], isWord c = false := by decide
      exact .inr ⟨List.cons_ne_nil _ _, marks⟩

end Source

/-! ## Plain identifiers -/

namespace Program

theorem isNameChar_of_isIdentifier {name : Text} (h : isIdentifier name = true) {c : CodePoint}
    (mem : c ∈ name) :
    isNameChar c = true := by
  cases name with
  | nil => cases mem
  | cons d name =>
    rw [isIdentifier, Bool.and_eq_true, List.all_eq_true] at h
    rcases List.mem_cons.mp mem with rfl | mem
    · exact isNameChar_of_isNameStart h.1
    · exact h.2 c mem

theorem point_not_mem_fold {name : Text} (h : isIdentifier name = true) : .char '.' ∉ name.fold := by
  intro mem
  obtain ⟨c, inside, point⟩ := List.mem_flatMap.mp mem
  have pointless : (!(foldChar c).contains (.char '.')) = true := by
    rcases isNameStart_or_isDigit_of_isNameChar (isNameChar_of_isIdentifier h inside) with start | digit
    · exact forall_nameStart (P := fun c => !(foldChar c).contains '.') (by decide) start
    · exact forall_digit (P := fun c => !(foldChar c).contains '.') (by decide) digit
  rw [List.contains_iff_mem.mpr point] at pointless
  cases pointless

end Program

/-! ## The tags that the code refers to -/

variable {snapshot extended : Snapshot} {before after : List (Option Text × Tag)} {tag : Tag}

theorem Snapshot.find?_insert {key name : Text} (whole : snapshot.entries = before ++ after)
    (inserted : extended.entries = before ++ (some key, tag) :: after) (other : key ∉ spellings name) :
    extended.find? name = snapshot.find? name := by
  have lookup (spelling : Text) (mem : spelling ∈ spellings name) :
      extended.entries.lookup (some spelling) = snapshot.entries.lookup (some spelling) := by
    have ne : (some spelling == some key) = false := by
      rw [beq_eq_false_iff_ne]
      rintro ⟨⟩
      exact other mem
    rw [whole, inserted, List.lookup_append, List.lookup_append, List.lookup_cons, ne]
  simp only [spellings, List.forall_mem_cons] at lookup
  obtain ⟨name', lower, upper, -⟩ := lookup
  simp only [find?, List.findSome?_cons, List.findSome?_nil, name', lower, upper]

/-- A tag whose name no identifier of the code folds to does not change what the code refers to. -/
theorem Extraction.ofCode_insert (whole : snapshot.entries = before ++ after)
    (inserted : extended.entries = before ++ (some tag.name, tag) :: after) {code : Text}
    (includeUnresolved : Bool)
    (double : .char '"' ∉ code) (free : Free tag.name.fold code) :
    ofCode code extended includeUnresolved = ofCode code snapshot includeUnresolved := by
  refine ofCode_congr includeUnresolved fun name mem => Snapshot.find?_insert whole inserted fun spelled => ?_
  obtain ⟨part, plain⟩ := infix_of_mem_identifiers double mem
  have dotless : CodePoint.char 'ı' ∉ name := fun mem => by
    have := Program.isNameChar_of_isIdentifier plain mem
    revert this
    decide
  exact free.fold_ne part (Program.isIdentifier_term plain)
    (Snapshot.fold_of_mem_spellings dotless spelled).symm

/-! ## The report -/

/-- One more tag that can be decoded leaves the environments of two snapshots alike but for its name. -/
theorem Environment.seed_snapshot_insert (whole : snapshot.entries = before ++ after)
    (inserted : extended.entries = before ++ (some tag.name, tag) :: after)
    (identifiers : ∀ e ∈ extended.entries, Program.isIdentifier e.2.name = true)
    (decodes : ∀ e ∈ (some tag.name, tag) :: after, e.2.name.fold = tag.name.fold →
      ∃ value, Value.decode e.2.value e.2.dataType = .ok value) :
    Likewise (Alike tag.name.fold) (seed extended) (seed snapshot) := by
  have tags : extended.tags = before.map Prod.snd ++ tag :: after.map Prod.snd := by
    rw [Snapshot.tags, Snapshot.map, inserted, List.map_append, List.map_cons]
  have others : snapshot.tags = before.map Prod.snd ++ after.map Prod.snd := by
    rw [Snapshot.tags, Snapshot.map, whole, List.map_append]
  rw [seed, seed, tags, others]
  refine seed_insert (fun t mem => ?_) fun t mem => ?_
  · obtain ⟨e, entry, rfl⟩ := List.mem_map.mp (tags ▸ mem)
    exact Program.isIdentifier_term (identifiers e entry)
  · have later : t ∈ ((some tag.name, tag) :: after).map Prod.snd := mem
    obtain ⟨e, entry, rfl⟩ := List.mem_map.mp later
    exact decodes e entry

namespace Analysis

/-- **A tag that the code does not mention has no influence on the report.** -/
theorem ofTags_insert (config : Config) {code : Text} {snapshot extended : Snapshot}
    {before after : List (Option Text × Tag)} {tag : Tag} (whole : snapshot.entries = before ++ after)
    (inserted : extended.entries = before ++ (some tag.name, tag) :: after) (earlier : List Diagnostic)
    (double : .char '"' ∉ code) (identifiers : ∀ e ∈ extended.entries, Program.isIdentifier e.2.name = true)
    (decodes : ∀ e ∈ (some tag.name, tag) :: after, e.2.name.fold = tag.name.fold →
      ∃ value, Value.decode e.2.value e.2.dataType = .ok value)
    (absent : ¬tag.name.fold <:+: (Source.stripComments true code).fold)
    (unjoined : Unjoined tag.name.fold (Source.stripComments true code))
    (unescaped : ∀ e ∈ Source.toldExpressions (Construct.classify code).kind (Source.stripComments true code),
      e.count (.char '\'') % 2 = 1 → Unescaped e) :
    ofTags config code extended earlier = ofTags config code snapshot earlier := by
  have bare (keep : Bool) : .char '"' ∉ Source.stripComments keep code := fun mem =>
    double (Source.mem_of_mem_stripComments (by decide) mem)
  have other (w : Text) (part : w <:+: Source.stripComments true code) : w.fold ≠ tag.name.fold := by
    rintro same
    obtain ⟨x, y, split⟩ := part
    refine absent ⟨Text.fold x, Text.fold y, ?_⟩
    rw [← split, Text.fold_append, Text.fold_append, same]
  have point := Program.point_not_mem_fold (identifiers (some tag.name, tag) (by simp [inserted]))
  have unmentioned : Unmentioned tag.name.fold (Construct.classify code).kind
      (Source.stripComments true code) :=
    { double := bare true, free := fun w part _ _ => other w part, unjoined, point, unescaped,
      absent := other }
  have free : Free tag.name.fold (Source.stripComments false code) := fun w part words _ =>
    other w (Source.infix_stripComments words part)
  exact ofTags_congr config earlier (Environment.parallel_alike point) unmentioned.covers
    (fun _ _ => Environment.Alike.computed_eq)
    (Environment.seed_snapshot_insert whole inserted identifiers decodes)
    (Extraction.ofCode_insert whole inserted config.reportUnresolved (bare false) free)

/-! ## Conditions that can be checked -/

theorem unjoined_of_isChain {n t : Text} (apart : t.IsChain fun c d => ¬(isWord c = true ∧ d = .char '#')) :
    Unjoined n t := by
  rintro w c ne words - - ⟨x, y, whole⟩
  obtain ⟨w, d, rfl⟩ := (List.eq_nil_or_concat w).resolve_left ne
  have split : t = x ++ w ++ d :: .char '#' :: c :: y := by
    rw [← whole]
    simp
  exact List.isChain_iff_forall_rel_of_append_cons_cons.mp apart split ⟨words d (by simp), rfl⟩

/-- A pump that is on, and one of the same name in capitals that is off. -/
def pump : Tag := { name := "Pump".toText, value := "TRUE".toText, dataType := "BOOL".toText }

def otherPump : Tag := { name := "PUMP".toText, value := "FALSE".toText, dataType := "BOOL".toText }

def level : Tag := { name := "Level".toText, value := "7".toText, dataType := "INT".toText }

/-- Code with a backslash before a name, in a literal that is assigned. -/
def valveCode : Text := "IF #Level > 5 THEN Valve := 'C:\\temp'; END_IF; // Pump".toText

def tankTags : Snapshot :=
  ⟨[(some level.name, level), (some otherPump.name, otherPump)], by decide +kernel⟩

def tankTagsWithPump : Snapshot :=
  ⟨[(some level.name, level), (some pump.name, pump), (some otherPump.name, otherPump)], by decide +kernel⟩

/-- A pump in front of another spelling of its name, and code that mentions it in a comment only. -/
theorem ofTags_insert_pump :
    .char '"' ∉ valveCode ∧ (∀ e ∈ tankTagsWithPump.entries, Program.isIdentifier e.2.name = true) ∧
    Value.decode pump.value pump.dataType = .ok (.bool true) ∧
    Value.decode otherPump.value otherPump.dataType = .ok (.bool false) ∧
    ¬pump.name.fold <:+: (Source.stripComments true valveCode).fold ∧
    Unjoined pump.name.fold (Source.stripComments true valveCode) ∧
    (∀ e ∈ Source.toldExpressions (Construct.classify valveCode).kind (Source.stripComments true valveCode),
      e.count (.char '\'') % 2 = 1 → Unescaped e) ∧
    ofTags {} valveCode tankTagsWithPump [] = ofTags {} valveCode tankTags [] := by
  have double : .char '"' ∉ valveCode := by decide +kernel
  have identifiers : ∀ e ∈ tankTagsWithPump.entries, Program.isIdentifier e.2.name = true := by decide +kernel
  have on : Value.decode pump.value pump.dataType = .ok (.bool true) := by rfl
  have off : Value.decode otherPump.value otherPump.dataType = .ok (.bool false) := by rfl
  have absent : ¬pump.name.fold <:+: (Source.stripComments true valveCode).fold := by decide +kernel
  have unjoined : Unjoined pump.name.fold (Source.stripComments true valveCode) :=
    unjoined_of_isChain (by decide +kernel)
  have paired : ∀ e ∈ Source.toldExpressions (Construct.classify valveCode).kind
      (Source.stripComments true valveCode), e.count (.char '\'') % 2 = 0 := by decide +kernel
  have unescaped : ∀ e ∈ Source.toldExpressions (Construct.classify valveCode).kind
      (Source.stripComments true valveCode), e.count (.char '\'') % 2 = 1 → Unescaped e := by
    intro e told odd
    rw [paired e told] at odd
    cases odd
  refine ⟨double, identifiers, on, off, absent, unjoined, unescaped, ?_⟩
  refine @ofTags_insert {} valveCode tankTags tankTagsWithPump [(some level.name, level)]
    [(some otherPump.name, otherPump)] pump rfl rfl [] double identifiers ?_ absent unjoined unescaped
  rw [List.forall_mem_cons, List.forall_mem_singleton]
  exact ⟨fun _ => ⟨_, on⟩, fun _ => ⟨_, off⟩⟩

/-! ## What the conditions keep out -/

/-- A tag whose name is the end of one word in front of a call and the start of another behind it. -/
def joined : Tag := { name := "AB".toText, value := "5".toText, dataType := "INT".toText }

def joiningCode : Text := "x := A#f(P := 1)B;".toText

/-- Taking a call out of an expression can join a name that the code does not mention. -/
theorem call_joins_name :
    .char '"' ∉ joiningCode ∧ Program.isIdentifier joined.name = true ∧
    Value.decode joined.value joined.dataType = .ok (.int 5) ∧
    ¬joined.name.fold <:+: (Source.stripComments true joiningCode).fold ∧
    .char '\'' ∉ Source.stripComments true joiningCode ∧
    ofTags {} joiningCode (Snapshot.empty.put (some joined.name, joined)) [] ≠
      ofTags {} joiningCode .empty [] := by
  refine ⟨by decide +kernel, by decide +kernel, by rfl, by decide +kernel, by decide +kernel, fun same => ?_⟩
  have bindings := congrArg (fun report => report.toOption.map Analysis.bindings) same
  revert bindings
  decide +kernel

-- a tag that cannot be decoded is passed over behind one of the same name in other letters
example :
    let long : Option Text × Tag :=
      (some "ab".toText, ⟨"ab".toText, List.replicate 4301 '1', "INT".toText, none, none⟩)
    let short : Option Text × Tag := (some "AB".toText, ⟨"AB".toText, ['1'], "INT".toText, none, none⟩)
    (ofTags {} [] (Snapshot.empty.put long) []).toOption = none ∧
    (ofTags {} [] ((Snapshot.empty.put short).put long) []).toOption.isSome = true := by
  decide +kernel

end Analysis
end SclNarrator
