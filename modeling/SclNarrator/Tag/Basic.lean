import SclNarrator.Json.Basic
import SclNarrator.Text.Basic
import SclNarrator.Text.Case

/-!
Tags and snapshots. A snapshot lists the last known state of tags under keys, in the order in which
they were given; several keys may lead to tags of one name. A tag that is filed under no text has no
key, and no name leads to it. That no key stands there twice is part of a snapshot, and whatever
puts an entry into one keeps it (`Snapshot.put`).

Snapshots come from data that a host supplies, from a file, or from a host that has the tags ready.
The first two are read here (`Snapshot.ofJson`, `TagFile.entries`). Entries that are tags already
are taken as they are and need no reading: such a host passes a `Snapshot` to `Analysis.ofTags`.

Correspondence (analyzer ↔ here):
  `TagSnapshot`      ↔ `Tag`
  `_value_as_text`   ↔ `Tag.valueField`
  `_normalize_type`  ↔ `Tag.typeName`
  `build_snapshot`   ↔ `Snapshot.ofJson`, without its branch for entries that are tags
  `find_tag`         ↔ `Snapshot.find?`
  `load_tags`        ↔ `TagFile.entries`
-/

namespace SclNarrator

/-! ## Tags and snapshots

Tags and snapshots. A snapshot lists the last known state of tags under keys, in the order in which
they were given; several keys may lead to tags of one name. A tag that is filed under no text has no
key, and no name leads to it. -/

/-- The last known state of a tag. -/
structure Tag where
  name : Text
  value : Text := []
  dataType : Text := "UNKNOWN".toText
  address : Option Text := none
  quality : Option Text := none
  deriving DecidableEq

/-- Tags under keys, no key twice. -/
structure Snapshot where
  entries : List (Option Text × Tag)
  nodup : (entries.filterMap Prod.fst).Nodup

namespace Snapshot

def empty : Snapshot := ⟨[], List.nodup_nil⟩

/-- What a function makes of the entries, in order. -/
def map {α : Type} (snapshot : Snapshot) (f : Option Text × Tag → α) : List α := snapshot.entries.map f

theorem nodup_putKey {entries : List (Option Text × Tag)} (nodup : (entries.filterMap Prod.fst).Nodup)
    (key : Text) (tag : Tag) : ((putKey (some key) tag entries).filterMap Prod.fst).Nodup := by
  have keys (entries : List (Option Text × Tag)) :
      entries.filterMap Prod.fst = (entries.map Prod.fst).filterMap id := by
    rw [List.filterMap_map]
    rfl
  rw [keys] at nodup
  rw [keys, keys_putKey]
  split
  · exact nodup
  · next fresh =>
    rw [List.filterMap_append]
    refine List.nodup_append.mpr ⟨nodup, List.pairwise_singleton _ key, ?_⟩
    rintro k mem k' last rfl
    obtain ⟨_, among, rfl⟩ := List.mem_filterMap.mp mem
    rw [List.mem_singleton.mp last] at among
    exact fresh among

/-- The snapshot with one more entry: in the place of the one under its key, or at the end. -/
def put (snapshot : Snapshot) : Option Text × Tag → Snapshot
  | (some key, tag) => ⟨putKey (some key) tag snapshot.entries, nodup_putKey snapshot.nodup key tag⟩
  | (none, tag) => ⟨snapshot.entries ++ [(none, tag)], by simpa using snapshot.nodup⟩

/-- The tag of a name: under the name itself, its small letters or its capitals. -/
def find? (snapshot : Snapshot) (name : Text) : Option Tag :=
  [name, name.lower, name.upper].findSome? fun key => snapshot.entries.lookup (some key)

def tags (snapshot : Snapshot) : List Tag := snapshot.map Prod.snd

end Snapshot

/-! ## Snapshots from data

Snapshots from data that a host supplies: an object with a record for each tag. Numbers and truth
values are taken as the texts that stand for them, and what is no text elsewhere is refused. -/

inductive SnapshotFault where
  /-- The whole is no object. -/
  | notObject (kind : Text)
  /-- An entry is no object. -/
  | notRecord (key kind : Text)
  /-- Fields of an entry are refused, for a cause each. -/
  | refused (fields : List (Text × Text))
  deriving DecidableEq

/-- The wording of a fault. -/
def SnapshotFault.message : SnapshotFault → Text
  | .notObject kind => "snapshot must be a mapping, got ".toText ++ kind
  | .notRecord key kind =>
    "snapshot entry for ".toText ++ key.quoted ++
      " must be a TagSnapshot or mapping, got ".toText ++ kind
  | .refused fields => refusal "TagSnapshot".toText fields

namespace Tag

/-- The cause for which something that is no text is refused. -/
def noText : Text := "string_type".toText

def textField : Json → Except Text Text
  | .text t => .ok t
  | _ => .error noText

def optionalField : Json → Except Text (Option Text)
  | .text t => .ok (some t)
  | .null => .ok none
  | _ => .error noText

def valueField : Json → Except Text Text
  | .null => .ok []
  | .bool b => .ok (if b then "TRUE" else "FALSE").toText
  | .int n => match Value.intText n with
    | .ok t => .ok t
    | .error _ => .error "value_error".toText
  | .float x => .ok (Decimal.text x)
  | v => textField v

/-- A type name in capitals and without blanks around it; `UNKNOWN` if nothing is left. -/
def typeName (t : Text) : Text :=
  let name := t.trim.upper
  if name.isEmpty then "UNKNOWN".toText else name

def fieldOr {α : Type} (fields : List (Text × Json)) (name : Text) (read : Json → Except Text α)
    (default : α) : Except (Text × Text) α :=
  match fields.lookup name with
  | none => .ok default
  | some v => match read v with
    | .ok a => .ok a
    | .error cause => .error (name, cause)

/-- The tag's name: the field `tag_name`, else the field `name`, else the key of the entry. -/
def nameField (key : Text) (fields : List (Text × Json)) : Except (Text × Text) Text :=
  if (fields.lookup "tag_name".toText).isSome then fieldOr fields "tag_name".toText textField key
  else fieldOr fields "name".toText textField key

def refusal? {α : Type} : Except (Text × Text) α → List (Text × Text)
  | .ok _ => []
  | .error e => [e]

/-- The tag of a record under a key, or all of its fields that are refused. -/
def ofRecord (key : Text) (fields : List (Text × Json)) : Except SnapshotFault Tag :=
  let name := nameField key fields
  let value := fieldOr fields "value".toText valueField []
  let dataType := fieldOr fields "data_type".toText
    (fun v => (textField v).map typeName) "UNKNOWN".toText
  let address := fieldOr fields "address".toText optionalField none
  let quality := fieldOr fields "quality".toText optionalField none
  match name, value, dataType, address, quality with
  | .ok name, .ok value, .ok dataType, .ok address, .ok quality =>
    .ok ⟨name, value, dataType, address, quality⟩
  | name, value, dataType, address, quality =>
    .error (.refused (refusal? name ++ refusal? value ++ refusal? dataType ++ refusal? address ++
      refusal? quality))

end Tag

namespace Snapshot

def entry (key : Option Text) (record : Json) : Except SnapshotFault (Option Text × Tag) :=
  match record with
  | .object fields => do return (key, ← Tag.ofRecord (key.getD []) fields)
  | v => .error (.notRecord (key.getD []) v.kindName)

/-- The snapshot of records under keys, in order; of records under one key the last one counts. -/
def ofEntries (entries : List (Option Text × Json)) : Except SnapshotFault Snapshot := do
  return (← entries.mapM fun e => entry e.1 e.2).foldl put empty

/-- The records of an object under the names of its fields. -/
def entriesOf (fields : List (Text × Json)) : List (Option Text × Json) :=
  fields.map fun (name, record) => (some name, record)

/-- The snapshot of the host's data; null and whatever is empty or zero is an empty snapshot. -/
def ofJson (data : Json) : Except SnapshotFault Snapshot :=
  if data.nonzero then
    match data with
    | .object fields => ofEntries (entriesOf fields)
    | v => .error (.notObject v.kindName)
  else .ok empty

end Snapshot

/-! ## The file of tags

The tags file: an object with a record for each tag, or a list of records that carry their names. -/

namespace TagFile

/-- Why a file holds no tags. -/
inductive Fault where
  | unreadable (fault : Json.ReadFault)
  | notRecords
  | notRecord (kind : Text)
  | nameless (record : Text)
  | badName (kind : Text)
  | longNumber
  deriving DecidableEq

def Fault.message : Fault → Text
  | .unreadable fault => fault.message
  | .notRecords => "Tags file must hold a JSON object or list".toText
  | .notRecord kind => "Tag records must be objects, got ".toText ++ kind
  | .nameless record => "Tag record without a name: ".toText ++ record
  | .badName kind => "unhashable type: ".toText ++ kind.quoted
  | .longNumber => SclNarrator.Fault.longNumber.message

/-- The name in a record: the field `tag_name`, or the field `name` if that is missing or empty. -/
def recordName (fields : List (Text × Json)) : Json :=
  let first := (fields.lookup "tag_name".toText).getD .null
  if first.nonzero then first else (fields.lookup "name".toText).getD .null

/-- What a record is filed under: a text or a number. -/
inductive Key where
  | text (t : Text)
  | number (n : Number)
  deriving DecidableEq

/-- Whether two numbers are one key: they have one size, or none of them has any. -/
def sameNumber : Number → Number → Bool
  | .float x, .float y => (x.isNaN && y.isNaN) || Number.same (.float x) (.float y)
  | m, n => m.same n

/-- Whether two keys are one; a text and a number are not. -/
def Key.same : Key → Key → Bool
  | .text s, .text t => s == t
  | .number m, .number n => sameNumber m n
  | _, _ => false

def Key.text? : Key → Option Text
  | .text t => some t
  | .number _ => none

/-- The key that a name makes; truth values count as zero and one. -/
def keyOf : Json → Except Fault Key
  | .text t => .ok (.text t)
  | .bool b => .ok (.number (.int b.toNat))
  | .int n => .ok (.number (.int n))
  | .float x => .ok (.number (.float x))
  | v => .error (.badName v.kindName)

def keyed (record : Json) : Except Fault (Key × Json) :=
  match record with
  | .object fields =>
    let name := recordName fields
    if name.nonzero then do return (← keyOf name, record)
    else match record.quoted with
      | .ok t => .error (.nameless t)
      | .error _ => .error .longNumber
  | v => .error (.notRecord v.kindName)

/-- The records with one more: in the place of the one with its key, or at the end. -/
def put (records : List (Key × Json)) (record : Key × Json) : List (Key × Json) :=
  match records with
  | [] => [record]
  | r :: rest => if r.1.same record.1 then (r.1, record.2) :: rest else r :: put rest record

/-- The records of a file under their keys; of records with one key the last one counts. -/
def entries (text : Text) : Except Fault (List (Option Text × Json)) :=
  match Json.read text with
  | .error fault => .error (.unreadable fault)
  | .ok (.object fields) => .ok (Snapshot.entriesOf fields)
  | .ok (.list records) => do
    let filed := (← records.mapM keyed).foldl put []
    return filed.map fun (key, record) => (key.text?, record)
  | .ok _ => .error .notRecords

end TagFile

end SclNarrator
