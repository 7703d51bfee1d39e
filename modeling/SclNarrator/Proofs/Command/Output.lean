import SclNarrator.Proofs.Command.Reading
import SclNarrator.Proofs.Json.Grammar

/-!
What is printed of a report as JSON.

What is proved:
  1. a report is printed as it is written, since no escape of a terminal gets into it, and it is
     printed at all if it has no halves of characters;
  2. the output is a JSON text and a line end if and only if all values in the report are finite and
     all its texts can be printed (`json_output_iff`).

Asked for: the command has its files, and the analysis gives a report.

Correspondence (analyzer ↔ here):
  `analyze` with its option for JSON ↔ `Command.runArguments`
  the report as JSON                 ↔ `Report.analysisJson`, `Json.write`
-/

namespace SclNarrator

open CodePoint (char)

namespace Json

/-! ## The characters of what is written -/

/-- Whether a character is a line end or a visible one of ASCII or a space: one that can stand
outside of strings. -/
def isPlain (c : CodePoint) : Bool := c == '\n' || (32 ≤ c.toNat && c.toNat < 127)

section Characters

variable {P : CodePoint → Prop} {t : Text}

theorem isPlain_isNumber (h : IsNumber t) : ∀ c ∈ t, isPlain c = true := by
  have digits {t : Text} (h : ∀ c ∈ t, c.isDigit = true) : ∀ c ∈ t, isPlain c = true :=
    fun c mem => forall_digit (P := isPlain) (by decide) (h c mem)
  cases h with
  | mk minus part fraction power =>
    refine List.forall_mem_append.mpr
      ⟨?_, List.forall_mem_append.mpr ⟨?_, List.forall_mem_append.mpr ⟨?_, ?_⟩⟩⟩
    · rcases minus with rfl | rfl <;> decide
    · cases part with
      | zero => decide
      | digits first nonzero rest => exact digits (List.forall_mem_cons.mpr ⟨first, rest⟩)
    · cases fraction with
      | none => exact List.forall_mem_nil _
      | digits found => exact List.forall_mem_cons.mpr ⟨by decide, digits found.2⟩
    · cases power with
      | none => exact List.forall_mem_nil _
      | digits mark signed found =>
        refine List.forall_mem_cons.mpr ⟨?_, List.forall_mem_append.mpr ⟨?_, digits found.2⟩⟩
        · rcases mark with rfl | rfl <;> decide
        · rcases signed with rfl | rfl | rfl <;> decide

theorem isPlain_floatText (x : Float) : ∀ c ∈ floatText x, isPlain c = true := by
  unfold floatText
  split
  · decide
  · next negative _ => cases negative <;> decide
  · next view => exact isPlain_isNumber (isNumber_float view)

theorem isPlain_newline (level : Nat) : ∀ c ∈ newline level, isPlain c = true := by
  refine List.forall_mem_cons.mpr ⟨by decide, fun c mem => ?_⟩
  rw [List.eq_of_mem_replicate mem]
  decide

theorem forall_writeItems (plain : ∀ c, isPlain c = true → P c) (level : Nat) (vs : List Json) :
    (∀ c ∈ writeItems level vs, P c) ↔ ∀ v ∈ vs, ∀ c ∈ write level v, P c := by
  induction vs with
  | nil => simp [writeItems]
  | cons v vs ih =>
    have comma : ∀ c ∈ ",".toText ++ newline level, P c := fun c mem =>
      plain c (List.forall_mem_append.mpr ⟨by decide, isPlain_newline level⟩ c mem)
    rw [writeItems, List.forall_mem_append, List.forall_mem_append, ih, List.forall_mem_cons]
    exact ⟨fun h => ⟨h.1.2, h.2⟩, fun h => ⟨⟨comma, h.1⟩, h.2⟩⟩

theorem forall_writeFields (plain : ∀ c, isPlain c = true → P c) (level : Nat) (fs : List (Text × Json)) :
    (∀ c ∈ writeFields level fs, P c) ↔
      (∀ f ∈ fs, ∀ c ∈ stringText f.1, P c) ∧ ∀ f ∈ fs, ∀ c ∈ write level f.2, P c := by
  induction fs with
  | nil => simp [writeFields]
  | cons f fs ih =>
    have comma : ∀ c ∈ ",".toText ++ newline level, P c := fun c mem =>
      plain c (List.forall_mem_append.mpr ⟨by decide, isPlain_newline level⟩ c mem)
    have colon : ∀ c ∈ ": ".toText, P c := fun c mem =>
      plain c ((by decide : ∀ c ∈ ": ".toText, isPlain c = true) c mem)
    simp only [writeFields, List.forall_mem_append, ih, List.forall_mem_cons] at comma ⊢
    tauto

/-- What is written for a value has a property in all its characters if the strings for the texts in
it have. -/
theorem forall_write (plain : ∀ c, isPlain c = true → P c) (v : Json) (level : Nat) :
    (∀ c ∈ write level v, P c) ↔ All (fun _ => True) (fun t => ∀ c ∈ stringText t, P c) v := by
  have given {t : Text} (h : ∀ c ∈ t, isPlain c = true) : ∀ c ∈ t, P c := fun c mem => plain c (h c mem)
  induction v using Json.induction generalizing level with
  | null => exact iff_of_true (given (by rw [write]; decide)) .null
  | bool b => exact iff_of_true (given (by rw [write]; cases b <;> decide)) (.bool b)
  | int n => exact iff_of_true (given (isPlain_isNumber (isNumber_int n))) (.int n)
  | float x => exact iff_of_true (given (isPlain_floatText x)) (.float trivial)
  | text t => rw [all_text, write]
  | list items ih =>
    rw [all_list]
    cases items with
    | nil => exact iff_of_true (given (by rw [write]; decide)) (List.forall_mem_nil _)
    | cons v vs =>
      rw [List.forall_mem_cons] at ih
      have opens : ∀ c ∈ char '[' :: newline (level + 1), P c :=
        given (List.forall_mem_cons.mpr ⟨by decide, isPlain_newline _⟩)
      have closes : ∀ c ∈ newline level ++ [char ']'], P c :=
        given (List.forall_mem_append.mpr ⟨isPlain_newline _, by decide⟩)
      have first := ih.1 (level + 1)
      have items := forall_writeItems plain (level + 1) vs
      have later : (∀ w ∈ vs, ∀ c ∈ write (level + 1) w, P c) ↔ _ :=
        forall₂_congr fun w mem => ih.2 w mem (level + 1)
      rw [List.forall_mem_cons, write_list, List.forall_mem_append, List.forall_mem_append,
        List.forall_mem_append]
      exact ⟨fun h => ⟨first.mp h.2.1.1, later.mp (items.mp h.2.1.2)⟩,
        fun h => ⟨opens, ⟨first.mpr h.1, items.mpr (later.mpr h.2)⟩, closes⟩⟩
  | object fields ih =>
    rw [all_object]
    cases fields with
    | nil => exact iff_of_true (given (by rw [write]; decide)) ⟨List.forall_mem_nil _, List.forall_mem_nil _⟩
    | cons f fs =>
      rw [List.forall_mem_cons] at ih
      have opens : ∀ c ∈ char '\x7b' :: newline (level + 1), P c :=
        given (List.forall_mem_cons.mpr ⟨by decide, isPlain_newline _⟩)
      have closes : ∀ c ∈ newline level ++ [char '\x7d'], P c :=
        given (List.forall_mem_append.mpr ⟨isPlain_newline _, by decide⟩)
      have colon : ∀ c ∈ ": ".toText, P c := given (by decide)
      have first := ih.1 (level + 1)
      have fields := forall_writeFields plain (level + 1) fs
      have later : (∀ g ∈ fs, ∀ c ∈ write (level + 1) g.2, P c) ↔ _ :=
        forall₂_congr fun g mem => ih.2 g mem (level + 1)
      rw [List.forall_mem_cons, List.forall_mem_cons, write_object, List.forall_mem_append,
        List.forall_mem_append, List.forall_mem_append, List.forall_mem_append,
        List.forall_mem_append]
      constructor
      · rintro ⟨-, ⟨⟨⟨name, -⟩, value⟩, rest⟩, -⟩
        obtain ⟨names, values⟩ := fields.mp rest
        exact ⟨⟨name, names⟩, first.mp value, later.mp values⟩
      · rintro ⟨⟨name, names⟩, value, values⟩
        exact ⟨opens, ⟨⟨⟨name, colon⟩, first.mpr value⟩, fields.mpr ⟨names, later.mpr values⟩⟩, closes⟩

theorem mem_stringChar {c d : CodePoint} (h : d ∈ stringChar c) :
    isPlain d = true ∨ d = c ∧ 0x20 ≤ c.toNat := by
  have given {t : Text} (plain : ∀ d ∈ t, isPlain d = true) (mem : d ∈ t) :
      isPlain d = true ∨ d = c ∧ 0x20 ≤ c.toNat :=
    .inl (plain d mem)
  unfold stringChar at h
  split at h
  · next mark => exact given (by rcases mark with rfl | rfl <;> decide) h
  split at h
  · exact given (by decide) h
  split at h
  · exact given (by decide) h
  split at h
  · exact given (by decide) h
  split at h
  · exact given (by decide) h
  split at h
  · exact given (by decide) h
  split at h
  · refine given (List.forall_mem_append.mpr ⟨by decide, fun d mem => ?_⟩) h
    exact forall_hex (P := isPlain) (by decide) (isHex_hexDigits 4 _ d mem)
  · next visible => exact .inr ⟨List.mem_singleton.mp h, Nat.not_lt.mp visible⟩

theorem mem_stringText {d : CodePoint} (h : d ∈ stringText t) :
    isPlain d = true ∨ d ∈ t ∧ 0x20 ≤ d.toNat := by
  rcases List.mem_append.mp h with inside | quote
  · rcases List.mem_cons.mp inside with rfl | inside
    · exact .inl (by decide)
    · obtain ⟨c, among, mem⟩ := List.mem_flatMap.mp inside
      rcases mem_stringChar mem with plain | ⟨rfl, visible⟩
      · exact .inl plain
      · exact .inr ⟨among, visible⟩
  · exact .inl ((by decide : ∀ c ∈ "\"".toText, isPlain c = true) d quote)

theorem escape_not_mem_write (v : Json) (level : Nat) : char '\x1b' ∉ write level v := by
  have plain : ∀ c, isPlain c = true → c ≠ '\x1b' := by
    rintro c here rfl
    cases here
  have strings (t : Text) : ∀ c ∈ stringText t, c ≠ '\x1b' := by
    intro c mem
    rcases mem_stringText mem with here | ⟨-, visible⟩
    · exact plain c here
    · rintro rfl
      exact absurd visible (by decide)
  exact fun mem => (forall_write plain v level).mpr (all_of_forall (fun _ => trivial) strings v) _ mem rfl

/-- Whether all texts in a value can be printed. -/
def Whole (v : Json) : Prop := All (fun _ => True) (fun t => t.isWhole = true) v

theorem isHalf_of_isPlain {c : CodePoint} (plain : isPlain c = true) : c.isHalf = false := by
  cases c with
  | char c => rfl
  | half index =>
    have large : 0xd800 ≤ (CodePoint.half index).toNat := Nat.le_add_right ..
    simp only [isPlain, Bool.or_eq_true, Bool.and_eq_true, decide_eq_true_eq, beq_iff_eq] at plain
    rcases plain with newline | small
    · cases newline
    · omega

theorem isHalf_stringText (t : Text) : (∀ c ∈ stringText t, c.isHalf = false) ↔ t.isWhole = true := by
  have whole : t.isWhole = true ↔ ∀ c ∈ t, c.isHalf = false := by simp [Text.isWhole]
  rw [whole]
  constructor
  · intro h c mem
    cases c with
    | char c => rfl
    | half index =>
      have large : 0xd800 ≤ (CodePoint.half index).toNat := Nat.le_add_right ..
      have itself : stringChar (.half index) = [.half index] := by
        rw [stringChar, if_neg (by simp), if_neg (by simp), if_neg (by simp), if_neg (by simp),
          if_neg (by simp), if_neg (by simp), if_neg (by omega)]
      refine h _ (List.mem_append_left _ (List.mem_cons_of_mem _ (List.mem_flatMap.mpr ⟨_, mem, ?_⟩)))
      rw [itself]
      exact List.mem_cons_self
  · intro h c mem
    rcases mem_stringText mem with plain | ⟨among, -⟩
    · exact isHalf_of_isPlain plain
    · exact h c among

theorem isWhole_write_iff (v : Json) (level : Nat) : Text.isWhole (write level v) = true ↔ v.Whole := by
  have whole : Text.isWhole (write level v) = true ↔ ∀ c ∈ write level v, c.isHalf = false := by
    simp [Text.isWhole]
  rw [whole, forall_write (fun c => isHalf_of_isPlain) v level, Whole]
  simp only [isHalf_stringText]

end Characters

end Json

/-! ## Reports -/

def Value.IsFinite (v : Value) : Prop := ∀ x, v = .float x → Json.IsFinite x

theorem Value.finite_toJson {v : Value} : v.toJson.Finite ↔ v.IsFinite := by
  cases v <;> simp [Value.toJson, Json.Finite, Value.IsFinite]

/-- The values in a report: those that were assigned and those that are bound in the end. -/
def Analysis.values (a : Analysis) : List Value :=
  a.assignments.map Assigned.value ++ a.bindings.map Binding.value

namespace Report

theorem finite_optional (t : Option Text) : (optional t).Finite := by
  cases t with
  | none => exact .null
  | some t => exact .text trivial

theorem finite_assignedJson (m : Assigned) : (assignedJson m).Finite ↔ m.value.IsFinite := by
  rw [← Value.finite_toJson]
  simp [assignedJson, field, Json.Finite]

theorem finite_bindingJson (b : Binding) : (bindingJson b).Finite ↔ b.value.IsFinite := by
  rw [← Value.finite_toJson]
  simp [bindingJson, field, Json.Finite]

/-- In a report only the values that were assigned and bound can fail to be finite. -/
theorem finite_analysisJson (a : Analysis) : (analysisJson a).Finite ↔ ∀ v ∈ a.values, v.IsFinite := by
  have construct : (constructJson a.construct).Finite := by
    simpa [constructJson, field, Json.Finite] using finite_optional a.construct.instruction
  have record (r : TagRecord) : (recordJson r).Finite := by
    simpa [recordJson, field, Json.Finite] using ⟨finite_optional r.address, finite_optional r.quality⟩
  have diagnostic (d : Diagnostic) : (diagnosticJson d).Finite := by
    simpa [diagnosticJson, field, Json.Finite] using finite_optional d.subject
  have statistics : (statisticsJson a.statistics).Finite := by
    simp [statisticsJson, field, Json.Finite]
  have assigned := finite_assignedJson
  have bound := finite_bindingJson
  simp only [Json.Finite] at construct record diagnostic statistics assigned bound ⊢
  simp [analysisJson, field, construct, record, diagnostic, statistics, assigned, bound,
    Analysis.values, or_imp, forall_and]

end Report

namespace Command

variable {input : Input} {code text : Text} {tags : Option Text} {report : Bool} {places : Int}
    {snapshot : Snapshot}
  {config : Config} {a : Analysis}

theorem run_json (prepared : prepare input code tags report places = .ok (text, snapshot, config))
    (returns : Analysis.ofTags config text snapshot [] = .ok a) :
    run input (.analyze code tags true report places) =
      if (Json.write 0 (Report.analysisJson a)).isWhole then
        .printed (Json.write 0 (Report.analysisJson a) ++ "\n".toText) a.success
      else .crashed [] .unprintable := by
  have clean := Text.withoutControls_of_not_mem (Json.escape_not_mem_write (Report.analysisJson a) 0)
  rw [run, prepared]
  simp only [returns, render, if_true, Ending.ofTexts]
  cases whole : (Json.write 0 (Report.analysisJson a)).isWhole with
  | true => simp [whole, Report.printed, clean]
  | false => simp [whole, Report.printed]

/-- If the analysis returns a report, the command that prints it as JSON prints a JSON text and a
line end if and only if all values in the report are finite and all its texts can be printed. -/
theorem json_output_iff {line : List Text}
    (parses : parse? line = some (.analyze code tags true report places))
    (prepared : prepare input code tags report places = .ok (text, snapshot, config))
    (returns : Analysis.ofTags config text snapshot [] = .ok a) :
    (∃ t, Json.IsText t ∧ (runArguments input line).output = t ++ "\n".toText) ↔
      (∀ v ∈ a.values, v.IsFinite) ∧ (Report.analysisJson a).Whole := by
  rw [runArguments, parses]
  simp only [run_json prepared returns]
  rw [← Report.finite_analysisJson, ← Json.isText_write_iff, ← Json.isWhole_write_iff _ 0]
  split
  · next whole =>
    refine ⟨?_, fun h => ⟨_, h.1, rfl⟩⟩
    rintro ⟨t, text, same⟩
    have written : Json.write 0 (Report.analysisJson a) = t := List.append_cancel_right same
    exact ⟨written ▸ text, whole⟩
  · next halves =>
    refine iff_of_false ?_ fun h => halves h.2
    rintro ⟨t, -, same⟩
    exact absurd same.symm (List.append_ne_nil_of_right_ne_nil _ (by decide))

/-- The command line that prints a report on the standard input as JSON. -/
def jsonLine : List Text := ["analyze".toText, "-".toText, "--json".toText]

theorem parse?_jsonLine : parse? jsonLine = some (.analyze "-".toText none true false 2) := by decide +kernel

/-- The inputs of that command line: the text on the standard input, no tags and the options as they
are by default. -/
theorem prepare_jsonLine (tree : FileTree) (cs : List Char) :
    prepare (.ofTree tree (cs.flatMap String.utf8EncodeChar)) "-".toText none false 2 =
      .ok (Utf8.unifyLines (.ofChars cs), .empty, {}) := by
  have read : readCode (.ofTree tree (cs.flatMap String.utf8EncodeChar)) "-".toText =
      .ok (Utf8.unifyLines (.ofChars cs)) := by
    rw [readCode, if_pos rfl, decoded.eq_def]
    simp only [Input.ofTree, Utf8.decode_eq_ok_iff.mpr ⟨cs, rfl, rfl⟩]
  rw [prepare, read]
  rfl

/-- The report on `x:=1;` is printed as a JSON text. -/
theorem json_output_iff_one :
    ∃ t, Json.IsText t ∧
      (runArguments (.ofTree .empty ("x:=1;".toList.flatMap String.utf8EncodeChar)) jsonLine).output =
        t ++ "\n".toText := by
  have facts : (Analysis.ofTags {} "x:=1;".toText .empty []).toOption.map (fun a =>
      (a.values, Text.isWhole (Json.write 0 (Report.analysisJson a)))) = some ([.int 1, .int 1], true) := by
    decide +kernel
  have prepared := prepare_jsonLine .empty "x:=1;".toList
  cases returns : Analysis.ofTags {} "x:=1;".toText .empty [] with
  | error fault =>
    rw [returns] at facts
    cases facts
  | ok a =>
    rw [returns] at facts
    obtain ⟨values, whole⟩ := Prod.mk.inj (Option.some.inj facts)
    refine (json_output_iff parse?_jsonLine prepared returns).mpr ⟨?_, (Json.isWhole_write_iff _ 0).mp whole⟩
    rw [values]
    intro v mem x same
    subst same
    simp at mem

/-- The report on `x:=1/0;` has an infinity in it and is not printed as a JSON text. -/
theorem infinity_is_not_json :
    ∃ a, Analysis.ofTags {} "x:=1/0;".toText .empty [] = .ok a ∧ ¬∃ t, Json.IsText t ∧
      (runArguments (.ofTree .empty ("x:=1/0;".toList.flatMap String.utf8EncodeChar)) jsonLine).output =
        t ++ "\n".toText := by
  have facts : (Analysis.ofTags {} "x:=1/0;".toText .empty []).toOption.map Analysis.values =
      some [.float Double.infinity, .float Double.infinity] := by
    decide +kernel
  have prepared := prepare_jsonLine .empty "x:=1/0;".toList
  cases returns : Analysis.ofTags {} "x:=1/0;".toText .empty [] with
  | error fault =>
    rw [returns] at facts
    cases facts
  | ok a =>
    rw [returns] at facts
    have values : a.values = [.float Double.infinity, .float Double.infinity] := Option.some.inj facts
    refine ⟨a, rfl, ?_⟩
    rintro ⟨t, text, same⟩
    rw [runArguments, parse?_jsonLine] at same
    simp only [run_json prepared returns] at same
    split at same
    · have written : Json.write 0 (Report.analysisJson a) = t := List.append_cancel_right same
      have finite := (Report.finite_analysisJson a).mp (Json.isText_write_iff.mp (written ▸ text))
      rw [values] at finite
      obtain ⟨negative, units, view⟩ := finite _ List.mem_cons_self _ rfl
      have infinite : Double.view Double.infinity = .infinite false := by decide +kernel
      rw [infinite] at view
      cases view
    · exact absurd same.symm (List.append_ne_nil_of_right_ne_nil _ (by decide))

end Command

end SclNarrator
