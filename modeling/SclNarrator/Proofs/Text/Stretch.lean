import Mathlib.Data.List.TakeWhile
import SclNarrator.Text.Basic
import SclNarrator.Text.Word

/-!
The classes of characters, stretches of characters of one class, what ends them, and parts of texts. A
character that starts a name can continue one, a character that continues a plain name belongs to
words, and no blank does.
-/

namespace SclNarrator

/-! ## Classes of characters -/

section

def rangeMembers (ranges : List (Nat × Nat)) : List Nat :=
  ranges.flatMap fun r => List.range' r.1 (r.2 + 1 - r.1)

theorem mem_rangeMembers {ranges : List (Nat × Nat)} {n : Nat} (h : inRanges ranges n = true) :
    n ∈ rangeMembers ranges := by
  obtain ⟨r, mem, inside⟩ := List.any_eq_true.mp h
  simp only [Bool.and_eq_true, decide_eq_true_eq] at inside
  refine List.mem_flatMap.mpr ⟨r, mem, List.mem_range'_1.mpr ⟨inside.1, ?_⟩⟩
  omega

theorem inRanges_singleton {low high n : Nat} :
    inRanges [(low, high)] n = true ↔ low ≤ n ∧ n ≤ high := by
  simp [inRanges]

theorem forall_inRanges {ranges : List (Nat × Nat)} {P : CodePoint → Bool}
    (h : (rangeMembers ranges).all fun n => P (CodePoint.ofNat n)) {c : CodePoint}
    (inside : inRanges ranges c.toNat = true) : P c = true := by
  have := List.all_eq_true.mp h c.toNat (mem_rangeMembers inside)
  rwa [CodePoint.ofNat_toNat] at this

variable {P : CodePoint → Bool} {c : CodePoint}

theorem forall_blank (h : (rangeMembers blankRanges).all fun n => P (CodePoint.ofNat n))
    (blank : isBlank c = true) : P c = true :=
  forall_inRanges h blank

theorem forall_digit (h : (rangeMembers [(48, 57)]).all fun n => P (CodePoint.ofNat n))
    (digit : c.isDigit = true) : P c = true := by
  refine forall_inRanges h ?_
  cases c with
  | half index => cases digit
  | char c =>
    obtain ⟨low, high⟩ := Bool.and_eq_true_iff.mp digit
    exact inRanges_singleton.mpr ⟨of_decide_eq_true low, of_decide_eq_true high⟩

theorem forall_upper (h : (rangeMembers [(65, 90)]).all fun n => P (CodePoint.ofNat n))
    (upper : c.isUpper = true) : P c = true := by
  refine forall_inRanges h ?_
  cases c with
  | half index => cases upper
  | char c => exact inRanges_singleton.mpr (of_decide_eq_true upper)

theorem forall_lower (h : (rangeMembers [(97, 122)]).all fun n => P (CodePoint.ofNat n))
    (lower : c.isLower = true) : P c = true := by
  refine forall_inRanges h ?_
  cases c with
  | half index => cases lower
  | char c =>
    obtain ⟨low, high⟩ := Bool.and_eq_true_iff.mp lower
    exact inRanges_singleton.mpr ⟨of_decide_eq_true low, of_decide_eq_true high⟩

theorem isUpper_or_isLower_of_isAlpha (alpha : c.isAlpha = true) :
    c.isUpper = true ∨ c.isLower = true := by
  cases c with
  | half index => cases alpha
  | char c => exact Bool.or_eq_true_iff.mp alpha

theorem forall_nameStart
    (h : (rangeMembers [(65, 90), (95, 95), (97, 122)]).all fun n => P (CodePoint.ofNat n))
    (start : isNameStart c = true) : P c = true := by
  simp only [rangeMembers, List.flatMap_cons, List.flatMap_nil, List.append_nil, List.all_append,
    Bool.and_eq_true] at h
  obtain ⟨uppers, underscore, lowers⟩ := h
  rw [isNameStart, Bool.or_eq_true, beq_iff_eq] at start
  rcases start with alpha | rfl
  · rcases isUpper_or_isLower_of_isAlpha alpha with upper | lower
    · exact forall_upper (by simpa [rangeMembers] using uppers) upper
    · exact forall_lower (by simpa [rangeMembers] using lowers) lower
  · exact (Bool.and_eq_true_iff.mp underscore).1

theorem isWord_of_isBlank {c : CodePoint} (h : isBlank c = true) : isWord c = false := by
  have := forall_blank (P := fun c => !isWord c) (by decide +kernel) h
  simpa using this

theorem isNameChar_of_isNameStart {c : CodePoint} (h : isNameStart c = true) :
    isNameChar c = true := by
  simp only [isNameStart, isNameChar, Bool.or_eq_true] at h ⊢
  refine h.imp_left fun alpha => ?_
  cases c with
  | half index => simp [CodePoint.isAlpha, CodePoint.isCharWith] at alpha
  | char c =>
    simp only [CodePoint.isAlpha, CodePoint.isAlphanum, CodePoint.isCharWith] at alpha ⊢
    simp [Char.isAlphanum, alpha]

theorem isNameStart_or_isDigit_of_isNameChar {c : CodePoint} (h : isNameChar c = true) :
    isNameStart c = true ∨ c.isDigit = true := by
  simp only [isNameStart, isNameChar, Bool.or_eq_true] at h ⊢
  rcases h with alphanum | underscore
  · cases c with
    | half index => cases alphanum
    | char c => exact (Bool.or_eq_true_iff.mp alphanum).imp_left .inl
  · exact .inl (.inr underscore)

theorem ne_of_isNameChar {c d : CodePoint} (h : isNameChar c = true) (hd : isNameChar d = false) :
    c ≠ d := by
  rintro rfl
  rw [hd] at h
  cases h

theorem isWord_of_isNameChar {c : CodePoint} (h : isNameChar c = true) : isWord c = true := by
  simp only [isNameChar, Bool.or_eq_true] at h
  simp only [isWord, Bool.or_eq_true]
  exact .inl h

theorem isWord_of_isNameStart {c : CodePoint} (h : isNameStart c = true) : isWord c = true :=
  isWord_of_isNameChar (isNameChar_of_isNameStart h)

theorem isNameStart_of_isDigit {c : CodePoint} (h : c.isDigit = true) : isNameStart c = false := by
  have := forall_digit (P := fun c => !isNameStart c) (by decide) h
  simpa using this

theorem forall_hex (h : (rangeMembers [(48, 57), (65, 70), (97, 102)]).all fun n => P (CodePoint.ofNat n))
    (hex : isHex c = true) : P c = true := by
  refine forall_inRanges h ?_
  cases c with
  | half index => cases hex
  | char c =>
    simp only [isHex, CodePoint.isDigit, CodePoint.isCharWith, Char.isDigit, Bool.or_eq_true,
      Bool.and_eq_true, decide_eq_true_eq, ge_iff_le, Char.le_def, UInt32.le_iff_toNat_le] at hex
    simp only [inRanges, List.any_cons, List.any_nil, Bool.or_false, Bool.or_eq_true, Bool.and_eq_true,
      decide_eq_true_eq]
    obtain digit | small | capital := hex
    · exact .inl digit
    · exact .inr (.inr small)
    · exact .inr (.inl capital)

theorem isWord_of_isHex {c : CodePoint} (h : isHex c = true) : isWord c = true := forall_hex (by decide) h

theorem isBlank_of_isWord {c : CodePoint} (h : isWord c = true) : isBlank c = false := by
  rw [Bool.eq_false_iff]
  intro blank
  rw [isWord_of_isBlank blank] at h
  cases h

end

/-! ## Stretches -/

section

variable {p : CodePoint → Bool} {a b t : Text}

/-- Whether a text does not go on with a character of a class: it is over, or starts with another. -/
def Stops (p : CodePoint → Bool) (t : Text) : Prop := ∀ c ∈ t.head?, p c = false

@[simp] theorem stops_nil : Stops p [] := by simp [Stops]

@[simp] theorem stops_cons {c : CodePoint} : Stops p (c :: t) ↔ p c = false := by simp [Stops]

theorem Stops.append (h : Stops p a) (ne : a ≠ []) : Stops p (a ++ b) := by
  obtain ⟨c, rest, rfl⟩ := List.exists_cons_of_ne_nil ne
  exact stops_cons.mpr (stops_cons.mp h)

/-- Whether a text is over or goes on with a space. -/
def Ends (t : Text) : Prop := Stops (· != .char ' ') t

theorem Ends.stops (h : Ends t) (hp : p (.char ' ') = false) : Stops p t := by
  intro c mem
  have space : c = .char ' ' := by simpa using h c mem
  rw [space, hp]

theorem any_head_eq_false : t.head?.any p = false ↔ Stops p t := by
  cases t <;> simp

theorem takeWhile_of_stops (h : Stops p t) : t.takeWhile p = [] := by
  cases t with
  | nil => rfl
  | cons c rest => simp [stops_cons.mp h]

theorem dropWhile_of_stops (h : Stops p t) : t.dropWhile p = t := by
  cases t with
  | nil => rfl
  | cons c rest => simp [stops_cons.mp h]

/-- What stops a class can be put behind a text before or after a stretch of it is taken off. -/
theorem takeWhile_append_stops (a : Text) (hb : Stops p b) : (a ++ b).takeWhile p = a.takeWhile p := by
  induction a with
  | nil => exact takeWhile_of_stops hb
  | cons c rest ih => simp [List.takeWhile_cons, ih]

theorem dropWhile_append_stops (a : Text) (hb : Stops p b) :
    (a ++ b).dropWhile p = a.dropWhile p ++ b := by
  induction a with
  | nil => exact dropWhile_of_stops hb
  | cons c rest ih =>
    simp only [List.cons_append, List.dropWhile_cons, ih]
    split <;> rfl

/-- A stretch that ends where the text stops being of its class is all that is taken. -/
theorem takeWhile_append_of_stops (ha : ∀ c ∈ a, p c) (hb : Stops p b) :
    (a ++ b).takeWhile p = a := by
  rw [List.takeWhile_append_of_pos ha, takeWhile_of_stops hb, List.append_nil]

theorem dropWhile_append_of_stops (ha : ∀ c ∈ a, p c) (hb : Stops p b) :
    (a ++ b).dropWhile p = b := by
  rw [List.dropWhile_append_of_pos ha, dropWhile_of_stops hb]

theorem stops_dropWhile (p : CodePoint → Bool) (t : Text) : Stops p (t.dropWhile p) := by
  intro c mem
  have h := List.head?_dropWhile_not p t
  rw [Option.mem_def.mp mem] at h
  exact h

/-- A stretch that ends inside of a text is the same with more behind the text. -/
theorem takeWhile_append_of_ne_nil {c : CodePoint} {rest : Text} (h : a.dropWhile p = c :: rest)
    (b : Text) : (a ++ b).takeWhile p = a.takeWhile p ∧ (a ++ b).dropWhile p = c :: rest ++ b := by
  have whole : a = a.takeWhile p ++ c :: rest := by rw [← h, List.takeWhile_append_dropWhile]
  have stop : Stops p (c :: rest ++ b) := by
    have := stops_dropWhile p a
    rw [h, stops_cons] at this
    simpa using this
  have all : ∀ d ∈ a.takeWhile p, p d = true := fun d => List.mem_takeWhile_imp
  have split : a ++ b = a.takeWhile p ++ (c :: rest ++ b) := by
    rw [← List.append_assoc, ← whole]
  rw [split]
  exact ⟨takeWhile_append_of_stops all stop, dropWhile_append_of_stops all stop⟩

/-! ### Trimming -/

theorem Text.trim_of_stops (start : Stops isBlank t) (finish : Stops isBlank t.reverse) :
    Text.trim t = t := by
  have left : Text.trimLeft t = t := dropWhile_of_stops start
  have right : Text.trimLeft t.reverse = t.reverse := dropWhile_of_stops finish
  rw [Text.trim, left, Text.trimRight, right, List.reverse_reverse]

theorem Text.trim_of_visible (visible : ∀ c ∈ t, isBlank c = false) : Text.trim t = t := by
  apply Text.trim_of_stops
  · exact fun c mem => visible c (List.mem_of_mem_head? mem)
  · exact fun c mem => visible c (List.mem_reverse.mp (List.mem_of_mem_head? mem))

theorem Text.trimRight_front (t : Text) : Text.trimRight t <+: t := by
  rw [← List.reverse_suffix, Text.trimRight, List.reverse_reverse]
  exact List.dropWhile_suffix _

/-- A trimmed text neither starts nor ends with a blank. -/
theorem Text.stops_trim (t : Text) : Stops isBlank (Text.trim t) ∧ Stops isBlank (Text.trim t).reverse := by
  constructor
  · intro c head
    have front : Text.trim t <+: Text.trimLeft t := Text.trimRight_front _
    obtain ⟨rest, whole⟩ := List.head?_eq_some_iff.mp head
    rw [whole] at front
    obtain ⟨later, same⟩ := front
    refine stops_dropWhile isBlank t c ?_
    rw [show t.dropWhile isBlank = Text.trimLeft t from rfl, ← same]
    rfl
  · rw [Text.trim, Text.trimRight, List.reverse_reverse]
    exact stops_dropWhile isBlank _

theorem isEmpty_trim (t : Text) : t.trim.isEmpty = t.blank := by
  have left (t : Text) : t.trimLeft = [] ↔ t.blank = true := by
    simp [Text.trimLeft, Text.blank]
  rw [Bool.eq_iff_iff, List.isEmpty_iff, Text.trim, Text.trimRight, List.reverse_eq_nil_iff, left, ← left t]
  constructor
  · intro blank
    cases front : t.trimLeft with
    | nil => rfl
    | cons c rest =>
      have solid := List.head?_dropWhile_not isBlank t
      rw [← Text.trimLeft, front] at solid
      rw [front] at blank
      simp_all [Text.blank]
  · intro empty
    rw [empty]
    rfl

/-! ### Remainders -/

/-- Whether `t` is what is left of `y ++ b` when something is taken off `y`. -/
def Leaves (y b t : Text) : Prop := ∃ u v, y = u ++ v ∧ t = v ++ b

theorem Leaves.refl (y b : Text) : Leaves y b (y ++ b) := ⟨[], y, rfl, rfl⟩

theorem Leaves.trans {y t : Text} (first : Leaves y b a)
    (second : ∀ v, a = v ++ b → Leaves v b t) : Leaves y b t := by
  obtain ⟨u, v, rfl, rfl⟩ := first
  obtain ⟨u', v', rfl, rfl⟩ := second v rfl
  exact ⟨u ++ u', v', by simp, rfl⟩

theorem Leaves.cons {y t : Text} (h : Leaves y b t) (c : CodePoint) : Leaves (c :: y) b t := by
  obtain ⟨u, v, rfl, rfl⟩ := h
  exact ⟨c :: u, v, rfl, rfl⟩

theorem leaves_dropWhile (y : Text) (stop : Stops p b) : Leaves y b ((y ++ b).dropWhile p) :=
  ⟨y.takeWhile p, y.dropWhile p, by simp, dropWhile_append_stops y stop⟩

theorem drop_length_takeWhile (p : CodePoint → Bool) (t : Text) :
    t.drop (t.takeWhile p).length = t.dropWhile p := by
  calc t.drop (t.takeWhile p).length
      = (t.takeWhile p ++ t.dropWhile p).drop (t.takeWhile p).length := by
        rw [List.takeWhile_append_dropWhile]
    _ = t.dropWhile p := List.drop_left ..

/-! ### Parts -/

theorem dropPart?_append (part rest : Text) : Text.dropPart? part (part ++ rest) = some rest := by
  induction part with
  | nil => rfl
  | cons c part ih => simpa [Text.dropPart?] using ih

theorem dropPart?_eq_some {part rest : Text} :
    Text.dropPart? part t = some rest ↔ t = part ++ rest := by
  refine ⟨fun h => ?_, fun h => h ▸ dropPart?_append part rest⟩
  induction part generalizing t with
  | nil => simpa [Text.dropPart?] using h
  | cons p part ih =>
    cases t with
    | nil => simp [Text.dropPart?] at h
    | cons c t =>
      simp only [Text.dropPart?] at h
      split at h
      · next same => rw [same, List.cons_append, ih h]
      · cases h

theorem hasPart_iff {part : Text} : Text.hasPart part t = true ↔ part <:+: t := by
  induction t with
  | nil =>
    simp [Text.hasPart, Text.splitOnce?]
  | cons c rest ih =>
    simp only [Text.hasPart, Text.splitOnce?] at ih ⊢
    cases here : Text.dropPart? part (c :: rest) with
    | some after =>
      refine iff_of_true rfl ?_
      exact ⟨[], after, by simpa using (dropPart?_eq_some.mp here).symm⟩
    | none =>
      rw [Option.isSome_map, ih, List.infix_cons_iff]
      refine ⟨.inr, fun h => h.resolve_left ?_⟩
      rintro ⟨after, same⟩
      rw [dropPart?_eq_some.mpr same.symm] at here
      cases here

theorem partsAt_eq_cons {t : Text} {c : CodePoint} :
    ∃ part parts, Text.partsAt c t = part :: parts ∧ t = part ++ parts.flatMap (c :: ·) := by
  induction t with
  | nil => exact ⟨[], [], rfl, rfl⟩
  | cons d t ih =>
    obtain ⟨part, parts, split, whole⟩ := ih
    rw [Text.partsAt]
    split
    · next same =>
      refine ⟨[], part :: parts, by rw [split], ?_⟩
      rw [same, List.nil_append, List.flatMap_cons, List.cons_append, ← whole]
    · rw [split]
      exact ⟨d :: part, parts, rfl, by rw [List.cons_append, ← whole]⟩

theorem partsAt_of_not_mem {c : CodePoint} {u : Text} (h : c ∉ u) : Text.partsAt c u = [u] := by
  induction u with
  | nil => rfl
  | cons d u ih =>
    rw [List.mem_cons, not_or] at h
    rw [Text.partsAt, if_neg fun same => h.1 same.symm, ih h.2]

theorem partsAt_append_cons {c : CodePoint} {u : Text} (h : c ∉ u) (t : Text) :
    Text.partsAt c (u ++ c :: t) = u :: Text.partsAt c t := by
  induction u with
  | nil => rw [List.nil_append, Text.partsAt, if_pos rfl]
  | cons d u ih =>
    rw [List.mem_cons, not_or] at h
    rw [List.cons_append, Text.partsAt, if_neg fun same => h.1 same.symm, ih h.2]

end

end SclNarrator
