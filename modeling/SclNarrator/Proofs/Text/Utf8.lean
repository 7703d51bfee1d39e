import SclNarrator.Command.Files

/-!
The reader of bytes against the library's writer of UTF-8. The forms of characters in one to four
bytes are stated once (`Spells`): the reader takes exactly such a form off the front of bytes, and
the writer gives exactly that form. So bytes are read if and only if they are the UTF-8 of
characters (`decode_eq_ok_iff`).
-/

namespace SclNarrator.Utf8

variable {bytes m rest : List Nat} {t : Text} {v position : Nat}

/-- The bytes of a character, as numbers. -/
def encoded (c : Char) : List Nat := (String.utf8EncodeChar c).map UInt8.toNat

/-- Whether bytes are the form of the character with a number. -/
inductive Spells : List Nat → Nat → Prop where
  | one {a : Nat} (first : a < 0x80) : Spells [a] a
  | two {a b : Nat} (first : 0xc2 ≤ a ∧ a < 0xe0) (second : allowsSecond a b = true) :
      Spells [a, b] (a % 32 * 64 + b % 64)
  | three {a b c : Nat} (first : 0xe0 ≤ a ∧ a < 0xf0) (second : allowsSecond a b = true)
      (third : isContinuation c = true) : Spells [a, b, c] ((a % 16 * 64 + b % 64) * 64 + c % 64)
  | four {a b c d : Nat} (first : 0xf0 ≤ a ∧ a ≤ 0xf4) (second : allowsSecond a b = true)
      (third : isContinuation c = true) (fourth : isContinuation d = true) :
      Spells [a, b, c, d] (((a % 8 * 64 + b % 64) * 64 + c % 64) * 64 + d % 64)

theorem isContinuation_iff {b : Nat} : isContinuation b = true ↔ 0x80 ≤ b ∧ b < 0xc0 := by
  simp [isContinuation]

theorem allowsSecond_iff {a b : Nat} : allowsSecond a b = true ↔
    0x80 ≤ b ∧ b < 0xc0 ∧ (a = 0xe0 → 0xa0 ≤ b) ∧ (a = 0xed → b < 0xa0) ∧ (a = 0xf0 → 0x90 ≤ b) ∧
      (a = 0xf4 → b < 0x90) := by
  simp only [allowsSecond, isContinuation, Bool.and_eq_true, Bool.not_eq_true',
    Bool.and_eq_false_imp, beq_iff_eq, decide_eq_true_eq, decide_eq_false_iff_not]
  omega

/-! ## The reader -/

theorem bind_pure_cons (c : CodePoint) (read : Except Fault Text) :
    (do return c :: (← read)) = read.map (c :: ·) := by
  cases read <;> rfl

/-- The form of a character is read off the front of bytes. -/
theorem decodeFrom_append (spells : Spells m v) (rest : List Nat) (position : Nat) :
    decodeFrom position (m ++ rest) =
      (decodeFrom (position + m.length) rest).map (.char (Char.ofNat v) :: ·) := by
  cases spells with
  | one first =>
    rw [List.singleton_append, decodeFrom.eq_def]
    simp only [if_pos first]
    exact bind_pure_cons ..
  | @two a b first second =>
    have starts : (a < 0xc2 || 0xf4 < a) = false := by simp; omega
    rw [List.cons_append, List.singleton_append, decodeFrom.eq_def]
    simp only [if_neg (show ¬a < 0x80 by omega), starts, second, Bool.not_true, Bool.false_eq_true, if_false,
      if_pos first.2]
    exact bind_pure_cons ..
  | @three a b c first second third =>
    have starts : (a < 0xc2 || 0xf4 < a) = false := by simp; omega
    rw [List.cons_append, List.cons_append, List.singleton_append, decodeFrom.eq_def]
    simp only [if_neg (show ¬a < 0x80 by omega), starts, second, third, Bool.not_true,
      Bool.false_eq_true, if_false, if_neg (show ¬a < 0xe0 by omega), if_pos first.2]
    exact bind_pure_cons ..
  | @four a b c d first second third fourth =>
    have starts : (a < 0xc2 || 0xf4 < a) = false := by simp; omega
    rw [List.cons_append, List.cons_append, List.cons_append, List.singleton_append, decodeFrom.eq_def]
    simp only [if_neg (show ¬a < 0x80 by omega), starts, second, third, fourth, Bool.not_true,
      Bool.false_eq_true, if_false, if_neg (show ¬a < 0xe0 by omega),
      if_neg (show ¬a < 0xf0 by omega)]
    exact bind_pure_cons ..

theorem exists_spells_of_decodeFrom (h : decodeFrom position bytes = .ok t) (ne : bytes ≠ []) :
    ∃ m v rest, Spells m v ∧ bytes = m ++ rest := by
  obtain ⟨a, as, rfl⟩ := List.exists_cons_of_ne_nil ne
  rw [decodeFrom.eq_def] at h
  simp only at h
  split at h
  · next first => exact ⟨[a], _, as, .one first, rfl⟩
  split at h
  · cases h
  next large starts =>
  have starts : 0xc2 ≤ a ∧ a ≤ 0xf4 := by simpa using starts
  cases as with
  | nil => cases h
  | cons b bs =>
    simp only at h
    split at h
    · cases h
    next second =>
    have second : allowsSecond a b = true := by simpa using second
    split at h
    · next small => exact ⟨[a, b], _, bs, .two ⟨starts.1, small⟩ second, rfl⟩
    next middle =>
    cases bs with
    | nil => cases h
    | cons c cs =>
      simp only at h
      split at h
      · cases h
      next third =>
      have third : isContinuation c = true := by simpa using third
      split at h
      · next small => exact ⟨[a, b, c], _, cs, .three ⟨by omega, small⟩ second third, rfl⟩
      next large =>
      cases cs with
      | nil => cases h
      | cons d ds =>
        simp only at h
        split at h
        · cases h
        next fourth =>
        exact ⟨[a, b, c, d], _, ds, .four ⟨by omega, starts.2⟩ second third (by simpa using fourth), rfl⟩

/-! ## The writer -/

def form (v : Nat) : List Nat :=
  if v ≤ 0x7f then [v]
  else if v ≤ 0x7ff then [v / 64 + 0xc0, v % 64 + 0x80]
  else if v ≤ 0xffff then [v / 4096 + 0xe0, v / 64 % 64 + 0x80, v % 64 + 0x80]
  else [v / 262144 + 0xf0, v / 4096 % 64 + 0x80, v / 64 % 64 + 0x80, v % 64 + 0x80]

theorem encoded_eq (c : Char) : encoded c = form c.toNat := by
  have valid := c.valid
  simp only [UInt32.isValidChar, Nat.isValidChar, Char.toNat_val] at valid
  simp only [encoded, String.utf8EncodeChar, form, Char.toNat_val]
  generalize c.toNat = v at valid ⊢
  split
  · simp; omega
  split
  · simp; omega
  split
  · simp; omega
  · simp; omega

theorem Spells.of_eq {w : Nat} (h : Spells m w) (same : w = v) : Spells m v := same ▸ h

theorem spells_form (valid : v.isValidChar) : Spells (form v) v := by
  simp only [Nat.isValidChar] at valid
  unfold form
  split
  · exact .one (by omega)
  split
  · exact (Spells.two (by omega) (allowsSecond_iff.mpr (by omega))).of_eq (by omega)
  split
  · refine (Spells.three ?_ (allowsSecond_iff.mpr ?_) (isContinuation_iff.mpr ?_)).of_eq ?_ <;> omega
  · refine (Spells.four ?_ (allowsSecond_iff.mpr ?_) (isContinuation_iff.mpr ?_)
      (isContinuation_iff.mpr ?_)).of_eq ?_
      <;> omega

theorem eq_form_of_spells (h : Spells m v) : m = form v ∧ v.isValidChar := by
  simp only [Nat.isValidChar]
  cases h with
  | one first => exact ⟨(if_pos (by omega)).symm, by omega⟩
  | two first second =>
    rw [allowsSecond_iff] at second
    rw [form, if_neg (by omega), if_pos (by omega)]
    simp
    omega
  | three first second third =>
    rw [allowsSecond_iff] at second
    rw [isContinuation_iff] at third
    rw [form, if_neg (by omega), if_neg (by omega), if_pos (by omega)]
    simp
    omega
  | four first second third fourth =>
    rw [allowsSecond_iff] at second
    rw [isContinuation_iff] at third fourth
    rw [form, if_neg (by omega), if_neg (by omega), if_neg (by omega)]
    simp
    omega

theorem spells_encoded (c : Char) : Spells (encoded c) c.toNat := by
  rw [encoded_eq]
  exact spells_form c.valid

theorem eq_encoded_of_spells (h : Spells m v) : m = encoded (Char.ofNat v) := by
  obtain ⟨same, valid⟩ := eq_form_of_spells h
  have number : (Char.ofNat v).toNat = v := by
    rw [Char.ofNat, dif_pos valid]
    exact UInt32.toNat_ofNatLT ..
  rw [encoded_eq, number, same]

/-! ## Reader and writer -/

theorem decodeFrom_flatMap (cs : List Char) (position : Nat) :
    decodeFrom position (cs.flatMap encoded) = .ok (.ofChars cs) := by
  induction cs generalizing position with
  | nil => rfl
  | cons c cs ih =>
    rw [List.flatMap_cons, decodeFrom_append (spells_encoded c), ih, Char.ofNat_toNat]
    rfl

theorem decodeFrom_eq_ok_iff :
    decodeFrom position bytes = .ok t ↔ ∃ cs : List Char, bytes = cs.flatMap encoded ∧ t = .ofChars cs := by
  constructor
  · intro h
    -- by induction on the number of bytes, since a character may take several
    induction size : bytes.length using Nat.strongRecOn generalizing bytes position t with
    | _ n ih =>
      by_cases ne : bytes = []
      · subst ne
        cases h
        exact ⟨[], rfl, rfl⟩
      · obtain ⟨m, v, rest, spells, rfl⟩ := exists_spells_of_decodeFrom h ne
        rw [decodeFrom_append spells] at h
        cases later : decodeFrom (position + m.length) rest with
        | error fault =>
          rw [later] at h
          cases h
        | ok u =>
          rw [later] at h
          cases h
          have shorter : rest.length < n := by
            have nonempty : 0 < m.length := by cases spells <;> simp
            rw [List.length_append] at size
            omega
          obtain ⟨cs, rfl, rfl⟩ := ih rest.length shorter later rfl
          exact ⟨Char.ofNat v :: cs, by rw [List.flatMap_cons, ← eq_encoded_of_spells spells], rfl⟩
  · rintro ⟨cs, rfl, rfl⟩
    exact decodeFrom_flatMap cs position

/-- Bytes are read if and only if they are the UTF-8 of characters; the text is that of the
characters, with one kind of line end. -/
theorem decode_eq_ok_iff {bytes : List UInt8} :
    decode bytes = .ok t ↔
      ∃ cs : List Char, bytes = cs.flatMap String.utf8EncodeChar ∧ t = unifyLines (.ofChars cs) := by
  have numbers (cs : List Char) :
      bytes.map UInt8.toNat = cs.flatMap encoded ↔ bytes = cs.flatMap String.utf8EncodeChar := by
    have whole : cs.flatMap encoded = (cs.flatMap String.utf8EncodeChar).map UInt8.toNat :=
      List.map_flatMap.symm
    rw [whole, List.map_inj_right fun a b => UInt8.toNat_inj.mp]
  rw [decode]
  constructor
  · intro h
    cases read : decodeFrom 0 (bytes.map UInt8.toNat) with
    | error fault =>
      rw [read] at h
      cases h
    | ok u =>
      rw [read] at h
      cases h
      obtain ⟨cs, same, rfl⟩ := decodeFrom_eq_ok_iff.mp read
      exact ⟨cs, (numbers cs).mp same, rfl⟩
  · rintro ⟨cs, same, rfl⟩
    rw [(numbers cs).mpr same, decodeFrom_flatMap]
    rfl

end SclNarrator.Utf8
