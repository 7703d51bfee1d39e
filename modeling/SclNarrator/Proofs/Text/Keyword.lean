import Mathlib.Data.List.Induction
import SclNarrator.Proofs.Text.Stretch
import SclNarrator.Source.Basic
import SclNarrator.Text.Case

/-!
Keywords and the ends of words. Whether a keyword stands at a point as a whole word does not depend on
what lies behind a character that belongs to no word. So the keywords of a text that is put together
from stretches are those of the stretches, as long as no two of them meet inside of a word.
-/

namespace SclNarrator

theorem isWord_looseLetter (c : CodePoint) : isWord (looseLetter c) = isWord c := by
  unfold looseLetter
  split
  · next upper =>
    have := forall_upper (P := fun c => isWord c.toLower && isWord c) (by decide) upper
    rw [Bool.and_eq_true] at this
    rw [this.1, this.2]
  · split
    · next same => subst same; decide
    · split
      · next same => rcases same with rfl | rfl <;> decide
      · split
        · next same => subst same; decide +kernel
        · rfl

variable {x y back b : Text}

theorem wordAhead_append (h : Stops isWord b) : wordAhead (x ++ b) = wordAhead x := by
  cases x with
  | nil => exact any_head_eq_false.mpr h
  | cons c x => rfl

theorem dropLoose?_append {letters : Text} (words : ∀ k ∈ letters, isWord k = true)
    (stop : Stops isWord b) : dropLoose? letters (y ++ b) = (dropLoose? letters y).map (· ++ b) := by
  induction letters generalizing y with
  | nil => rfl
  | cons k letters ih =>
    cases y with
    | cons c y =>
      rw [List.cons_append, dropLoose?, dropLoose?]
      split
      · exact ih fun k mem => words k (List.mem_cons_of_mem _ mem)
      · rfl
    | nil =>
      cases b with
      | nil => rfl
      | cons c b =>
        have other : looseLetter c ≠ k := by
          rintro rfl
          have word := words _ List.mem_cons_self
          rw [isWord_looseLetter, stops_cons.mp stop] at word
          cases word
        simp only [List.nil_append, dropLoose?, if_neg other, Option.map_none]

/-- Whether a keyword stands at a point of a stretch does not depend on the text around the stretch, if
no word goes on there. -/
theorem dropKeyword?_append {letters : Text} (words : ∀ k ∈ letters, isWord k = true)
    (before : Stops isWord back) (stop : Stops isWord b) :
    dropKeyword? letters (x ++ back) (y ++ b) = (dropKeyword? letters x y).map (· ++ b) := by
  unfold dropKeyword?
  rw [wordAhead_append before, dropLoose?_append words stop]
  split
  · rfl
  · cases dropLoose? letters y with
    | none => rfl
    | some after =>
      simp only [Option.map_some, wordAhead_append stop]
      split <;> rfl

theorem searchFrom_eq_none {α : Type} {p : Pattern α} {t : Text} (h : Text.searchFrom p back t = none)
    {x y : Text} (same : t = x ++ y) : p (x.reverse ++ back) y = none := by
  induction x generalizing t back with
  | nil =>
    rw [same, List.nil_append] at h
    cases y with
    | nil => simpa [Text.searchFrom] using h
    | cons c y =>
      rw [Text.searchFrom] at h
      split at h
      · cases h
      · next missed => exact missed
  | cons c x ih =>
    rw [same, List.cons_append, Text.searchFrom] at h
    split at h
    · cases h
    · simpa using ih h rfl

theorem dropKeyword?_of_not_mentions {keyword t : Text} (h : Construct.mentions keyword t = false)
    (same : t = x ++ y) : dropKeyword? keyword x.reverse y = none := by
  rw [Construct.mentions, Option.isSome_eq_false_iff, Option.isNone_iff_eq_none, Text.search] at h
  have := searchFrom_eq_none h same
  simpa [Construct.oneOf] using this

theorem mentions_eq_false {keyword t : Text}
    (h : ∀ x y, t = x ++ y → dropKeyword? keyword x.reverse y = none) :
    Construct.mentions keyword t = false := by
  have general : ∀ y x, t = x ++ y →
      Text.searchFrom (Construct.oneOf [keyword]) x.reverse y = none := by
    intro y
    induction y with
    | nil =>
      intro x same
      simp [Text.searchFrom, Construct.oneOf, h x [] same]
    | cons c y ih =>
      intro x same
      have later := ih (x ++ [c]) (by simp [same])
      rw [List.reverse_append, List.reverse_singleton, List.singleton_append] at later
      simp [Text.searchFrom, Construct.oneOf, h x (c :: y) same, later]
  have whole : Text.search (Construct.oneOf [keyword]) t = none := general t [] rfl
  rw [Construct.mentions, whole]
  rfl

theorem dropLoose?_eq_some {letters t after : Text} (h : dropLoose? letters t = some after) :
    ∃ front, t = front ++ after ∧ front.map looseLetter = letters := by
  induction letters generalizing t with
  | nil =>
    cases h
    exact ⟨[], rfl, rfl⟩
  | cons k letters ih =>
    cases t with
    | nil => cases h
    | cons c t =>
      simp only [dropLoose?] at h
      split at h
      · next same =>
        obtain ⟨front, rfl, letters⟩ := ih h
        exact ⟨c :: front, rfl, by rw [List.map_cons, same, letters]⟩
      · cases h

theorem dropKeyword?_of_isWord {keyword t : Text} (words : ∀ c ∈ t, isWord c = true)
    (other : t.map looseLetter ≠ keyword) (same : t = x ++ y) :
    dropKeyword? keyword x.reverse y = none := by
  unfold dropKeyword?
  split
  · rfl
  · next start =>
    -- No word character comes before, so this is the start of the text.
    obtain rfl : x = [] := by
      cases x using List.reverseRecOn with
      | nil => rfl
      | append_singleton x c =>
        have word := words c (by simp [same])
        simp [wordAhead, word] at start
    rw [List.nil_append] at same
    subst same
    split
    · next after found =>
      obtain ⟨front, rfl, letters⟩ := dropLoose?_eq_some found
      cases after with
      | nil => exact absurd (by simpa using letters) other
      | cons c after =>
        have word := words c (by simp)
        simp [wordAhead, word]
    · rfl

/-- A keyword without an `i` is folded as it is matched. -/
theorem fold_of_map_looseLetter {keyword t : Text} (plain : ∀ k ∈ keyword, foldChar k = [k] ∧ k ≠ 'i')
    (h : t.map looseLetter = keyword) : t.fold = keyword := by
  subst h
  induction t with
  | nil => rfl
  | cons c t ih =>
    rw [List.map_cons, List.forall_mem_cons] at plain
    have later := ih plain.2
    rw [Text.fold] at later
    rw [Text.fold, List.flatMap_cons, later, List.map_cons]
    suffices foldChar c = [looseLetter c] by rw [this]; rfl
    obtain ⟨self, other⟩ := plain.1
    unfold looseLetter at self other ⊢
    split at self
    · next upper =>
      rw [if_pos upper]
      have := forall_upper (P := fun c => foldChar c == [c.toLower]) (by decide) upper
      simpa using this
    · next lower =>
      rw [if_neg lower] at other ⊢
      split
      · next long => subst long; decide
      · next short =>
        rw [if_neg short] at self other
        split
        · next turkish => rw [if_pos turkish] at other; exact absurd rfl other
        · next plain =>
          rw [if_neg plain] at self
          split
          · next kelvin => subst kelvin; decide
          · next same => rwa [if_neg same] at self

/-- A keyword that stands at a point is spelled there, letter case ignored, and is a whole word. -/
theorem spelled_of_dropKeyword? {keyword back t after : Text} (h : dropKeyword? keyword back t = some after) :
    ∃ m, t = m ++ after ∧ m.map looseLetter = keyword ∧ Stops isWord back ∧ Stops isWord after := by
  unfold dropKeyword? at h
  split at h
  · cases h
  · next before =>
    split at h
    · next rest found =>
      split at h
      · cases h
      · next behind =>
        cases h
        obtain ⟨m, rfl, loose⟩ := dropLoose?_eq_some found
        exact ⟨m, rfl, loose, any_head_eq_false.mp (by simpa [wordAhead] using before),
          any_head_eq_false.mp (by simpa [wordAhead] using behind)⟩
    · cases h

/-- A keyword that stands at a point takes as many word characters as it has letters. -/
theorem word_of_dropKeyword? {keyword back t after : Text} (letters : ∀ k ∈ keyword, isWord k = true)
    (h : dropKeyword? keyword back t = some after) :
    ∃ m, t = m ++ after ∧ m.length = keyword.length ∧ (∀ c ∈ m, isWord c = true) ∧
      Stops isWord back ∧ Stops isWord after := by
  obtain ⟨m, rfl, loose, before, behind⟩ := spelled_of_dropKeyword? h
  refine ⟨m, rfl, by rw [← loose, List.length_map], fun c mem => ?_, before, behind⟩
  rw [← isWord_looseLetter]
  exact letters _ (loose ▸ List.mem_map_of_mem mem)

end SclNarrator
