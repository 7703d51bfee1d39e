import SclNarrator.Proofs.Text.Cut
import SclNarrator.Proofs.Text.Keyword

/-!
Texts word by word. Every text is a word, or a word, a character that belongs to none, and a text
behind it (`words_induction`). A pattern that does not look past a character and starts afresh
behind it cuts what is before the character and what is behind it as if they stood alone
(`cut_append_cons`): for keywords every character that belongs to no word is one.
-/

namespace SclNarrator

/-- A property of all words that is passed on to texts with one more word in front. -/
theorem words_induction {motive : Text → Prop} (last : ∀ w, (∀ c ∈ w, isWord c = true) → motive w)
    (cons : ∀ w h t, (∀ c ∈ w, isWord c = true) → isWord h = false → motive t →
      motive (w ++ h :: t)) (t : Text) :
    motive t := by
  have general : ∀ (size : Nat) (t : Text), t.length ≤ size → motive t := by
    intro size
    induction size with
    | zero =>
      intro t short
      obtain rfl := List.eq_nil_of_length_eq_zero (Nat.le_zero.mp short)
      exact last [] (by simp)
    | succ size ih =>
      intro t short
      have whole := List.takeWhile_append_dropWhile (p := isWord) (l := t)
      have letters : ∀ c ∈ t.takeWhile isWord, isWord c = true := fun c => List.mem_takeWhile_imp
      have stop := stops_dropWhile isWord t
      cases rest : t.dropWhile isWord with
      | nil =>
        rw [rest, List.append_nil] at whole
        exact last t (whole ▸ letters)
      | cons h t' =>
        rw [rest] at whole stop
        have shorter : t'.length ≤ size := by
          rw [← whole, List.length_append, List.length_cons] at short
          omega
        rw [← whole]
        exact cons _ h t' letters (stops_cons.mp stop) (ih t' shorter)
  exact general t.length t (Nat.le_refl _)

/-- A text whose words and whose characters between them are of some kinds. -/
inductive Worded (word : Text → Prop) (sign : CodePoint → Prop) : Text → Prop where
  | last {w : Text} (letters : ∀ c ∈ w, isWord c = true) (fits : word w) : Worded word sign w
  | cons {w t : Text} {h : CodePoint} (letters : ∀ c ∈ w, isWord c = true) (fits : word w)
      (mark : isWord h = false) (allowed : sign h) (later : Worded word sign t) :
        Worded word sign (w ++ h :: t)

theorem Worded.append_cons {word : Text → Prop} {sign : CodePoint → Prop} {v t : Text} {h : CodePoint}
    (first : Worded word sign v) (mark : isWord h = false) (allowed : sign h) (later : Worded word sign t) :
    Worded word sign (v ++ h :: t) := by
  induction first with
  | last letters fits => exact .cons letters fits mark allowed later
  | cons letters fits mark' allowed' _ ih =>
    rw [List.append_assoc, List.cons_append]
    exact .cons letters fits mark' allowed' ih

theorem Worded.forall_mem {word : Text → Prop} {sign P : CodePoint → Prop} {t : Text} (h : Worded word sign t)
    (letter : ∀ c, isWord c = true → P c) (mark : ∀ c, sign c → P c) : ∀ c ∈ t, P c := by
  induction h with
  | last letters _ => exact fun c mem => letter c (letters c mem)
  | cons letters _ _ allowed _ ih =>
    intro c mem
    rw [List.mem_append, List.mem_cons] at mem
    rcases mem with mem | rfl | mem
    · exact letter c (letters c mem)
    · exact mark c allowed
    · exact ih c mem

theorem worded_of_signs {sign : CodePoint → Prop} {t : Text} (h : ∀ c ∈ t, isWord c = false → sign c) :
    Worded (fun _ => True) sign t := by
  induction t using words_induction with
  | last w letters => exact .last letters trivial
  | cons w k t letters mark ih =>
    exact .cons letters trivial mark (h k (by simp) mark) (ih fun c mem => h c (by simp [mem]))

theorem Stops.of_append {p : CodePoint → Bool} {a b : Text} (h : Stops p (a ++ b)) : Stops p a := by
  cases a with
  | nil => exact stops_nil
  | cons c a => exact stops_cons.mpr (stops_cons.mp h)

theorem eq_nil_of_stops {w : Text} (letters : ∀ c ∈ w, isWord c = true)
    (stop : Stops isWord w.reverse) : w = [] := by
  cases w using List.reverseRecOn with
  | nil => rfl
  | append_singleton w c =>
    rw [List.reverse_append, List.reverse_singleton, List.singleton_append, stops_cons,
      letters c (by simp)] at stop
    cases stop

/-! ## Patterns at a character -/

namespace Text

variable {α : Type} {p : Pattern α} {h : CodePoint}

/-- Whether a pattern that matches before a character does not look past it. -/
def Bounded (p : Pattern α) (h : CodePoint) : Prop :=
  ∀ x y b, y ≠ [] → p x (y ++ h :: b) = (p x y).map fun found => (found.1, found.2 ++ h :: b)

/-- Whether a pattern sees a character alone as it sees it in a text, and does not look back past it. -/
structure Fresh (p : Pattern α) (h : CodePoint) : Prop where
  here : ∀ back b, p back (h :: b) = (p [] [h]).map fun found => (found.1, found.2 ++ b)
  behind : ∀ x back y, p (x ++ h :: back) y = p x y

theorem Fresh.cutFrom (fresh : Fresh p h) (back b : Text) :
    cutFrom p 0 back (h :: b) = cut p [h] ++ cut p b := by
  have alone : LocalOn p back [h] b := by
    intro x y same ne
    obtain ⟨rfl, rfl⟩ : x = [] ∧ y = [h] := by
      cases x with
      | nil => exact ⟨rfl, same.symm⟩
      | cons c x =>
        obtain ⟨-, nothing⟩ := List.cons.inj same
        exact absurd (List.append_eq_nil_iff.mp nothing.symm).2 ne
    exact fresh.here back b
  have later : LocalOn p (h :: back) b [] := by
    intro x y _ _
    rw [fresh.behind, List.append_nil]
    cases p x.reverse y <;> simp
  have front := cutFrom_local alone
  have rest := cutFrom_local later
  rw [List.append_nil, Text.cutFrom, List.append_nil] at rest
  rw [List.singleton_append, List.reverse_singleton, List.singleton_append, rest] at front
  exact front

theorem cut_cons (fresh : Fresh p h) (b : Text) : cut p (h :: b) = cut p [h] ++ cut p b := fresh.cutFrom [] b

/-- A text is cut before and behind such a character as if its two parts stood alone. -/
theorem cut_append_cons (bounded : Bounded p h) (fresh : Fresh p h) (a b : Text) :
    cut p (a ++ h :: b) = cut p a ++ (cut p [h] ++ cut p b) := by
  have first : LocalOn p [] a (h :: b) := by
    intro x y _ ne
    rw [List.append_nil]
    exact bounded x.reverse y b ne
  rw [cut, cutFrom_local first, fresh.cutFrom]

variable {p : Pattern Text}

theorem replaceAll_cons (fresh : Fresh p h) (missed : p [] [h] = none) (b : Text) :
    replaceAll p (h :: b) = h :: replaceAll p b := by
  rw [replaceAll, cut_cons fresh, cut, cutFrom, missed, List.flatMap_append]
  rfl

theorem replaceAll_append_cons (bounded : Bounded p h) (fresh : Fresh p h)
    (missed : p [] [h] = none) (a b : Text) :
    replaceAll p (a ++ h :: b) = replaceAll p a ++ h :: replaceAll p b := by
  rw [replaceAll, cut_append_cons bounded fresh, ← cut_cons fresh, List.flatMap_append]
  exact congrArg (replaceAll p a ++ ·) (replaceAll_cons fresh missed b)

theorem forall_mem_replaceAll {P : CodePoint → Prop} {t : Text} (kept : ∀ c ∈ t, P c)
    (put : ∀ back y v rest, p back y = some (v, rest) → ∀ c ∈ v, P c) : ∀ c ∈ replaceAll p t, P c := by
  intro c mem
  obtain ⟨piece, among, inside⟩ := List.mem_flatMap.mp mem
  cases piece with
  | plain d =>
    have whole : d ∈ (cut p t).flatMap Piece.text :=
      List.mem_flatMap.mpr ⟨_, among, List.mem_singleton_self d⟩
    rw [cut_text] at whole
    rw [List.mem_singleton.mp inside]
    exact kept d whole
  | found u v =>
    obtain ⟨back, y, rest, read, -⟩ := exists_of_found_mem among
    exact put back y v rest read c inside

end Text

/-! ## Keywords -/

theorem dropLoose?_spelled {keyword w : Text} (spelled : w.map looseLetter = keyword) (after : Text) :
    dropLoose? keyword (w ++ after) = some after := by
  subst spelled
  induction w with
  | nil => rfl
  | cons c w ih => rw [List.map_cons, List.cons_append, dropLoose?, if_pos rfl, ih]

theorem dropKeyword?_spelled {keyword w back after : Text} (spelled : w.map looseLetter = keyword)
    (before : Stops isWord back) (behind : Stops isWord after) :
    dropKeyword? keyword back (w ++ after) = some after := by
  have start : wordAhead back = false := any_head_eq_false.mpr before
  have stop : wordAhead after = false := any_head_eq_false.mpr behind
  rw [dropKeyword?, start, dropLoose?_spelled spelled]
  simp [stop]

theorem dropKeyword?_within {keyword w x y back t : Text} (letters : ∀ k ∈ keyword, isWord k = true)
    (words : ∀ c ∈ w, isWord c = true) (other : w.map looseLetter ≠ keyword) (same : w = x ++ y)
    (before : Stops isWord back) (behind : Stops isWord t) :
    dropKeyword? keyword (x.reverse ++ back) (y ++ t) = none := by
  rw [dropKeyword?_append letters before behind, dropKeyword?_of_isWord words other same]
  rfl

theorem dropKeyword?_cons {keyword back t : Text} {h : CodePoint} (letters : ∀ k ∈ keyword, isWord k = true)
    (ne : keyword ≠ []) (mark : isWord h = false) : dropKeyword? keyword back (h :: t) = none := by
  obtain ⟨k, rest, rfl⟩ := List.exists_cons_of_ne_nil ne
  have other : looseLetter h ≠ k := by
    rintro rfl
    have word := letters _ List.mem_cons_self
    rw [isWord_looseLetter, mark] at word
    cases word
  rw [dropKeyword?, dropLoose?, if_neg other]
  split <;> rfl

/-- Where a keyword is does not depend on what lies behind a character that belongs to no word. -/
theorem dropKeyword?_append_cons {keyword x back y b : Text} {h : CodePoint}
    (letters : ∀ k ∈ keyword, isWord k = true) (mark : isWord h = false) :
    dropKeyword? keyword x (y ++ h :: b) = (dropKeyword? keyword x y).map (· ++ h :: b) ∧
      dropKeyword? keyword (x ++ h :: back) y = dropKeyword? keyword x y := by
  have ahead : dropKeyword? keyword (x ++ []) (y ++ h :: b) = _ :=
    dropKeyword?_append letters stops_nil (stops_cons.mpr mark)
  have behind : dropKeyword? keyword (x ++ h :: back) (y ++ []) = _ :=
    dropKeyword?_append letters (stops_cons.mpr mark) stops_nil
  rw [List.append_nil] at ahead behind
  refine ⟨ahead, behind.trans ?_⟩
  cases dropKeyword? keyword x y <;> simp

/-- A keyword that is mentioned on neither side of a character that belongs to no word is not
mentioned at all. -/
theorem mentions_append_cons {keyword a b : Text} {h : CodePoint} (letters : ∀ k ∈ keyword, isWord k = true)
    (ne : keyword ≠ []) (mark : isWord h = false) (left : Construct.mentions keyword a = false)
    (right : Construct.mentions keyword b = false) : Construct.mentions keyword (a ++ h :: b) = false := by
  refine mentions_eq_false fun x y same => ?_
  rcases List.append_eq_append_iff.mp same with ⟨x', rfl, behind⟩ | ⟨y', rfl, rfl⟩
  · cases x' with
    | nil =>
      rw [List.nil_append] at behind
      rw [← behind]
      exact dropKeyword?_cons letters ne mark
    | cons c x' =>
      obtain ⟨rfl, rfl⟩ := List.cons.inj behind
      rw [List.reverse_append, List.reverse_cons, List.append_assoc, List.singleton_append,
        (@dropKeyword?_append_cons _ _ _ _ [] _ letters mark).2]
      exact dropKeyword?_of_not_mentions right rfl
  · rw [(@dropKeyword?_append_cons _ _ [] _ b _ letters mark).1, dropKeyword?_of_not_mentions left rfl]
    rfl

theorem mentions_of_letter {keyword t : Text} {k : CodePoint} (mem : k ∈ keyword)
    (missing : ∀ c ∈ t, looseLetter c ≠ k) : Construct.mentions keyword t = false := by
  refine mentions_eq_false fun x y same => ?_
  rw [Option.eq_none_iff_forall_ne_some]
  intro after found
  obtain ⟨m, rfl, loose, -⟩ := spelled_of_dropKeyword? found
  obtain ⟨c, among, letter⟩ := List.mem_map.mp (loose ▸ mem)
  exact missing c (by rw [same]; simp [among]) letter

theorem mentions_spelled {keyword w x y : Text} (spelled : w.map looseLetter = keyword)
    (before : Stops isWord x.reverse) (behind : Stops isWord y) :
    Construct.mentions keyword (x ++ (w ++ y)) = true := by
  rw [← Bool.not_eq_false]
  intro absent
  have missed := dropKeyword?_of_not_mentions absent rfl
  rw [dropKeyword?_spelled spelled before behind] at missed
  cases missed

end SclNarrator
