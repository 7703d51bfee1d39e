import SclNarrator.Proofs.Expr.Unmentioned
import SclNarrator.Proofs.Program.Stretches

/-!
Code that does not mention a name, and what is made of it. A stretch of such code does not mention
the name either. Where something is taken out of the code, what stands around it could join to the
name: not around a header, which no word touches (`Silent.without_header`), and around a call only
if the beginning of the name stands directly before a `#` (`free_stripCalls`). Neither the targets
nor the expressions of the assignments in such code mention the name (`silent_assignments`), nor do
its identifiers (`infix_of_mem_identifiers`).
-/

namespace SclNarrator

/-! ## Words around what is replaced -/

/-- What stands in two texts in a row stands in one of them, or over the place where they meet. -/
theorem infix_append_cases {w a b : Text} (h : w <:+: a ++ b) :
    w <:+: a ∨ w <:+: b ∨ ∃ p q, w = p ++ q ∧ p ≠ [] ∧ q ≠ [] ∧ p <:+ a ∧ q <+: b := by
  obtain ⟨x, y, whole⟩ := h
  rcases List.append_eq_append_iff.mp whole with ⟨a', rfl, -⟩ | ⟨q, front, rfl⟩
  · exact .inl ⟨x, a', rfl⟩
  · rcases List.append_eq_append_iff.mp front with ⟨p, rfl, rfl⟩ | ⟨x', -, rfl⟩
    · by_cases left : p = []
      · exact .inr (.inl ⟨[], y, by rw [left]; rfl⟩)
      · by_cases right : q = []
        · exact .inl ⟨x, [], by rw [right]; simp⟩
        · exact .inr (.inr ⟨p, q, rfl, left, right, List.suffix_append x p, List.prefix_append q y⟩)
    · exact .inr (.inl ⟨x', y, rfl⟩)

theorem infix_of_not_mem {w a b : Text} {d : CodePoint} (out : d ∉ w) (h : w <:+: a ++ d :: b) :
    w <:+: a ∨ w <:+: b := by
  have outside {q : Text} (part : q ⊆ w) (front : q <+: d :: b) : q = [] := by
    cases q with
    | nil => rfl
    | cons e q =>
      obtain ⟨rfl, -⟩ := List.cons_prefix_cons.mp front
      exact absurd (part List.mem_cons_self) out
  rcases infix_append_cases h with left | right | ⟨p, q, rfl, -, ne, -, front⟩
  · exact .inl left
  · rcases List.infix_cons_iff.mp right with front | right
    · exact .inr (outside (List.Subset.refl w) front ▸ List.nil_infix)
    · exact .inr right
  · exact absurd (outside (List.subset_append_right p q) front) ne

theorem infix_of_mark {w a b : Text} {d : CodePoint} (words : ∀ c ∈ w, isWord c = true)
    (mark : isWord d = false) (h : w <:+: a ++ d :: b) : w <:+: a ∨ w <:+: b := by
  refine infix_of_not_mem (fun mem => ?_) h
  rw [words d mem] at mark
  cases mark

/-- A word stands on one side of a stretch of characters that belong to no word. -/
theorem infix_of_separated {w a s b : Text} (words : ∀ c ∈ w, isWord c = true) (ne : s ≠ [])
    (marks : ∀ d ∈ s, isWord d = false) (h : w <:+: a ++ (s ++ b)) : w <:+: a ∨ w <:+: b := by
  obtain ⟨d, s, rfl⟩ := List.exists_cons_of_ne_nil ne
  induction s generalizing a d with
  | nil => exact infix_of_mark words (marks d List.mem_cons_self) h
  | cons e s ih =>
    rw [List.forall_mem_cons] at marks
    rcases infix_of_mark words marks.1 h with left | right
    · exact .inl left
    · rcases ih (a := []) e (List.cons_ne_nil e s) marks.2 right with none | right
      · exact .inr (List.infix_nil.mp none ▸ List.nil_infix)
      · exact .inr right

theorem infix_of_flatMap {α : Type} {f g : α → Text} {pieces : List α} {w : Text}
    (words : ∀ c ∈ w, isWord c = true)
    (same : ∀ piece ∈ pieces, f piece = g piece ∨ f piece ≠ [] ∧ ∀ c ∈ f piece, isWord c = false)
    (h : w <:+: pieces.flatMap f) : w <:+: pieces.flatMap g := by
  -- what was read of the text before the pieces at hand comes along
  have general (pieces : List α) : ∀ front : Text,
      (∀ piece ∈ pieces, f piece = g piece ∨ f piece ≠ [] ∧ ∀ c ∈ f piece, isWord c = false) →
      w <:+: front ++ pieces.flatMap f → w <:+: front ++ pieces.flatMap g := by
    induction pieces with
    | nil => exact fun _ _ inside => inside
    | cons piece pieces ih =>
      intro front same inside
      rw [List.forall_mem_cons] at same
      rw [List.flatMap_cons] at inside ⊢
      rcases same.1 with equal | ⟨ne, marks⟩
      · rw [← equal, ← List.append_assoc]
        rw [← List.append_assoc] at inside
        exact ih _ same.2 inside
      · rcases infix_of_separated words ne marks inside with left | right
        · exact left.trans (List.prefix_append _ _).isInfix
        · have later := ih [] same.2 right
          exact later.trans ⟨front ++ g piece, [], by simp⟩
  exact general pieces [] same h

theorem infix_of_replaceAll {p : Pattern Text} {t w : Text} (words : ∀ c ∈ w, isWord c = true)
    (marks : ∀ back y v rest, p back y = some (v, rest) → v ≠ [] ∧ ∀ c ∈ v, isWord c = false)
    (h : w <:+: Text.replaceAll p t) : w <:+: t := by
  have whole : w <:+: (Text.cut p t).flatMap Piece.text := by
    refine infix_of_flatMap words (fun piece mem => ?_) h
    cases piece with
    | plain c => exact .inl rfl
    | found u v =>
      obtain ⟨back, y, rest, here, -⟩ := Text.exists_of_found_mem mem
      exact .inr (marks back y v rest here)
  rwa [Text.cut_text] at whole

/-! ## Identifiers -/

theorem infix_bareText {t w : Text} (words : ∀ c ∈ w, isWord c = true) (h : w <:+: Source.bareText t) :
    w <:+: t := by
  refine infix_of_replaceAll words (p := Source.quotedToSpace) (fun back y v rest found => ?_)
    (infix_of_replaceAll words (p := Source.literalToEmpty) (fun back y v rest found => ?_)
      (infix_of_replaceAll words (p := Source.formalParameter) (fun back y v rest found => ?_) h))
  · obtain ⟨_, -, same⟩ := Option.map_eq_some_iff.mp found
    cases same
    exact ⟨by simp, by decide⟩
  · obtain ⟨_, -, same⟩ := Option.map_eq_some_iff.mp found
    cases same
    exact ⟨by simp, by decide⟩
  · unfold Source.formalParameter at found
    split at found
    · cases found
    · next c rest' =>
      split at found
      · next opens =>
        split at found
        · cases found
        · next after _ =>
          obtain ⟨⟨arrow, tail⟩, read, same⟩ := Option.map_eq_some_iff.mp found
          cases same
          have signs : ∀ arrow ∈ Source.arrows, ∀ d ∈ arrow, isWord d = false := by decide
          have blanks (u : Text) : ∀ d ∈ u.takeWhile isBlank, isWord d = false := fun d mem =>
            isWord_of_isBlank (List.mem_takeWhile_imp mem)
          refine ⟨by simp, List.forall_mem_append.mpr ⟨List.forall_mem_append.mpr ⟨?_, blanks _⟩,
            signs arrow (Source.arrow?_eq_some read).2⟩⟩
          refine List.forall_mem_cons.mpr ⟨?_, blanks _⟩
          rcases opens with rfl | rfl <;> decide
      · cases found

theorem Source.firstOccurrences_eq (seen names : List Text) :
    firstOccurrences seen names = (names.filter fun name => !seen.contains name).eraseDups := by
  induction names generalizing seen with
  | nil => rfl
  | cons name names ih =>
    rw [firstOccurrences]
    split
    · next known => rw [ih, List.filter_cons_of_neg (by rw [known]; decide)]
    · next new =>
      rw [ih, List.filter_cons_of_pos (by simpa using new), List.eraseDups_cons, List.filter_filter]
      simp only [List.contains_cons, Bool.not_or]

theorem mem_of_mem_firstOccurrences {seen names : List Text} {name : Text}
    (h : name ∈ Source.firstOccurrences seen names) : name ∈ names := by
  rw [Source.firstOccurrences_eq, List.mem_eraseDups] at h
  exact (List.mem_filter.mp h).1

theorem Program.isIdentifier_term {t : Text} (h : Program.isIdentifier t = true) :
    Term.isIdentifier t = true := by
  cases t with
  | nil => cases h
  | cons c t =>
    rw [Program.isIdentifier, Bool.and_eq_true, List.all_eq_true] at h
    rw [Term.isIdentifier, Bool.and_eq_true, List.all_eq_true]
    exact ⟨h.1, fun d mem => isWord_of_isNameChar (h.2 d mem)⟩

/-- The identifiers of a text without double quotes are plain, and stand in it. -/
theorem infix_of_mem_identifiers {t name : Text} (double : .char '"' ∉ t) (h : name ∈ Source.identifiers t) :
    name <:+: t ∧ Program.isIdentifier name = true := by
  have mem := (List.mem_filter.mp (mem_of_mem_firstOccurrences h)).1
  rcases List.mem_append.mp mem with quoted | bare
  · obtain ⟨back, y, rest, found, suffix⟩ := Text.exists_of_mem_findAll quoted
    have mark : .char '"' ∈ y := by
      rw [(quotedName_eq_some found).1]
      simp
    exact absurd (suffix.subset mark) double
  · obtain ⟨back, y, rest, found, suffix⟩ := Text.exists_of_mem_findAll bare
    unfold Source.bareWord at found
    split at found
    · cases found
    · split at found
      · cases found
      · next word left read =>
        split at found
        · cases found
        · cases found
          obtain ⟨whole, identifier⟩ := Program.identifier?_eq_some read
          have part : name <:+: Source.bareText t :=
            (whole ▸ (List.prefix_append name rest).isInfix).trans suffix.isInfix
          have words := Term.isWord_of_isIdentifier (Program.isIdentifier_term identifier)
          exact ⟨infix_bareText words part, identifier⟩

/-! ## Code that does not mention a name -/

/-- Whether no beginning of a name stands directly before a `#` and the start of another name. -/
def Unjoined (n t : Text) : Prop :=
  ∀ (w : Text) (c : CodePoint), w ≠ [] → (∀ d ∈ w, isWord d = true) → w.fold <+: n → isNameStart c = true →
    ¬(w ++ [.char '#', c]) <:+: t

/-- Whether a code without double quotes does not mention a name, and can be no part of one around a call. -/
structure Silent (n t : Text) : Prop where
  double : .char '"' ∉ t
  free : Free n t
  unjoined : Unjoined n t

theorem Silent.of_part {n t u : Text} (h : Silent n t) (part : u <:+: t) : Silent n u where
  double mem := h.double (part.subset mem)
  free := h.free.of_part part
  unjoined w c ne words front start inside := h.unjoined w c ne words front start (inside.trans part)

/-- A word of silent code, wherever it is cut in two, is no spelling of the name. -/
theorem Silent.fold_ne {n front t u w : Text} (h : Silent n (front ++ t)) (before : u <:+ front)
    (behind : w <+: t)
    (words : ∀ c ∈ u ++ w, isWord c = true) (first : (u ++ w).head?.any isNameStart = true) :
    (u ++ w).fold ≠ n := by
  obtain ⟨start, rfl⟩ := before
  obtain ⟨rest, rfl⟩ := behind
  exact h.free (u ++ w) ⟨start, rest, by simp⟩ words first

namespace Program

open Source (call)

theorem call_isSome {back back' t t' : Text} (same : Source.afterInstance? t = Source.afterInstance? t') :
    (call back t).isSome = (call back' t').isSome := by
  unfold call
  rw [same]
  cases Source.afterInstance? t' with
  | none => rfl
  | some rest =>
    dsimp only
    split
    · split
      · split <;> rfl
      · rfl
    · rfl

theorem call_eq_none_of_back {back t : Text} (h : call back t = none) (back' : Text) :
    call back' t = none := by
  have same : (call back' t).isSome = (call back t).isSome := call_isSome rfl
  rw [h] at same
  simpa using same

theorem call_of_word {back u t : Text} {c : CodePoint} (back' : Text) (ne : u ≠ [])
    (words : ∀ d ∈ u, isWord d = true)
    (first : u.head?.any isNameStart = true) (start : isNameStart c = true)
    (h : (call back (c :: t)).isSome = true) : (call back' (u ++ c :: t)).isSome = true := by
  rw [← h]
  refine call_isSome ?_
  have plain {d : CodePoint} (start : isNameStart d = true) (rest : Text) :
      Source.afterInstance? (d :: rest) =
        some (Source.afterMembers (rest.dropWhile isWord).length (rest.dropWhile isWord)) := by
    have other {e : CodePoint} (no : isNameStart e = false) : d ≠ e := by
      rintro rfl
      rw [no] at start
      cases start
    unfold Source.afterInstance?
    rw [afterQuoted?_of_head (by simpa using other rfl), Source.dropOne, if_neg (other rfl),
      Source.afterWord?, if_pos start]
    rfl
  obtain ⟨d, u, rfl⟩ := List.exists_cons_of_ne_nil ne
  rw [List.forall_mem_cons] at words
  have skips : (u ++ c :: t).dropWhile isWord = t.dropWhile isWord := by
    have inside : ∀ e ∈ u ++ [c], isWord e = true :=
      List.forall_mem_append.mpr ⟨words.2, by simpa using isWord_of_isNameStart start⟩
    rw [← List.singleton_append, ← List.append_assoc, List.dropWhile_append_of_pos inside]
  rw [List.cons_append, plain first, plain start, skips]

/-- A call in code without double quotes starts as a name does, or with a `#` before that. -/
theorem call_start {back t rest : Text} {v : Source.Call} (double : .char '"' ∉ t)
    (h : call back t = some (v, rest)) :
    ∃ c more, isNameStart c = true ∧ (t = c :: more ∨ t = .char '#' :: c :: more) := by
  have start {t left : Text} (word : Source.afterWord? t = some left) :
      ∃ c more, isNameStart c = true ∧ t = c :: more := by
    cases t with
    | nil => cases word
    | cons c more =>
      rw [Source.afterWord?] at word
      split at word
      · next start => exact ⟨c, more, start, rfl⟩
      · cases word
  have instance' : (Source.afterInstance? t).isSome = true := by
    unfold call at h
    split at h
    · cases h
    · next found => rw [found]; rfl
  have quoted : Source.afterQuoted? t = none :=
    afterQuoted?_of_head fun mark => double (List.mem_of_mem_head? mark)
  obtain ⟨left, found⟩ := Option.isSome_iff_exists.mp instance'
  unfold Source.afterInstance? at found
  rw [quoted] at found
  obtain ⟨after, word, -⟩ := Option.map_eq_some_iff.mp found
  obtain ⟨c, more, letter, same⟩ := start word
  refine ⟨c, more, letter, ?_⟩
  cases t with
  | nil => cases same
  | cons d t =>
    rw [Source.dropOne] at same
    split at same
    · next mark => exact .inr (by rw [mark, same])
    · exact .inl same

/-- Where a call is taken out behind a part of a word, the word that is left is no spelling of the
name: the call does not start inside of the word, and the word is not joined over a `#`. -/
theorem fold_ne_of_taken {n back t rest u : Text} {v : Source.Call} (silent : Silent n (back.reverse ++ t))
    (here : call back t = some (v, rest)) (before : u <:+ back.reverse) (ne : u ≠ [])
    (missed : ∀ b, call b (u ++ t) = none) {w : Text} (words : ∀ c ∈ u ++ w, isWord c = true)
    (first : (u ++ w).head?.any isNameStart = true) : (u ++ w).fold ≠ n := by
  have words' : ∀ d ∈ u, isWord d = true := fun d mem => words d (List.mem_append_left w mem)
  obtain ⟨c, more, start, text⟩ := call_start (fun mem => silent.double (List.mem_append_right _ mem)) here
  rcases text with rfl | rfl
  · exfalso
    rw [List.head?_append_of_ne_nil u ne] at first
    have found := call_of_word back ne words' first start (by rw [here]; rfl)
    rw [missed back] at found
    cases found
  · intro same
    rw [Text.fold_append] at same
    obtain ⟨front, left⟩ := before
    refine silent.unjoined u c ne words' ⟨w.fold, same⟩ start ⟨front, more, ?_⟩
    rw [← left]
    simp

/-- No word that is made where calls are taken out of silent code is a spelling of the name. -/
theorem fold_ne_of_cuts {n back t : Text} {pieces : List (Piece Source.Call)}
    (h : Text.Cuts call back t pieces)
    (silent : Silent n (back.reverse ++ t)) {u w : Text} (before : u <:+ back.reverse)
    (missed : u = [] ∨ ∀ b, call b (u ++ t) = none) (behind : w <+: pieces.flatMap Source.keepNested)
    (words : ∀ c ∈ u ++ w, isWord c = true) (first : (u ++ w).head?.any isNameStart = true) :
    (u ++ w).fold ≠ n := by
  induction h generalizing u w with
  | done back => exact silent.fold_ne before behind words first
  | @plain back rest c pieces missed later ih =>
    cases w with
    | nil => exact silent.fold_ne before List.nil_prefix words first
    | cons d w =>
      obtain ⟨rfl, later'⟩ := List.cons_prefix_cons.mp behind
      have next := ih (u := u ++ [d]) (w := w) (by simpa using silent) ?_ (.inr fun b => ?_) later'
        (by simpa using words) (by simpa using first)
      · simpa using next
      · obtain ⟨front, left⟩ := before
        exact ⟨front, by rw [List.reverse_cons, ← left]; simp⟩
      · rw [List.append_assoc, List.singleton_append]
        rcases missed with rfl | missed
        · exact call_eq_none_of_back missed b
        · exact missed b
  | @found back m rest v pieces ne here later ih =>
    have whole : Silent n ((m.reverse ++ back).reverse ++ rest) := by simpa using silent
    rw [List.flatMap_cons, Source.keepNested] at behind
    split at behind
    · -- a call that stays ends outside of a word
      obtain ⟨x, s, split, nonempty, marks⟩ := call_front here
      obtain rfl := List.append_cancel_right split
      rcases List.prefix_or_prefix_of_prefix behind (List.prefix_append _ _) with front | over'
      · exact silent.fold_ne before (front.trans (List.prefix_append _ _)) words first
      · obtain ⟨d, s, rfl⟩ := List.exists_cons_of_ne_nil nonempty
        have mem : d ∈ u ++ w := List.mem_append_right u (over'.subset (by simp))
        have mark := marks d List.mem_cons_self
        rw [words d mem] at mark
        cases mark
    · rw [List.nil_append] at behind
      by_cases empty : u = []
      · subst empty
        exact ih whole List.nil_suffix (.inl rfl) behind words first
      · exact fold_ne_of_taken silent here before empty (missed.resolve_left empty) words first

/-- Silent code does not mention the name once calls are taken out of it. -/
theorem free_stripCalls {n t : Text} (silent : Silent n t) : Free n (Source.stripCalls t) := by
  have run {back t : Text} {pieces : List (Piece Source.Call)} (h : Text.Cuts call back t pieces)
      (silent : Silent n (back.reverse ++ t)) : Free n (pieces.flatMap Source.keepNested) := by
    induction h with
    | done back => exact silent.free.of_part List.nil_infix
    | @plain back rest c pieces missed later ih =>
      intro w part words first
      rcases List.infix_cons_iff.mp part with front | part
      · exact fold_ne_of_cuts (.plain missed later) silent List.nil_suffix (.inl rfl) front words first
      · exact ih (by simpa using silent) w part words first
    | @found back m rest v pieces ne here later ih =>
      have after := ih (by simpa using silent)
      rw [List.flatMap_cons, Source.keepNested]
      split
      · intro w part words first
        obtain ⟨x, s, split, nonempty, marks⟩ := call_front here
        obtain rfl := List.append_cancel_right split
        rw [List.append_assoc] at part
        rcases infix_of_separated words nonempty marks part with left | right
        · refine silent.free w (left.trans ⟨back.reverse, s ++ rest, by simp⟩) words first
        · exact after w right words first
      · exact after
  exact run (Text.cuts_cut fronts_call t) silent

/-- The assignments of silent code: their targets are other names, and their expressions do not mention
the name. -/
theorem silent_assignments {n t : Text} (silent : Silent n t) {a : Source.Assignment}
    (h : a ∈ Source.assignments t) :
    Term.isIdentifier a.target = true ∧ a.target.fold ≠ n ∧ .char '"' ∉ a.expression ∧ Free n a.expression ∧
      a.expression.count (.char '\'') % 2 = 0 := by
  have found (pieces : List (Piece Source.Assignment)) : ∀ balance, a ∈ Source.topLevel balance pieces →
      ∃ u, .found u a ∈ pieces := by
    induction pieces with
    | nil => exact fun _ none => by cases none
    | cons piece pieces ih =>
      intro balance mem
      have later {balance : Int} (mem : a ∈ Source.topLevel balance pieces) :
          ∃ u, .found u a ∈ piece :: pieces := by
        obtain ⟨u, among⟩ := ih _ mem
        exact ⟨u, List.mem_cons_of_mem _ among⟩
      cases piece with
      | plain c => exact later mem
      | found u b =>
        simp only [Source.topLevel] at mem
        split at mem
        · exact later mem
        · rcases List.mem_cons.mp mem with rfl | mem
          · exact ⟨u, List.mem_cons_self⟩
          · exact later mem
  obtain ⟨u, mem⟩ := found _ 0 h
  obtain ⟨back, y, rest, here, suffix⟩ := Text.exists_of_found_mem mem
  obtain ⟨-, identifier, target, expression, even⟩ := assignment_eq_some here
  have free := (free_stripCalls silent).of_part suffix.isInfix
  have plain := isIdentifier_term identifier
  refine ⟨plain, free.fold_ne target plain, fun mem => silent.double ?_, free.of_part expression, even⟩
  exact mem_of_mem_stripCalls (suffix.subset (expression.subset mem))

end Program

/-- Code is as silent without a header as it is with it: what stands before the header ends outside of a
word. -/
theorem Silent.without_header {n before y after : Text} (silent : Silent n (before ++ y))
    (header : Program.IsHeader before.reverse y after) : Silent n (before ++ after) := by
  have left : before <:+: before ++ y := (List.prefix_append before y).isInfix
  have right : after <:+: before ++ y := header.rest.isInfix.trans (List.suffix_append before y).isInfix
  have ends {p : Text} (ne : p ≠ []) (part : p <:+ before) : ∃ p' d, p = p' ++ [d] ∧ isWord d = false := by
    rcases List.eq_nil_or_concat p with rfl | ⟨p', d, rfl⟩
    · exact absurd rfl ne
    · obtain ⟨x, whole⟩ := part
      refine ⟨p', d, List.concat_eq_append, header.before d ?_⟩
      rw [← whole]
      simp
  refine ⟨fun mem => silent.double ?_, fun w part words first => ?_, fun w c ne words front start part => ?_⟩
  · rcases List.mem_append.mp mem with mem | mem
    · exact left.subset mem
    · exact right.subset mem
  · rcases infix_append_cases part with inside | inside | ⟨p, q, rfl, nonempty, -, suffix, -⟩
    · exact silent.free w (inside.trans left) words first
    · exact silent.free w (inside.trans right) words first
    · obtain ⟨p, d, rfl, mark⟩ := ends nonempty suffix
      rw [words d (by simp)] at mark
      cases mark
  · rcases infix_append_cases part with inside | inside | ⟨p, q, whole, nonempty, behind, suffix, -⟩
    · exact silent.unjoined w c ne words front start (inside.trans left)
    · exact silent.unjoined w c ne words front start (inside.trans right)
    · obtain ⟨p, d, rfl, mark⟩ := ends nonempty suffix
      obtain ⟨q, e, rfl⟩ := (List.eq_nil_or_concat q).resolve_left behind
      have whole : w ++ [.char '#'] ++ [c] = p ++ d :: q ++ [e] := by simpa using whole
      have whole := (List.append_inj' whole rfl).1
      rcases List.eq_nil_or_concat q with rfl | ⟨q, e', rfl⟩
      · -- the `#` ends what stands before the header, and the header starts as a name does
        obtain ⟨rfl, same⟩ := List.append_inj' whole rfl
        obtain rfl := List.singleton_inj.mp same
        cases y with
        | nil => cases header.start
        | cons c' y =>
          obtain ⟨x, rfl⟩ := suffix
          exact silent.unjoined w c' ne words front header.start ⟨x, y, by simp⟩
      · have whole : w ++ [.char '#'] = p ++ d :: q ++ [e'] := by simpa using whole
        have inside := (List.append_inj' whole rfl).1
        rw [words d (by rw [inside]; simp)] at mark
        cases mark

end SclNarrator
