import SclNarrator.Proofs.Expr.Division

/-!
Code without the words and signs of the language.

What is proved:
  1. the words of a text in which stretches were swapped are words of the text before, at which the
     pattern did not match, or words that came in (`worded_replaceAll`); so no replacement brings back
     a word that another one took away;
  2. the two replacements of signs come last, and the second makes no `<>` again;
  3. a text is therefore left with code of symbols alone, and a text with such code is left as it is
     (`symbolize_vocabulary`).

Correspondence (analyzer ↔ here):
  `rewrite_operators` ↔ `Vocabulary.symbolize`
  `_outside_strings`  ↔ `Alternation.mapCode`
-/

namespace SclNarrator

open Text (Cuts)

/-! ## The words of a text -/

namespace Worded

variable {word word' : Text → Prop} {sign : CodePoint → Prop} {t u w : Text} {h : CodePoint}

theorem mono (all : Worded word sign t) (weaker : ∀ w, word w → word' w) : Worded word' sign t := by
  induction all with
  | last letters fits => exact .last letters (weaker _ fits)
  | cons letters fits mark allowed _ ih => exact .cons letters (weaker _ fits) mark allowed ih

theorem of_append_cons (mark : isWord h = false) (all : Worded word sign (t ++ h :: u)) :
    Worded word sign t ∧ Worded word sign u := by
  generalize whole : t ++ h :: u = v at all
  induction all generalizing t with
  | @last w letters fits =>
    subst whole
    rw [letters h (by simp)] at mark
    cases mark
  | @cons w v k letters fits mark' allowed later ih =>
    rcases List.append_eq_append_iff.mp whole with ⟨m, rfl, same⟩ | ⟨m, rfl, same⟩
    · cases m with
      | nil =>
        obtain ⟨rfl, rfl⟩ := List.cons.inj same
        rw [List.append_nil] at letters fits
        exact ⟨.last letters fits, later⟩
      | cons d m =>
        obtain ⟨rfl, -⟩ := List.cons.inj same
        rw [letters h (by simp)] at mark
        cases mark
    · cases m with
      | nil =>
        obtain ⟨rfl, rfl⟩ := List.cons.inj same
        rw [List.append_nil]
        exact ⟨.last letters fits, later⟩
      | cons d m =>
        obtain ⟨rfl, rest⟩ := List.cons.inj same
        obtain ⟨first, second⟩ := ih rest.symm
        exact ⟨.cons letters fits mark' allowed first, second⟩

theorem of_letters (letters : ∀ c ∈ w, isWord c = true) (all : Worded word sign w) : word w := by
  cases all with
  | last _ fits => exact fits
  | cons _ _ mark =>
    rw [letters _ (by simp)] at mark
    cases mark

theorem of_append (stop : Stops isWord t.reverse) (all : Worded word sign (t ++ u)) : Worded word sign u := by
  cases t using List.reverseRecOn with
  | nil => exact all
  | append_singleton t h =>
    rw [List.reverse_append, List.reverse_singleton, List.singleton_append] at stop
    rw [List.append_assoc, List.singleton_append] at all
    exact (of_append_cons (stops_cons.mp stop) all).2

theorem append (all : Worded word sign (t ++ w)) (stop : Stops isWord t.reverse)
    (rest : Worded word sign (w ++ u))
    (signs : ∀ c, sign c) : Worded word sign (t ++ (w ++ u)) := by
  cases t using List.reverseRecOn with
  | nil => exact rest
  | append_singleton t h =>
    have mark : isWord h = false := by
      rw [List.reverse_append, List.reverse_singleton, List.singleton_append] at stop
      exact stops_cons.mp stop
    rw [List.append_assoc, List.singleton_append] at all ⊢
    exact (of_append_cons mark all).1.append_cons mark (signs h) rest

theorem append_signs (others : ∀ c ∈ t, isWord c = false) (empty : word []) (signs : ∀ c, sign c)
    (rest : Worded word sign u) : Worded word sign (t ++ u) := by
  induction t with
  | nil => exact rest
  | cons c t ih =>
    obtain ⟨mark, others⟩ := List.forall_mem_cons.mp others
    exact .cons (w := []) (by simp) empty mark (signs c) (ih others)

end Worded

/-- Whether a word stands in a text and touches no other word character. -/
def IsWholeWord (w t : Text) : Prop :=
  ∃ x y, t = x ++ (w ++ y) ∧ w ≠ [] ∧ (∀ c ∈ w, isWord c = true) ∧ Stops isWord x.reverse ∧ Stops isWord y

theorem Worded.of_isWholeWord {P : Text → Prop} {sign : CodePoint → Prop} {w t : Text}
    (all : Worded P sign t) (h : IsWholeWord w t) : P w := by
  obtain ⟨x, y, rfl, -, letters, before, behind⟩ := h
  have here := all.of_append before
  cases y with
  | nil =>
    rw [List.append_nil] at here
    exact here.of_letters letters
  | cons c y => exact (Worded.of_append_cons (stops_cons.mp behind) here).1.of_letters letters

theorem worded_of_spoken {P : Text → Prop} {t : Text} (dull : ∀ c ∈ t, Quoting.isDull c = true)
    (spoken : ∀ w ∈ (({} : Reader).read t).spoken, P w) : Worded P (fun _ => True) t := by
  suffices general : ∀ ws, (∀ w ∈ ((⟨.code, [], ws⟩ : Reader).read t).spoken, P w) →
      Worded P (fun _ => True) t from
    general [] spoken
  clear spoken
  induction t using words_induction with
  | last w letters =>
    intro ws spoken
    rw [Reader.read_word letters rfl] at spoken
    exact .last letters (spoken w List.mem_cons_self)
  | cons w h t letters mark ih =>
    intro ws spoken
    have code : Quoting.code.next h = .code := Quoting.next_of_isDull (dull h (by simp)) .code
    rw [Reader.read_append, Reader.read_word letters rfl, Reader.read_cons, Reader.next_of_not_isWord mark,
      List.nil_append, code] at spoken
    have here : P w := spoken w (List.mem_cons_of_mem _ (Reader.mem_words_read List.mem_cons_self t))
    exact .cons letters here mark trivial (ih (fun c mem => dull c (by simp [mem])) _ spoken)

theorem exists_last_word (t : Text) :
    ∃ u w, t = u ++ w ∧ (∀ c ∈ w, isWord c = true) ∧ Stops isWord u.reverse := by
  refine ⟨(t.reverse.dropWhile isWord).reverse, (t.reverse.takeWhile isWord).reverse, ?_, fun c mem => ?_, ?_⟩
  · rw [← List.reverse_append, List.takeWhile_append_dropWhile, List.reverse_reverse]
  · exact List.mem_takeWhile_imp (List.mem_reverse.mp mem)
  · rw [List.reverse_reverse]
    exact stops_dropWhile isWord _

/-! ## The words that replacements leave -/

/-- Whether a pattern passes over a whole word. -/
def Overlooked (p : Pattern Text) (w : Text) : Prop :=
  ∃ back rest, Stops isWord back ∧ Stops isWord rest ∧ p back (w ++ rest) = none

/-- Whether `w` is the word of a text at a point, and `w'` the word there once a pattern made its
replacements: the same word, which the pattern passed over, or another one that is spare and ends
there. -/
structure Pending (p : Pattern Text) (back t w w' : Text) : Prop where
  letters : ∀ c ∈ w, isWord c = true
  letters' : ∀ c ∈ w', isWord c = true
  before : ∃ x, back = w.reverse ++ x ∧ Stops isWord x ∧
    ((w' = w ∧ (w = [] ∨ p x (w ++ t) = none)) ∨ (w ≠ [] ∧ Stops isWord t ∧ Spare w'))

namespace Pending

variable {p : Pattern Text} {back t w w' : Text} {P : Text → Prop}

theorem nil (stop : Stops isWord back) : Pending p back t [] [] :=
  ⟨by simp, by simp, back, rfl, stop, .inl ⟨rfl, .inl rfl⟩⟩

theorem keep {c : CodePoint} (h : Pending p back (c :: t) w w') (letter : isWord c = true)
    (missed : p back (c :: t) = none) : w' = w ∧ Pending p (c :: back) t (w ++ [c]) (w ++ [c]) := by
  obtain ⟨x, rfl, stop, ⟨same, here⟩ | ⟨-, ended, -⟩⟩ := h.before
  · have letters : ∀ d ∈ w ++ [c], isWord d = true := by
      intro d mem
      rcases List.mem_append.mp mem with mem | mem
      · exact h.letters d mem
      · rw [List.mem_singleton.mp mem, letter]
    refine ⟨same, letters, letters, x, by simp, stop, .inl ⟨rfl, .inr ?_⟩⟩
    rw [List.append_assoc, List.singleton_append]
    rcases here with rfl | here
    · exact missed
    · exact here
  · rw [stops_cons.mp ended] at letter
    cases letter

theorem fits (h : Pending p back t w w') (stop : Stops isWord t) (known : P w) :
    Spare w' ∨ (P w' ∧ Overlooked p w') := by
  obtain ⟨x, -, before, ⟨rfl, here⟩ | ⟨-, -, spare⟩⟩ := h.before
  · rcases here with rfl | here
    · exact .inl spare_nil
    · exact .inr ⟨known, x, t, before, stop, here⟩
  · exact .inl spare

theorem eq_nil (h : Pending p back t w w') (stop : Stops isWord back) : w = [] ∧ w' = [] := by
  obtain ⟨x, rfl, -, ⟨rfl, -⟩ | ⟨ne, -, -⟩⟩ := h.before
  · have nothing := eq_nil_of_stops h.letters stop.of_append
    exact ⟨nothing, nothing⟩
  · exact absurd (eq_nil_of_stops h.letters stop.of_append) ne

end Pending

variable {p : Pattern Text} {P : Text → Prop}

theorem Swappable.pending {back a v a' v' rest : Text} (swap : Swappable back (a ++ v) (a' ++ v') rest)
    (start : Stops isWord back) (letters : ∀ c ∈ v, isWord c = true) (letters' : ∀ c ∈ v', isWord c = true)
    (stop : Stops isWord a.reverse) (spare : Spare v') : Pending p ((a ++ v).reverse ++ back) rest v v' := by
  refine ⟨letters, letters', a.reverse ++ back, by simp, ?_, ?_⟩
  · cases a using List.reverseRecOn with
    | nil => exact start
    | append_singleton a h => exact Stops.append stop (by simp)
  · by_cases nothing : v = []
    · subst nothing
      have ended := swap.ends (by simpa using stop)
      rw [List.reverse_append] at ended
      exact .inl ⟨eq_nil_of_stops letters' ended.of_append, .inl rfl⟩
    · refine .inr ⟨nothing, swap.right.resolve_right fun ended => nothing ?_, spare⟩
      rw [List.reverse_append] at ended
      exact eq_nil_of_stops letters ended.of_append

theorem worded_cuts (swaps : Swaps p) {back t : Text} {pieces : List (Piece Text)}
    (h : Cuts p back t pieces) :
    ∀ w w', Pending p back t w w' → Worded P (fun _ => True) (w ++ t) →
      Worded (fun w => Spare w ∨ (P w ∧ Overlooked p w)) (fun _ => True)
        (w' ++ pieces.flatMap Piece.replaced) := by
  induction h with
  | done back =>
    intro w w' pending all
    rw [List.append_nil] at all
    rw [List.flatMap_nil, List.append_nil]
    exact .last pending.letters' (pending.fits stops_nil (all.of_letters pending.letters))
  | @plain back rest c pieces missed later ih =>
    intro w w' pending all
    show Worded _ _ (w' ++ c :: pieces.flatMap Piece.replaced)
    by_cases letter : isWord c = true
    · obtain ⟨rfl, next⟩ := pending.keep letter missed
      simpa using ih _ _ next (by simpa using all)
    · rw [Bool.not_eq_true] at letter
      obtain ⟨first, second⟩ := Worded.of_append_cons letter all
      have here := pending.fits (stops_cons.mpr letter) (first.of_letters pending.letters)
      exact .cons pending.letters' here letter trivial (ih [] [] (.nil (stops_cons.mpr letter)) second)
  | @found back m rest m' pieces ne here later ih =>
    intro w w' pending all
    have swap := swaps.swappable here
    show Worded _ _ (w' ++ (m' ++ pieces.flatMap Piece.replaced))
    rcases swap.left with ⟨start, spoken⟩ | ⟨others, others'⟩
    · -- a whole word gives way, and nothing was read of the next
      obtain ⟨rfl, rfl⟩ := pending.eq_nil start
      have spare := worded_of_spoken swap.dull' spoken
      obtain ⟨a, v, rfl, letters, stop⟩ := exists_last_word m
      obtain ⟨a', v', rfl, letters', stop'⟩ := exists_last_word m'
      rw [List.nil_append, List.append_assoc] at all
      have next := ih v v'
        (swap.pending start letters letters' stop ((spare.of_append stop').of_letters letters'))
        (all.of_append stop)
      rw [List.nil_append, List.append_assoc]
      exact (spare.mono fun _ => .inl).append stop' next fun _ => trivial
    · -- signs give way to signs, so a word ends before them and none is pending behind them
      obtain ⟨c, m, rfl⟩ := List.exists_cons_of_ne_nil ne
      obtain ⟨c', m', rfl⟩ := List.exists_cons_of_ne_nil swap.ne'
      have behind : Stops isWord (c :: m).reverse := by
        intro d last
        exact others d (List.mem_reverse.mp (List.mem_of_mem_head? last))
      have mark := others c List.mem_cons_self
      obtain ⟨first, second⟩ := Worded.of_append_cons mark all
      have here := pending.fits (stops_cons.mpr mark) (first.of_letters pending.letters)
      rw [← List.append_assoc] at all
      have next := ih [] [] (.nil (behind.append (by simp))) (all.of_append (by
        rw [List.reverse_append]
        exact behind.append (by simp)))
      obtain ⟨mark', others'⟩ := List.forall_mem_cons.mp others'
      exact .cons pending.letters' here mark' trivial
        (next.append_signs others' (.inl spare_nil) fun _ => trivial)

/-- The words that a replacement leaves are those that the pattern passed over, or came in with it. -/
theorem worded_replaceAll (swaps : Swaps p) {t : Text} (all : Worded P (fun _ => True) t) :
    Worded (fun w => Spare w ∨ (P w ∧ Overlooked p w)) (fun _ => True) (Text.replaceAll p t) :=
  worded_cuts swaps (Text.cuts_cut swaps.fronts t) [] [] (.nil stops_nil) all

theorem worded_inTurn {ps : List (Pattern Text)} (swaps : ∀ p ∈ ps, Swaps p) {t : Text}
    (all : Worded P (fun _ => True) t) :
    Worded (fun w => Spare w ∨ (P w ∧ ∀ p ∈ ps, Overlooked p w)) (fun _ => True)
      (Vocabulary.inTurn ps t) := by
  induction ps generalizing P t with
  | nil => exact all.mono fun w known => .inr ⟨known, by simp⟩
  | cons p ps ih =>
    obtain ⟨here, later⟩ := List.forall_mem_cons.mp swaps
    refine (ih later (worded_replaceAll here all)).mono fun w known => ?_
    rcases known with spare | ⟨spare | ⟨known, first⟩, others⟩
    · exact .inl spare
    · exact .inl spare
    · exact .inr ⟨known, List.forall_mem_cons.mpr ⟨first, others⟩⟩

namespace Vocabulary

/-! ## The signs that replacements leave -/

theorem part_cons {c : CodePoint} {t : Text} :
    "<>".toText <:+: c :: t ↔ (c = '<' ∧ t.head? = some (.char '>')) ∨ "<>".toText <:+: t := by
  rw [List.infix_cons_iff]
  refine or_congr_left ?_
  show [CodePoint.char '<', .char '>'] <+: c :: t ↔ _
  rw [List.cons_prefix_cons]
  refine and_congr eq_comm ?_
  cases t with
  | nil => simp
  | cons d t => simp [List.cons_prefix_cons, eq_comm]

/-- Behind the replacement of `<>` there is none left, and no `>` comes to the front. -/
theorem noPart_cuts_inequality {back t : Text} {pieces : List (Piece Text)}
    (h : Cuts inequality back t pieces) :
    ¬"<>".toText <:+: pieces.flatMap Piece.replaced ∧
      ((pieces.flatMap Piece.replaced).head? = some (.char '>') → t.head? = some (.char '>')) := by
  induction h with
  | done => decide
  | @plain back rest c pieces missed later ih =>
    show ¬"<>".toText <:+: c :: pieces.flatMap Piece.replaced ∧ (some c = _ → some c = _)
    refine ⟨fun part => ?_, id⟩
    rcases part_cons.mp part with ⟨rfl, next⟩ | inside
    · obtain ⟨d, rest, rfl⟩ : ∃ d more, rest = d :: more := by
        cases rest with
        | nil => exact absurd (ih.2 next) (by simp)
        | cons d more => exact ⟨d, more, rfl⟩
      rw [Item.inequality_cons_cons, if_pos ⟨rfl, by simpa using ih.2 next⟩] at missed
      cases missed
    · exact ih.1 inside
  | @found back m rest m' pieces ne here later ih =>
    obtain rfl : m' = "!=".toText := by
      unfold inequality at here
      split at here
      · exact (Prod.mk.inj (Option.some.inj here)).1.symm
      · cases here
    show ¬"<>".toText <:+: .char '!' :: .char '=' :: pieces.flatMap Piece.replaced ∧
        (some (CodePoint.char '!') = _ → _)
    rw [part_cons, part_cons]
    simpa using ih.1

theorem equality_eq_some {back m rest m' : Text} (here : equality back (m ++ rest) = some (m', rest)) :
    m = "=".toText ∧ m' = "==".toText := by
  generalize whole : m ++ rest = t at here
  unfold equality at here
  split at here
  · split at here
    · cases here
    · cases here
      exact ⟨List.append_cancel_right (whole.trans (List.singleton_append).symm), rfl⟩
  · cases here

/-- The replacement of `=` keeps the first character. -/
theorem head?_cuts_equality {back t : Text} {pieces : List (Piece Text)} (h : Cuts equality back t pieces) :
    (pieces.flatMap Piece.replaced).head? = t.head? := by
  cases h with
  | done => rfl
  | plain => rfl
  | found ne here =>
    obtain ⟨rfl, rfl⟩ := equality_eq_some here
    rfl

/-- The replacement of `=` makes no `<>`. -/
theorem noPart_cuts_equality {back t : Text} {pieces : List (Piece Text)} (h : Cuts equality back t pieces)
    (absent : ¬"<>".toText <:+: t) : ¬"<>".toText <:+: pieces.flatMap Piece.replaced := by
  induction h with
  | done => exact absent
  | @plain back rest c pieces _ later ih =>
    rw [part_cons, not_or] at absent
    show ¬"<>".toText <:+: c :: pieces.flatMap Piece.replaced
    rw [part_cons, not_or, head?_cuts_equality later]
    exact ⟨absent.1, ih absent.2⟩
  | @found back m rest m' pieces ne here later ih =>
    obtain ⟨rfl, rfl⟩ := equality_eq_some here
    replace absent : ¬"<>".toText <:+: .char '=' :: rest := absent
    rw [part_cons, not_or] at absent
    show ¬"<>".toText <:+: .char '=' :: .char '=' :: pieces.flatMap Piece.replaced
    rw [part_cons, part_cons]
    simpa using ih absent.2

/-- Whether every equals sign of a text is part of a longer sign; `back` is the text before it, reversed. -/
def Settled (back t : Text) : Prop :=
  ∀ x y, t = x ++ .char '=' :: y →
    (x.reverse ++ back).head?.any extendsEquals = true ∨ y.head? = some (.char '=')

theorem Settled.cons {back t : Text} {c : CodePoint} (later : Settled (c :: back) t)
    (here : c = '=' → back.head?.any extendsEquals = true ∨ t.head? = some (.char '=')) :
    Settled back (c :: t) := by
  intro x y whole
  cases x with
  | nil =>
    obtain ⟨rfl, rfl⟩ := List.cons.inj whole
    exact here rfl
  | cons d x =>
    obtain ⟨rfl, rfl⟩ := List.cons.inj whole
    simpa using later x y rfl

/-- Behind the replacement of `=` every equals sign is part of a longer sign. -/
theorem settled_cuts_equality {back t : Text} {pieces : List (Piece Text)} (h : Cuts equality back t pieces) :
    ∀ back', back'.head? = back.head? → Settled back' (pieces.flatMap Piece.replaced) := by
  induction h with
  | done =>
    intro back' _ x y whole
    simp at whole
  | @plain back rest c pieces missed later ih =>
    intro back' same
    refine (ih (c :: back') rfl).cons fun equals => ?_
    rw [Item.equality_cons, ite_eq_right_iff] at missed
    rw [same, head?_cuts_equality later]
    by_contra apart
    rw [not_or, Bool.not_eq_true] at apart
    cases missed ⟨equals, apart.1, apart.2⟩
  | @found back m rest m' pieces ne here later ih =>
    intro back' same
    obtain ⟨rfl, rfl⟩ := equality_eq_some here
    refine Settled.cons (Settled.cons (ih _ rfl) fun _ => .inl rfl) fun _ => .inr rfl

/-! ## Symbolic code -/

/-- The words that have symbols, in small letters. -/
def operatorWords : List Text := ["and", "xor", "or", "not", "mod"].map String.toText

/-- The words for truth values, in small letters. -/
def truthWords : List Text := ["true", "false"].map String.toText

/-- Whether nothing in a text would be replaced: it has no operator word in any letter case, truth
values in small letters alone, no `<>`, and no equals sign on its own. -/
structure Symbolic (t : Text) : Prop where
  operators : ∀ w, IsWholeWord w t → w.map looseLetter ∉ operatorWords
  truths : ∀ w, IsWholeWord w t → w.map looseLetter ∈ truthWords → w ∈ truthWords
  unequal : ¬"<>".toText <:+: t
  equal : ∀ x y, t = x ++ .char '=' :: y → x.getLast?.any extendsEquals = true ∨ y.head? = some (.char '=')

/-- A word that is neither an operator nor a truth value in capitals. -/
def IsPlainWord (w : Text) : Prop :=
  w.map looseLetter ∉ operatorWords ∧ (w.map looseLetter ∈ truthWords → w ∈ truthWords)

theorem isPlainWord_of_spare {w : Text} (spare : Spare w) : IsPlainWord w := by
  rw [Spare, isSpare, Bool.or_eq_true, Bool.or_eq_true, List.isEmpty_iff] at spare
  rcases spare with (rfl | constant) | digit
  · rw [IsPlainWord]
    decide
  · obtain ⟨v, stands⟩ := Option.isSome_iff_exists.mp constant
    have mem := mem_of_lookup stands
    simp only [List.mem_cons, Prod.mk.injEq, List.not_mem_nil, or_false] at mem
    rw [IsPlainWord]
    rcases mem with ⟨rfl, -⟩ | ⟨rfl, -⟩ | ⟨rfl, -⟩ | ⟨rfl, -⟩ | ⟨rfl, -⟩ <;> decide
  · -- no such word starts with a digit
    cases w with
    | nil => cases digit
    | cons c w =>
      have first := forall_digit (P := fun c => !"axonmtf".toText.contains (looseLetter c)) (by decide) digit
      have letters : ∀ k ∈ operatorWords ++ truthWords, ∀ d ∈ k.head?,
          "axonmtf".toText.contains d = true := by
        decide
      have absent : (c :: w).map looseLetter ∉ operatorWords ++ truthWords := by
        intro mem
        rw [letters _ mem _ rfl] at first
        cases first
      rw [List.mem_append, not_or] at absent
      exact ⟨absent.1, fun mem => absurd mem absent.2⟩

theorem not_spelled_of_overlooked {keyword replacement w : Text}
    (h : Overlooked (word keyword replacement) w) :
    w.map looseLetter ≠ keyword := by
  obtain ⟨back, rest, before, behind, missed⟩ := h
  intro spelled
  rw [word, dropKeyword?_spelled spelled before behind] at missed
  cases missed

theorem isPlainWord_of_overlooked {w : Text} (overlooked : ∀ p ∈ replacements, Overlooked p w) :
    IsPlainWord w := by
  simp only [replacements, List.forall_mem_cons] at overlooked
  obtain ⟨and, xor, or, ⟨back, rest, before, behind, missed⟩, mod, truth, falsity, -⟩ := overlooked
  have not : w.map looseLetter ≠ "not".toText := by
    intro spelled
    rw [negation, dropKeyword?_spelled spelled before behind] at missed
    cases missed
  constructor
  · simp [operatorWords, not, not_spelled_of_overlooked and, not_spelled_of_overlooked xor,
      not_spelled_of_overlooked or, not_spelled_of_overlooked mod]
  · simp [truthWords, not_spelled_of_overlooked truth, not_spelled_of_overlooked falsity]

theorem symbolic_symbolizeCode (t : Text) : Symbolic (symbolizeCode t) := by
  have plain {w : Text} (whole : IsWholeWord w (symbolizeCode t)) : IsPlainWord w := by
    have words := worded_inTurn swaps_replacements (@worded_of_signs (fun _ => True) t fun _ _ _ => trivial)
    rw [← symbolizeCode_eq_inTurn] at words
    rcases words.of_isWholeWord whole with spare | ⟨-, overlooked⟩
    · exact isPlainWord_of_spare spare
    · exact isPlainWord_of_overlooked overlooked
  have last : symbolizeCode t =
      Text.replaceAll equality (Text.replaceAll inequality (inTurn (replacements.take 7) t)) := by
    have whole : replacements = replacements.take 7 ++ [inequality, equality] := rfl
    rw [symbolizeCode, whole, List.foldl_append, List.foldl_cons, List.foldl_cons, List.foldl_nil,
      ← whole, inTurn]
  generalize inTurn (replacements.take 7) t = u at last
  have first := (noPart_cuts_inequality (Text.cuts_cut swaps_inequality.fronts u)).1
  have second := Text.cuts_cut swaps_equality.fronts (Text.replaceAll inequality u)
  refine ⟨fun w whole => (plain whole).1, fun w whole => (plain whole).2, ?_, fun x y whole => ?_⟩
  · rw [last]
    exact noPart_cuts_equality second first
  · rw [last] at whole
    have settled := settled_cuts_equality second [] rfl x y whole
    rwa [List.append_nil, List.head?_reverse] at settled

/-- A replacement that puts back what it takes changes nothing. -/
theorem replaceAll_of_same {p : Pattern Text} {t : Text} (fronts : Text.Fronts p)
    (same : ∀ x m m' rest, t = x ++ (m ++ rest) → p x.reverse (m ++ rest) = some (m', rest) → m' = m) :
    Text.replaceAll p t = t := by
  have run {back u : Text} {pieces : List (Piece Text)} (h : Cuts p back u pieces) :
      ∀ x, back = x.reverse → t = x ++ u → pieces.flatMap Piece.replaced = u := by
    induction h with
    | done => exact fun _ _ _ => rfl
    | @plain back rest c pieces _ _ ih =>
      rintro x rfl whole
      exact congrArg (c :: ·) (ih (x ++ [c]) (by simp) (by simp [whole]))
    | @found back m rest m' pieces _ here _ ih =>
      rintro x rfl whole
      obtain rfl := same x m m' rest whole here
      exact congrArg (m' ++ ·) (ih (x ++ m') (by simp) (by simp [whole]))
  exact run (Text.cuts_cut fronts t) [] rfl rfl

theorem letters_of_mem_words : ∀ k ∈ operatorWords ++ truthWords, k ≠ [] ∧ ∀ c ∈ k, isWord c = true := by
  decide

theorem isWholeWord_of_dropKeyword? {t keyword x y after : Text} (mem : keyword ∈ operatorWords ++ truthWords)
    (split : t = x ++ y) (found : dropKeyword? keyword x.reverse y = some after) :
    ∃ m, y = m ++ after ∧ m.map looseLetter = keyword ∧ IsWholeWord m t := by
  obtain ⟨ne, letters⟩ := letters_of_mem_words keyword mem
  obtain ⟨m, rfl, spelled, before, behind⟩ := spelled_of_dropKeyword? found
  refine ⟨m, rfl, spelled, x, after, split, ?_, fun c mem => ?_, before, behind⟩
  · rintro rfl
    exact ne spelled.symm
  · rw [← isWord_looseLetter]
    exact letters _ (spelled ▸ List.mem_map_of_mem mem)

namespace Symbolic

variable {t : Text} (h : Symbolic t)
include h

theorem dropKeyword?_eq_none {keyword x y : Text} (mem : keyword ∈ operatorWords) (split : t = x ++ y) :
    dropKeyword? keyword x.reverse y = none := by
  rw [Option.eq_none_iff_forall_ne_some]
  intro after found
  obtain ⟨m, -, spelled, whole⟩ := isWholeWord_of_dropKeyword? (List.mem_append_left _ mem) split found
  exact h.operators m whole (spelled ▸ mem)

theorem replaceAll_operator {keyword : Text} (mem : keyword ∈ operatorWords) (replacement : Text) :
    Text.replaceAll (word keyword replacement) t = t := by
  refine Text.replaceAll_of_none fun x y split _ => ?_
  rw [word, h.dropKeyword?_eq_none mem split]
  rfl

theorem replaceAll_truth {keyword : Text} (mem : keyword ∈ truthWords) (symbol : IsSymbol keyword) :
    Text.replaceAll (word keyword keyword) t = t := by
  obtain ⟨ne, letters⟩ := letters_of_mem_words keyword (List.mem_append_right _ mem)
  refine replaceAll_of_same (swaps_word ⟨ne, letters⟩ symbol).fronts fun x m m' rest split found => ?_
  obtain ⟨after, dropped, same⟩ := Option.map_eq_some_iff.mp found
  cases same
  obtain ⟨m₀, front, spelled, whole⟩ :=
    isWholeWord_of_dropKeyword? (List.mem_append_right _ mem) split dropped
  obtain rfl := List.append_cancel_right front
  have small : ∀ k ∈ truthWords, k.map looseLetter = k := by decide
  rw [← spelled, small m (h.truths m whole (spelled ▸ mem))]

theorem replaceAll_inequality : Text.replaceAll inequality t = t := by
  refine Text.replaceAll_of_none fun x y whole _ => ?_
  unfold inequality
  split
  · next rest _ =>
    refine absurd ⟨x, rest, ?_⟩ h.unequal
    rw [whole, List.append_assoc]
    rfl
  · rfl

theorem replaceAll_equality : Text.replaceAll equality t = t := by
  refine Text.replaceAll_of_none fun x y split some => ?_
  obtain ⟨c, y, rfl⟩ := List.exists_cons_of_ne_nil some
  rw [Item.equality_cons, if_neg]
  rintro ⟨rfl, before, behind⟩
  rcases h.equal x y split with part | part
  · rw [List.head?_reverse, part] at before
    cases before
  · exact behind part

theorem symbolizeCode_eq : symbolizeCode t = t := by
  refine Item.symbolizeCode_of_fixed ?_
  simp only [replacements, List.forall_mem_cons]
  have negated : Text.replaceAll negation t = t := by
    refine Text.replaceAll_of_none fun x y split _ => ?_
    rw [negation, h.dropKeyword?_eq_none (by decide) split]
    rfl
  refine ⟨h.replaceAll_operator (by decide) _, h.replaceAll_operator (by decide) _,
    h.replaceAll_operator (by decide) _, negated, h.replaceAll_operator (by decide) _,
    h.replaceAll_truth (by decide) ?_, h.replaceAll_truth (by decide) ?_, h.replaceAll_inequality,
    h.replaceAll_equality, by simp⟩
  all_goals exact ⟨by decide, by decide, by decide, by decide⟩

end Symbolic

/-- **Nothing is left of the vocabulary.** The literals of a text stay as they are; its code has no
operator word in any letter case, no `<>` and no equals sign on its own, and truth values in small
letters alone. A text is left as it is just if this holds of its code already, so that a second run
changes nothing. -/
theorem symbolize_vocabulary (t : Text) :
    (Alternation.ofText (symbolize t)).literals = (Alternation.ofText t).literals ∧
      (∀ v ∈ (Alternation.ofText (symbolize t)).codes, Symbolic v) ∧
      symbolize (symbolize t) = symbolize t ∧
      (symbolize t = t ↔ ∀ u ∈ (Alternation.ofText t).codes, Symbolic u) := by
  have codes (t : Text) : ∀ v ∈ (Alternation.ofText (symbolize t)).codes, Symbolic v := by
    intro v mem
    rw [ofText_symbolize, Alternation.codes_mapCode] at mem
    obtain ⟨u, -, rfl⟩ := List.mem_map.mp mem
    exact symbolic_symbolizeCode u
  have fixed {t : Text} (symbolic : ∀ u ∈ (Alternation.ofText t).codes, Symbolic u) : symbolize t = t := by
    have kept := @Alternation.mapCode_eq_self (Alternation.ofText t) symbolizeCode fun u mem =>
      (symbolic u mem).symbolizeCode_eq
    rw [symbolize, kept, Alternation.text_ofText]
  refine ⟨?_, codes t, fixed (codes t), fun same => ?_, fixed⟩
  · rw [ofText_symbolize, Alternation.literals_mapCode]
  · have := codes t
    rwa [same] at this

end Vocabulary
end SclNarrator
