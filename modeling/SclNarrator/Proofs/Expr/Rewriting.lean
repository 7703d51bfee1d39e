import SclNarrator.Expr.Parse
import SclNarrator.Run.Environment
import SclNarrator.Proofs.Expr.Variables
import SclNarrator.Proofs.Text.Keyword

/-!
What replacing operator words and signs does to the words of an expression. A replacement takes a whole
word or signs and leaves signs or a constant (`Swappable`), so a reader meets no word behind it that it
did not meet before, constants apart (`reads_of_rewrites`). This holds of all replacements one after the
other and, since a literal is read the same before and after, of the whole text (`reads_symbolize`).
-/

namespace SclNarrator

open Quoting (isDull isDull_of_class isDull_of_isWord)

/-- Whether a word is none that a variable can be: it is empty, a constant, or starts with a digit. -/
def isSpare (w : Text) : Bool :=
  w.isEmpty || (Token.constant? w).isSome || w.head?.any CodePoint.isDigit

abbrev Spare (w : Text) : Prop := isSpare w = true

theorem spare_nil : Spare [] := rfl

namespace Reader

/-- What was met before changes nothing but what was met. -/
theorem read_words (q : Quoting) (w : Text) (ws : List Text) (t : Text) :
    (⟨q, w, ws⟩ : Reader).read t =
      ⟨((⟨q, w, []⟩ : Reader).read t).quoting, ((⟨q, w, []⟩ : Reader).read t).word,
        ((⟨q, w, []⟩ : Reader).read t).words ++ ws⟩ := by
  induction t generalizing q w ws with
  | nil => rfl
  | cons c t ih =>
    rw [read_cons, read_cons]
    by_cases code : q = .code ∧ isWord c = true
    · rw [next_of_isWord code.1 code.2, next_of_isWord code.1 code.2]
      exact ih q (w ++ [c]) ws
    · have step (us : List Text) : (⟨q, w, us⟩ : Reader).next c = ⟨q.next c, [], w :: us⟩ := if_neg code
      rw [step, step, ih, ih _ _ [w]]
      simp

theorem read_of_not_code {t : Text} (dull : ∀ c ∈ t, isDull c = true) {r : Reader} (word : r.word = [])
    (code : r.quoting ≠ .code) : (r.read t).word = [] ∧ ∀ w ∈ (r.read t).words, w = [] ∨ w ∈ r.words := by
  induction t generalizing r with
  | nil => exact ⟨word, fun w mem => .inr mem⟩
  | cons c t ih =>
    rw [List.forall_mem_cons] at dull
    rw [read_cons, next_of_not_code code]
    have still : r.quoting.next c ≠ .code := by
      rw [Quoting.next_of_isDull dull.1]
      cases quoting : r.quoting with
      | code => exact absurd quoting code
      | escape =>
        simp only [Quoting.settled]
        split
        · decide
        · decide
      | apostrophes | quotes | broken => simp [Quoting.settled]
    obtain ⟨ended, met⟩ := ih (r := ⟨r.quoting.next c, [], r.word :: r.words⟩) dull.2 rfl still
    refine ⟨ended, fun w mem => ?_⟩
    rcases met w mem with rfl | mem
    · exact .inl rfl
    · rcases List.mem_cons.mp mem with rfl | mem
      · exact .inl word
      · exact .inr mem

/-- Characters that belong to no word end the word at hand and bring no other. -/
theorem words_of_others {t : Text} (others : ∀ c ∈ t, isWord c = false) (r : Reader) :
    ∀ w ∈ (r.read t).words, w = [] ∨ w = r.word ∨ w ∈ r.words := by
  induction t generalizing r with
  | nil => exact fun w mem => .inr (.inr mem)
  | cons c t ih =>
    rw [List.forall_mem_cons] at others
    rw [read_cons, next_of_not_isWord others.1]
    intro w mem
    rcases ih others.2 _ w mem with none | none | mem
    · exact .inl none
    · exact .inl none
    · exact .inr (List.mem_cons.mp mem)

end Reader

/-! ## Stretches that can be swapped -/

/-- Whether a stretch between two texts can give way to another one: both have no quotes, they are words
that no others touch or signs alone, and what comes in has only words that are spare. -/
structure Swappable (back m m' rest : Text) : Prop where
  ne : m ≠ []
  ne' : m' ≠ []
  dull : ∀ c ∈ m, isDull c = true
  dull' : ∀ c ∈ m', isDull c = true
  line : m.head? ≠ some '\n'
  line' : m'.head? ≠ some '\n'
  left : (Stops isWord back ∧ ∀ w ∈ (({} : Reader).read m').spoken, Spare w) ∨
    ((∀ c ∈ m, isWord c = false) ∧ ∀ c ∈ m', isWord c = false)
  right : Stops isWord rest ∨ Stops isWord m.reverse
  ends : Stops isWord m.reverse → Stops isWord m'.reverse

namespace Swappable

variable {back m m' rest : Text} {a b : Reader}

theorem quoting (h : Swappable back m m' rest) (same : a.quoting = b.quoting) :
    (a.read m').quoting = (b.read m).quoting := by
  obtain ⟨c, m, rfl⟩ := List.exists_cons_of_ne_nil h.ne
  obtain ⟨c', m', rfl⟩ := List.exists_cons_of_ne_nil h.ne'
  have line : c ≠ '\n' := by simpa using h.line
  have line' : c' ≠ '\n' := by simpa using h.line'
  rw [Reader.quoting_read, Reader.quoting_read, Quoting.after_of_isDull h.dull,
    Quoting.after_of_isDull h.dull', same]
  cases b.quoting with
  | escape => simp [Quoting.settled, line, line']
  | code | apostrophes | quotes | broken => rfl

theorem met (h : Swappable back m m' rest) (idle : Reader.Idle back a) :
    Spare (a.read m').word ∧
      ∀ w ∈ (a.read m').words, Spare w ∨ w ∈ a.words ∨ (w = a.word ∧ Stops isWord m) := by
  rcases h.left with ⟨stop, spare⟩ | ⟨others, others'⟩
  · have word := idle stop
    by_cases code : a.quoting = .code
    · -- in code the words are those of the stretch alone
      have whole : a = ⟨.code, [], a.words⟩ := by rw [← code, ← word]
      rw [whole, Reader.read_words]
      refine ⟨spare _ List.mem_cons_self, fun w mem => ?_⟩
      rcases List.mem_append.mp mem with mem | mem
      · exact .inl (spare w (List.mem_cons_of_mem _ mem))
      · exact .inr (.inl mem)
    · obtain ⟨ended, met⟩ := Reader.read_of_not_code h.dull' word code
      refine ⟨ended ▸ spare_nil, fun w mem => ?_⟩
      rcases met w mem with rfl | mem
      · exact .inl spare_nil
      · exact .inr (.inl mem)
  · refine ⟨by rw [Reader.word_read h.ne' others']; exact spare_nil, fun w mem => ?_⟩
    rcases Reader.words_of_others others' a w mem with rfl | same | mem
    · exact .inl spare_nil
    · exact .inr (.inr ⟨same, fun c first => others c (List.mem_of_mem_head? first)⟩)
    · exact .inr (.inl mem)

theorem covers (h : Swappable back m m' rest) (idle : Reader.Idle back a)
    (covered : Covers Spare (m ++ rest) a b) : Covers Spare rest (a.read m') (b.read m) := by
  obtain ⟨word, met⟩ := h.met idle
  refine ⟨h.quoting covered.quoting, fun w mem => ?_, ?_⟩
  · rcases met w mem with spare | mem | ⟨rfl, start⟩
    · exact .inr spare
    · exact (covered.words w mem).imp_left fun mem => Reader.mem_words_read mem m
    · rcases covered.word with same | ⟨-, spare⟩
      · -- the word at hand is over for both
        obtain ⟨c, m, rfl⟩ := List.exists_cons_of_ne_nil h.ne
        rw [Reader.read_cons, Reader.next_of_not_isWord (stops_cons.mp start), same]
        exact .inl (Reader.mem_words_read List.mem_cons_self m)
      · exact .inr spare
  · rcases h.right with stop | ends
    · exact .inr ⟨stop, word⟩
    · have first := Reader.idle_read h.ne [] b
      have second := Reader.idle_read h.ne' [] a
      rw [List.append_nil] at first second
      exact .inl (by rw [first ends, second (h.ends ends)])

/-- Behind the stretch that comes in a reader is in no word if the other one ended outside of a word. -/
theorem idle (h : Swappable back m m' rest) : Reader.Idle (m.reverse ++ back) (a.read m') := by
  intro stop
  have ends : Stops isWord m.reverse := by
    intro c mem
    refine stop c ?_
    rw [List.head?_append, Option.mem_def.mp mem]
    rfl
  have second := Reader.idle_read h.ne' [] a
  rw [List.append_nil] at second
  exact second (h.ends ends)

end Swappable

theorem head?_ne_line {m : Text} (words : ∀ c ∈ m, isWord c = true) : m.head? ≠ some '\n' := by
  intro first
  have := words _ (List.mem_of_mem_head? first)
  cases this

/-- What can come in for a whole word. -/
structure IsSymbol (m' : Text) : Prop where
  ne : m' ≠ []
  dull : ∀ c ∈ m', isDull c = true
  line : m'.head? ≠ some '\n'
  spare : ∀ w ∈ (({} : Reader).read m').spoken, Spare w

theorem IsSymbol.swappable {back m m' rest : Text} (symbol : IsSymbol m') (ne : m ≠ [])
    (words : ∀ c ∈ m, isWord c = true) (before : Stops isWord back) (behind : Stops isWord rest) :
    Swappable back m m' rest where
  ne
  ne' := symbol.ne
  dull c mem := isDull_of_isWord (words c mem)
  dull' := symbol.dull
  line := head?_ne_line words
  line' := symbol.line
  left := .inl ⟨before, symbol.spare⟩
  right := .inl behind
  ends ends := by
    -- a word ends in a word character
    obtain ⟨c, more, last⟩ := List.exists_cons_of_ne_nil (List.reverse_ne_nil_iff.mpr ne)
    have letter := words c (List.mem_reverse.mp (last ▸ List.mem_cons_self))
    rw [last, stops_cons, letter] at ends
    cases ends

/-- Whether a text reads as another one: from readers of which the first covers the second, both outside
of words, the first of them covers the second again behind the texts. -/
def Reads (t' t : Text) : Prop :=
  ∀ a b : Reader, a.word = [] → b.word = [] → Covers Spare [] a b → Covers Spare [] (a.read t') (b.read t)

theorem Reads.refl (t : Text) : Reads t t := by
  intro a b idle idle' covered
  have start : Covers Spare (t ++ []) a b := ⟨covered.quoting, covered.words, .inl (idle.trans idle'.symm)⟩
  exact start.read

theorem Reads.trans {t u v : Text} (first : Reads v u) (second : Reads u t) : Reads v t :=
  fun a b idle idle' covered =>
    (first a b idle idle' covered).trans (second b b idle' idle' (.refl b))

theorem reads_of_rewrites {t out : Text} (h : Rewrites Swappable [] t out) : Reads out t := by
  intro a b idle idle' covered
  have start : Covers Spare t a b := ⟨covered.quoting, covered.words, .inl (idle.trans idle'.symm)⟩
  have whole := Rewrites.read (fun back rest a b => Covers Spare rest a b ∧ Reader.Idle back a)
    (fun back c rest a b kept => ⟨kept.1.next, Reader.idle_next back c a⟩)
    (fun back m m' rest a b swap kept => ⟨swap.covers kept.2 kept.1, swap.idle⟩)
    h a b ⟨start, fun _ => idle⟩
  exact whole.1

/-- Whether a pattern only takes stretches that can give way to what it puts in their place. -/
def Swaps (p : Pattern Text) : Prop :=
  ∀ back t m' rest, p back t = some (m', rest) → ∃ m, t = m ++ rest ∧ Swappable back m m' rest

theorem Swaps.fronts {p : Pattern Text} (swaps : Swaps p) : Text.Fronts p := by
  intro back t m' rest found
  obtain ⟨m, whole, swap⟩ := swaps back t m' rest found
  exact ⟨m, swap.ne, whole⟩

theorem Swaps.swappable {p : Pattern Text} (swaps : Swaps p) {back m m' rest : Text}
    (found : p back (m ++ rest) = some (m', rest)) : Swappable back m m' rest := by
  obtain ⟨m₀, whole, swap⟩ := swaps _ _ _ _ found
  obtain rfl := List.append_cancel_right whole
  exact swap

theorem Swaps.rewrites {p : Pattern Text} (swaps : Swaps p) (t : Text) :
    Rewrites Swappable [] t (Text.replaceAll p t) := by
  have run {back t : Text} {pieces : List (Piece Text)} (h : Text.Cuts p back t pieces) :
      Rewrites Swappable back t (pieces.flatMap Piece.replaced) := by
    induction h with
    | done back => exact .done back
    | plain _ _ ih => exact .keep _ ih
    | found ne here _ ih => exact .swap (swaps.swappable here) ih
  exact run (Text.cuts_cut swaps.fronts t)

/-! ## The replacements -/

namespace Vocabulary

theorem swaps_word {keyword replacement : Text} (letters : keyword ≠ [] ∧ ∀ k ∈ keyword, isWord k = true)
    (symbol : IsSymbol replacement) : Swaps (word keyword replacement) := by
  intro back t m' rest found
  obtain ⟨after, dropped, same⟩ := Option.map_eq_some_iff.mp found
  cases same
  obtain ⟨m, rfl, length, words, before, behind⟩ := word_of_dropKeyword? letters.2 dropped
  have ne : m ≠ [] := by
    rintro rfl
    exact letters.1 (List.eq_nil_of_length_eq_zero length.symm)
  exact ⟨m, rfl, symbol.swappable ne words before behind⟩

theorem swaps_negation : Swaps negation := by
  intro back t m' rest found
  obtain ⟨after, dropped, same⟩ := Option.map_eq_some_iff.mp found
  cases same
  obtain ⟨m, rfl, length, words, before, behind⟩ := word_of_dropKeyword? (by decide) dropped
  have ne : m ≠ [] := by
    rintro rfl
    cases length
  refine ⟨m ++ after.takeWhile isBlank, by rw [List.append_assoc, List.takeWhile_append_dropWhile], ?_⟩
  exact {
    ne := by simp [ne]
    ne' := by decide
    dull := fun c mem => by
      rcases List.mem_append.mp mem with mem | mem
      · exact isDull_of_isWord (words c mem)
      · exact isDull_of_class (by decide) (List.mem_takeWhile_imp mem)
    dull' := by decide
    line := by
      rw [List.head?_append_of_ne_nil _ ne]
      exact head?_ne_line words
    line' := by decide
    left := .inl ⟨before, by decide⟩
    right := by
      cases blanks : after.takeWhile isBlank with
      | nil =>
        left
        have whole := List.takeWhile_append_dropWhile (p := isBlank) (l := after)
        rw [blanks, List.nil_append] at whole
        rwa [whole]
      | cons d more =>
        right
        rw [List.reverse_append, ← blanks]
        refine Stops.append ?_ (by simp [blanks])
        intro c last
        rw [List.head?_reverse] at last
        exact isWord_of_isBlank (List.mem_takeWhile_imp (List.mem_of_getLast? last))
    ends := fun _ => stops_cons.mpr (by decide) }

theorem swappable_signs {m m' : Text} (ne : m ≠ [] ∧ m' ≠ [])
    (lines : m.head? ≠ some '\n' ∧ m'.head? ≠ some '\n')
    (signs : ∀ c ∈ m, isDull c = true ∧ isWord c = false)
    (signs' : ∀ c ∈ m', isDull c = true ∧ isWord c = false)
    (back rest : Text) : Swappable back m m' rest := by
  have ends {u : Text} (signs : ∀ c ∈ u, isDull c = true ∧ isWord c = false) : Stops isWord u.reverse := by
    intro c last
    rw [List.head?_reverse] at last
    exact (signs c (List.mem_of_getLast? last)).2
  exact {
    ne := ne.1
    ne' := ne.2
    dull := fun c mem => (signs c mem).1
    dull' := fun c mem => (signs' c mem).1
    line := lines.1
    line' := lines.2
    left := .inr ⟨fun c mem => (signs c mem).2, fun c mem => (signs' c mem).2⟩
    right := .inr (ends signs)
    ends := fun _ => ends signs' }

theorem swaps_inequality : Swaps inequality := by
  intro back t m' rest found
  unfold inequality at found
  split at found
  · cases found
    exact ⟨"<>".toText, rfl, swappable_signs (by decide) (by decide) (by decide) (by decide) _ _⟩
  · cases found

theorem swaps_equality : Swaps equality := by
  intro back t m' rest found
  unfold equality at found
  split at found
  · split at found
    · cases found
    · cases found
      exact ⟨"=".toText, rfl, swappable_signs (by decide) (by decide) (by decide) (by decide) _ _⟩
  · cases found

theorem swaps_replacements : ∀ p ∈ replacements, Swaps p := by
  have symbol {m' : Text} (ne : m' ≠ []) (dull : ∀ c ∈ m', isDull c = true) (line : m'.head? ≠ some '\n')
      (spare : ∀ w ∈ (({} : Reader).read m').spoken, Spare w) : IsSymbol m' := ⟨ne, dull, line, spare⟩
  simp only [replacements, List.forall_mem_cons]
  refine ⟨swaps_word (by decide) ?_, swaps_word (by decide) ?_, swaps_word (by decide) ?_, swaps_negation,
    swaps_word (by decide) ?_, swaps_word (by decide) ?_, swaps_word (by decide) ?_, swaps_inequality,
    swaps_equality, by simp⟩
  all_goals exact symbol (by decide) (by decide) (by decide) (by decide)

/-- A code part reads as it did before its operator words and signs were replaced. -/
theorem reads_symbolizeCode (t : Text) : Reads (symbolizeCode t) t := by
  have run : ∀ (ps : List (Pattern Text)), (∀ p ∈ ps, Swaps p) →
      ∀ u, Reads (ps.foldl (fun t p => Text.replaceAll p t) u) u := by
    intro ps
    induction ps with
    | nil => exact fun _ u => .refl u
    | cons p ps ih =>
      intro each u
      rw [List.forall_mem_cons] at each
      exact (ih each.2 _).trans (reads_of_rewrites (each.1.rewrites u))
  exact run replacements swaps_replacements t

end Vocabulary

/-! ## Code parts and literals -/

open Lexeme (IsQuotation)

theorem isQuotation_of_stringLiteral {back m rest : Text} {v : Unit}
    (h : stringLiteral back (m ++ rest) = some (v, rest)) : IsQuotation m := by
  obtain ⟨⟨x, left⟩, read, same⟩ := Option.map_eq_some_iff.mp h
  cases same
  obtain ⟨whole, -, quoted⟩ := Lexeme.string?_eq_some read
  obtain rfl := List.append_cancel_right whole
  exact quoted

theorem Lexeme.afterApostrophe?_eq_none {t : Text} (h : afterApostrophe? t = none) : .char '\'' ∉ t := by
  induction t with
  | nil => exact List.not_mem_nil
  | cons c t ih =>
    by_cases quote : c = '\''
    · subst quote
      rw [afterApostrophe?] at h
      cases h
    · rw [afterApostrophe?] at h
      · rw [List.mem_cons, not_or]
        exact ⟨Ne.symm quote, ih h⟩
      · exact quote

theorem fronts_stringLiteral : Text.Fronts stringLiteral := by
  intro back t v rest h
  obtain ⟨⟨x, left⟩, read, same⟩ := Option.map_eq_some_iff.mp h
  cases same
  obtain ⟨whole, ne, -⟩ := Lexeme.string?_eq_some read
  exact ⟨x, ne, whole⟩

namespace Alternation

theorem text_ofPieces (pieces : List (Piece Unit)) :
    (ofPieces pieces).text = pieces.flatMap Piece.text := by
  induction pieces with
  | nil => rfl
  | cons piece pieces ih =>
    rw [List.flatMap_cons, ← ih]
    cases piece with
    | plain c => rfl
    | found l v => simp [ofPieces, text, Piece.text]

theorem text_ofText (t : Text) : (ofText t).text = t := by
  rw [ofText, text_ofPieces, Text.cut_text]

/-- Code parts with strings between them; `inner` is known of the parts before a string, and `last` of the
one behind all of them. -/
inductive Parts (inner last : Text → Prop) : (first : Text) → (rest : List (Text × Text)) → Prop where
  | code {u : Text} (fine : last u) : Parts inner last u []
  | literal {u l v : Text} {rest : List (Text × Text)} (fine : inner u) (quoted : IsQuotation l)
      (later : Parts inner last v rest) : Parts inner last u ((l, v) :: rest)

theorem Parts.cons {inner last : Text → Prop} {c : CodePoint} {u : Text} {rest : List (Text × Text)}
    (h : Parts inner last u rest) (inside : inner u → inner (c :: u)) (behind : last u → last (c :: u)) :
    Parts inner last (c :: u) rest := by
  cases h with
  | code fine => exact .code (behind fine)
  | literal fine quoted later => exact .literal (inside fine) quoted later

theorem Parts.rest_eq_nil {inner last : Text → Prop} {a : Alternation} (h : Parts inner last a.first a.rest)
    (single : .char '\'' ∉ a.text) (double : .char '"' ∉ a.text) : a.rest = [] := by
  obtain ⟨first, rest⟩ := a
  cases h with
  | code => rfl
  | @literal u l v rest _ quoted _ =>
    obtain ⟨q, u, rfl, other⟩ := quoted
    have mem : q ∈ (⟨first, (q :: u ++ [q], v) :: rest⟩ : Alternation).text := by simp [text]
    rcases other with ⟨rfl, -⟩ | ⟨rfl, -⟩
    · exact absurd mem single
    · exact absurd mem double

/-- In a text without double quotes, apostrophes pair up to strings, but for one that may be left over in
the last part. -/
theorem parts_ofText (t : Text) :
    Parts (fun u => .char '"' ∉ t → .char '\'' ∉ u) (fun u => .char '"' ∉ t → u.count (.char '\'') ≤ 1)
      (ofText t).first (ofText t).rest := by
  have run {plain : Prop} {back t : Text} {pieces : List (Piece Unit)}
      (h : Text.Cuts stringLiteral back t pieces)
      (quotes : plain → .char '"' ∉ t) :
      Parts (fun u => plain → .char '\'' ∉ u) (fun u => plain → u.count (.char '\'') ≤ 1)
        (ofPieces pieces).first (ofPieces pieces).rest := by
    induction h with
    | done => exact .code fun _ => Nat.zero_le 1
    | @plain back rest c pieces missed later ih =>
      have parts := ih fun fine mem => quotes fine (List.mem_cons_of_mem c mem)
      by_cases opens : c = '\'' ∧ plain
      · obtain ⟨rfl, fine⟩ := opens
        -- an apostrophe that opens no string has neither quote behind it
        have single : .char '\'' ∉ rest :=
          Lexeme.afterApostrophe?_eq_none (by simpa [stringLiteral, Lexeme.string?] using missed)
        have double : .char '"' ∉ rest := fun mem => quotes fine (List.mem_cons_of_mem _ mem)
        have whole : (ofPieces pieces).text = rest := (text_ofPieces pieces).trans later.text
        have nothing := parts.rest_eq_nil (whole ▸ single) (whole ▸ double)
        have first : (ofPieces pieces).first = rest := by
          rw [← whole, text, nothing, List.flatMap_nil, List.append_nil]
        show Parts _ _ (.char '\'' :: (ofPieces pieces).first) (ofPieces pieces).rest
        rw [nothing, first]
        refine .code fun _ => ?_
        rw [List.count_cons_self, List.count_eq_zero_of_not_mem single]
      · refine parts.cons (fun inner fine => ?_) (fun last fine => ?_)
        · have other : c ≠ '\'' := fun same => opens ⟨same, fine⟩
          simp [inner fine, Ne.symm other]
        · have other : c ≠ '\'' := fun same => opens ⟨same, fine⟩
          simpa [List.count_cons, other] using last fine
    | found ne here _ ih =>
      exact .literal (fun _ => List.not_mem_nil) (isQuotation_of_stringLiteral here)
        (ih fun fine mem => quotes fine (List.mem_append_right _ mem))
  exact run (Text.cuts_cut fronts_stringLiteral t) id

/-- A text of code parts with strings between them, and the text in which other code parts stand instead;
`inner` relates those before a string, and `last` those behind all of them. -/
inductive Parted (inner last : Text → Text → Prop) : (t t' : Text) → Prop where
  | code {u u' : Text} (here : last u u') : Parted inner last u u'
  | literal {u u' l t t' : Text} (here : inner u u') (quoted : IsQuotation l)
      (later : Parted inner last t t') : Parted inner last (u ++ (l ++ t)) (u' ++ (l ++ t'))

theorem parted_of_mapCodeM {inner last : Text → Prop} {f : Text → Except Fault Text} {a a' : Alternation}
    (h : Parts inner last a.first a.rest) (made : a.mapCodeM f = .ok a') :
    Parted (fun u u' => inner u ∧ f u = .ok u') (fun u u' => last u ∧ f u = .ok u') a.text a'.text := by
  obtain ⟨first, rest⟩ := a
  obtain ⟨first', filled, later⟩ := ok_of_bind made
  obtain ⟨rest', others, same⟩ := ok_of_bind later
  cases same
  clear made later
  replace h : Parts inner last first rest := h
  replace filled : f first = .ok first' := filled
  simp only [text] at others ⊢
  induction h generalizing first' rest' with
  | code fine =>
    cases others
    simpa using .code ⟨fine, filled⟩
  | @literal u l v rest fine quoted _ ih =>
    rw [List.mapM_cons] at others
    obtain ⟨part', here, others⟩ := ok_of_bind others
    obtain ⟨more', later, others⟩ := ok_of_bind others
    cases others
    obtain ⟨v', filled', same⟩ := ok_of_bind (x := f v) here
    cases same
    rw [List.flatMap_cons, List.flatMap_cons, List.append_assoc, List.append_assoc]
    exact .literal ⟨fine, filled⟩ quoted (ih v' more' later filled')

theorem mapCodeM_ok (f : Text → Text) (a : Alternation) :
    a.mapCodeM (fun u => .ok (f u)) = .ok (a.mapCode f) := by
  have rest (g : Text × Text → Except Fault (Text × Text)) (same : ∀ part, g part = .ok (part.1, f part.2))
      (parts : List (Text × Text)) : parts.mapM g = .ok (parts.map fun part => (part.1, f part.2)) := by
    induction parts with
    | nil => rfl
    | cons part parts ih =>
      rw [List.mapM_cons, same, ih]
      rfl
  rw [mapCodeM, ok_bind, rest]
  · rfl
  · exact fun part => rfl

end Alternation

theorem reads_of_parted {inner last : Text → Text → Prop} {t t' : Text}
    (each : ∀ u u', inner u u' → Reads u' u)
    (atEnd : ∀ u u', last u u' → Reads u' u) (h : Alternation.Parted inner last t t') : Reads t' t := by
  induction h with
  | code here => exact atEnd _ _ here
  | @literal u u' l t t' here quoted later ih =>
    intro a b idle idle' covered
    obtain ⟨front, back⟩ := quoted.stops
    have before : Covers Spare (l ++ []) (a.read u') (b.read u) :=
      (each _ _ here a b idle idle' covered).of_stops (front.append quoted.ne_nil)
    -- behind a string both readers are in no word
    have ended (r : Reader) : (r.read l).word = [] :=
      Reader.idle_read quoted.ne_nil [] r (by rwa [List.append_nil])
    simp only [Reader.read_append]
    exact ih _ _ (ended _) (ended _) before.read

/-- An expression reads as it did before its operator words and signs were replaced. -/
theorem reads_symbolize (t : Text) : Reads (Vocabulary.symbolize t) t := by
  have parted := Alternation.parted_of_mapCodeM (Alternation.parts_ofText t)
    (Alternation.mapCodeM_ok Vocabulary.symbolizeCode (Alternation.ofText t))
  rw [Alternation.text_ofText] at parted
  have each (u u' : Text) (same : Except.ok (Vocabulary.symbolizeCode u) = (.ok u' : Except Fault Text)) :
      Reads u' u := by
    obtain rfl := Except.ok.inj same
    exact Vocabulary.reads_symbolizeCode u
  exact reads_of_parted (fun u u' h => each u u' h.2) (fun u u' h => each u u' h.2) parted

end SclNarrator
