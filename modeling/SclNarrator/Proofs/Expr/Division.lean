import SclNarrator.Proofs.Expr.Rewriting
import SclNarrator.Proofs.Expr.Signs

/-!
Code parts and literals once the code is rewritten. A stretch that is swapped for another has no
quotes, and the character behind a backslash is neither lost nor turned into a line end; so a quote
that opens no literal opens none afterwards (`Rewrites.misses`). A literal is read to its end
whatever follows it. So the text that is made of the rewritten code parts and the old literals is
divided into just these (`ofText_symbolize`).
-/

namespace SclNarrator

open Quoting (isDull)
open Text (Misses)

namespace Lexeme

variable {r r' rest rest' t m m' : Text} {c : CodePoint}

/-! ## Literals and what follows them -/

/-- What follows a text between double quotes of which a backslash was read last. -/
def afterEscape? : Text → Option Text
  | [] => none
  | c :: rest => if c = '\n' then none else afterQuote? rest

theorem afterQuote?_slash (t : Text) : afterQuote? (.char '\\' :: t) = afterEscape? t := by
  cases t <;> rfl

theorem afterQuote?_cons (quote : c ≠ '"') (slash : c ≠ '\\') : afterQuote? (c :: t) = afterQuote? t := by
  rw [afterQuote?]
  · exact quote
  · exact fun same _ => slash same
  · exact fun _ _ same _ => slash same

theorem afterApostrophe?_cons (quote : c ≠ '\'') : afterApostrophe? (c :: t) = afterApostrophe? t := by
  rw [afterApostrophe?]
  exact quote

theorem length_of_afterQuote? (h : afterQuote? t = some rest) : rest.length < t.length := by
  obtain ⟨u, rfl, -⟩ := isEscaped_of_afterQuote? h
  simp only [List.length_append, List.length_cons]
  omega

theorem length_of_afterEscape? (h : afterEscape? t = some rest) : rest.length < t.length := by
  cases t with
  | nil => cases h
  | cons c t =>
    rw [afterEscape?] at h
    split at h
    · cases h
    · exact Nat.lt_succ_of_lt (length_of_afterQuote? h)

/-- A text between double quotes ends where it ends whatever follows it. -/
theorem afterQuote?_append (body : Text) :
    (afterQuote? (body ++ rest) = some rest → afterQuote? (body ++ rest') = some rest') ∧
      (afterEscape? (body ++ rest) = some rest → afterEscape? (body ++ rest') = some rest') := by
  induction body with
  | nil =>
    exact ⟨fun h => absurd (length_of_afterQuote? h) (Nat.lt_irrefl _),
      fun h => absurd (length_of_afterEscape? h) (Nat.lt_irrefl _)⟩
  | cons c body ih =>
    simp only [List.cons_append]
    refine ⟨fun h => ?_, fun h => ?_⟩
    · by_cases quote : c = '"'
      · subst quote
        have same : body ++ rest = rest := Option.some.inj h
        obtain rfl : body = [] := by simpa using same
        rfl
      · by_cases slash : c = '\\'
        · subst slash
          rw [afterQuote?_slash] at h ⊢
          exact ih.2 h
        · rw [afterQuote?_cons quote slash] at h ⊢
          exact ih.1 h
    · rw [afterEscape?] at h ⊢
      split at h
      · cases h
      · next line =>
        rw [if_neg line]
        exact ih.1 h

end Lexeme

open Lexeme

theorem isString_of_stringLiteral {back q rest : Text} {v : Unit} (ne : q ≠ [])
    (h : stringLiteral back (q ++ rest) = some (v, rest)) : Item.IsString q := by
  obtain ⟨⟨x, left⟩, read, same⟩ := Option.map_eq_some_iff.mp h
  cases same
  obtain ⟨c, body, rfl⟩ := List.exists_cons_of_ne_nil ne
  rw [List.cons_append] at read
  unfold string? at read
  split at read
  · next first =>
    obtain ⟨rfl, rfl⟩ := List.cons.inj first
    obtain ⟨left, after, same⟩ := Option.map_eq_some_iff.mp read
    cases same
    refine ⟨ne, fun rest' => ?_⟩
    rw [List.cons_append, string?, (afterQuote?_append body).1 after, Option.map_some]
    exact congrArg some (taken_left (.char '"' :: body) rest')
  · next first =>
    obtain ⟨rfl, rfl⟩ := List.cons.inj first
    obtain ⟨left, after, same⟩ := Option.map_eq_some_iff.mp read
    cases same
    obtain ⟨u, whole, plain⟩ := afterApostrophe?_eq_some after
    obtain rfl : body = u ++ [.char '\''] := by
      rw [← List.singleton_append, ← List.append_assoc] at whole
      exact List.append_cancel_right whole
    exact isString_apostrophes fun c mem same => plain (same ▸ mem)
  · cases read

/-! ## Texts in which the same quotes are closed -/

/-- Whether a quote that was opened before one of two texts is closed in it just if it is closed in
the other. -/
structure Closes (r r' : Text) : Prop where
  quotes : (afterQuote? r).isSome = (afterQuote? r').isSome
  escape : (afterEscape? r).isSome = (afterEscape? r').isSome
  apostrophe : (afterApostrophe? r).isSome = (afterApostrophe? r').isSome

namespace Closes

variable {r r' m m' : Text}

theorem refl (r : Text) : Closes r r := ⟨rfl, rfl, rfl⟩

theorem cons (h : Closes r r') (c : CodePoint) : Closes (c :: r) (c :: r') := by
  refine ⟨?_, ?_, ?_⟩
  · by_cases quote : c = '"'
    · subst quote
      rfl
    · by_cases slash : c = '\\'
      · subst slash
        rw [afterQuote?_slash, afterQuote?_slash, h.escape]
      · rw [afterQuote?_cons quote slash, afterQuote?_cons quote slash, h.quotes]
  · rw [afterEscape?, afterEscape?]
    split
    · rfl
    · exact h.quotes
  · by_cases quote : c = '\''
    · subst quote
      rfl
    · rw [afterApostrophe?_cons quote, afterApostrophe?_cons quote, h.apostrophe]

theorem append_left (h : Closes r r') (l : Text) : Closes (l ++ r) (l ++ r') := by
  induction l with
  | nil => exact h
  | cons c l ih => exact ih.cons c

theorem quotes_of_isDull (dull : ∀ c ∈ m, isDull c = true) (r : Text) :
    afterQuote? (m ++ r) = afterQuote? r ∧ afterApostrophe? (m ++ r) = afterApostrophe? r := by
  induction m with
  | nil => exact ⟨rfl, rfl⟩
  | cons c m ih =>
    obtain ⟨here, later⟩ := List.forall_mem_cons.mp dull
    simp only [isDull, Bool.and_eq_true, bne_iff_ne] at here
    obtain ⟨⟨single, double⟩, slash⟩ := here
    rw [List.cons_append, afterQuote?_cons double slash, afterApostrophe?_cons single]
    exact ih later

theorem escape_of_isDull (ne : m ≠ []) (dull : ∀ c ∈ m, isDull c = true)
    (line : m.head? ≠ some '\n') (r : Text) :
    afterEscape? (m ++ r) = afterQuote? r := by
  obtain ⟨c, m, rfl⟩ := List.exists_cons_of_ne_nil ne
  have other : c ≠ '\n' := by simpa using line
  rw [List.cons_append, afterEscape?, if_neg other]
  exact (quotes_of_isDull (List.forall_mem_cons.mp dull).2 r).1

/-- Stretches without quotes and backslashes close nothing. -/
theorem swap {back rest : Text} (h : Closes r r') (swap : Swappable back m m' rest) :
    Closes (m ++ r) (m' ++ r') := by
  obtain ⟨quotes, apostrophe⟩ := quotes_of_isDull swap.dull r
  obtain ⟨quotes', apostrophe'⟩ := quotes_of_isDull swap.dull' r'
  refine ⟨by rw [quotes, quotes', h.quotes], ?_, by rw [apostrophe, apostrophe', h.apostrophe]⟩
  rw [escape_of_isDull swap.ne swap.dull swap.line, escape_of_isDull swap.ne' swap.dull' swap.line', h.quotes]

end Closes

variable {back u u' b b' : Text}

theorem Rewrites.closes (h : Rewrites Swappable back u u') (later : Closes b b') :
    Closes (u ++ b) (u' ++ b') := by
  induction h with
  | done => exact later
  | keep c _ ih => exact ih.cons c
  | swap here _ ih =>
    rw [List.append_assoc, List.append_assoc]
    exact ih.swap here

theorem stringLiteral_eq_none {r r' : Text} {c : CodePoint} (h : Closes r r')
    (missed : stringLiteral back (c :: r) = none) (back' : Text) : stringLiteral back' (c :: r') = none := by
  rw [stringLiteral, Option.map_eq_none_iff] at missed ⊢
  by_cases double : c = '"'
  · subst double
    rw [string?, Option.map_eq_none_iff, ← Option.isNone_iff_eq_none,
      ← Option.isSome_eq_false_iff] at missed ⊢
    rw [← h.quotes, missed]
  · by_cases single : c = '\''
    · subst single
      rw [string?, Option.map_eq_none_iff, ← Option.isNone_iff_eq_none,
        ← Option.isSome_eq_false_iff] at missed ⊢
      rw [← h.apostrophe, missed]
    · refine string?_eq_none ?_
      simp [Term.isQuotable, double, single]

theorem misses_behind {x : Text} (h : Misses stringLiteral x u b) (x' : Text) :
    Misses stringLiteral x' u b := by
  induction u generalizing x x' with
  | nil => trivial
  | cons c u ih => exact ⟨h.1, ih h.2 _⟩

/-- Where no literal starts none starts once stretches are swapped. -/
theorem Rewrites.misses (h : Rewrites Swappable back u u') (later : Closes b b') :
    ∀ x x', Misses stringLiteral x u b → Misses stringLiteral x' u' b' := by
  induction h with
  | done => exact fun _ _ _ => trivial
  | keep c more ih =>
    rintro x x' ⟨here, misses⟩
    exact ⟨stringLiteral_eq_none (more.closes later) here x', ih _ _ misses⟩
  | @swap back m m' rest out here more ih =>
    intro x x' misses
    have quotable : ∀ c ∈ m', Term.isQuotable c = true := by
      intro c mem
      have dull := here.dull' c mem
      simp only [isDull, Bool.and_eq_true, bne_iff_ne] at dull
      simp [Term.isQuotable, dull]
    exact (Item.misses_stringLiteral quotable x' _).append (ih _ _ misses.of_append)

/-! ## Divided texts -/

namespace Alternation

/-- Code parts in which no literal starts, with literals between them. -/
inductive Divided : (first : Text) → (rest : List (Text × Text)) → Prop where
  | code {u : Text} (plain : Misses stringLiteral [] u []) : Divided u []
  | literal {u l v : Text} {rest : List (Text × Text)}
      (plain : Misses stringLiteral [] u (l ++ (⟨v, rest⟩ : Alternation).text)) (string : Item.IsString l)
      (later : Divided v rest) : Divided u ((l, v) :: rest)

variable {first : Text} {rest : List (Text × Text)} {a : Alternation}

theorem text_cons (u l v : Text) (rest : List (Text × Text)) :
    (⟨u, (l, v) :: rest⟩ : Alternation).text = u ++ (l ++ (⟨v, rest⟩ : Alternation).text) := by
  simp [text]

theorem Divided.ofText_text (h : Divided first rest) :
    ofText (⟨first, rest⟩ : Alternation).text = ⟨first, rest⟩ := by
  induction h with
  | @code u plain =>
    have pieces := Text.cutFrom_misses plain
    rw [List.append_nil, Text.cutFrom] at pieces
    rw [text, List.flatMap_nil, List.append_nil, ofText, Text.cut, pieces, Item.ofPieces_plain]
    simp [ofPieces]
  | @literal u l v rest plain string _ ih =>
    have found (back : Text) : stringLiteral back (l ++ (⟨v, rest⟩ : Alternation).text) =
        some ((), (⟨v, rest⟩ : Alternation).text) := by
      rw [stringLiteral, string.read, Option.map_some]
    rw [text_cons, ofText, Text.cut, Text.cutFrom_misses plain, Text.cutFrom_found string.ne (found _),
      Vocabulary.cutFrom_stringLiteral, Item.ofPieces_plain, ofPieces]
    rw [ofText] at ih
    simp [ih]

theorem Divided.cons {c : CodePoint} (h : Divided first rest)
    (missed : stringLiteral [] (c :: (⟨first, rest⟩ : Alternation).text) = none) :
    Divided (c :: first) rest := by
  cases h with
  | code plain => exact .code ⟨by simpa [text] using missed, misses_behind plain _⟩
  | literal plain string later =>
    rw [text_cons] at missed
    exact .literal ⟨missed, misses_behind plain _⟩ string later

theorem divided_ofText (t : Text) : Divided (ofText t).first (ofText t).rest := by
  have run {back t : Text} {pieces : List (Piece Unit)} (h : Text.Cuts stringLiteral back t pieces) :
      Divided (ofPieces pieces).first (ofPieces pieces).rest := by
    induction h with
    | done => exact .code trivial
    | @plain back rest c pieces missed later ih =>
      have whole : (ofPieces pieces).text = rest := (text_ofPieces pieces).trans later.text
      exact ih.cons (whole ▸ missed)
    | @found back m rest v pieces ne here later ih =>
      exact .literal trivial (isString_of_stringLiteral ne here) ih
  exact run (Text.cuts_cut fronts_stringLiteral t)

theorem closes_mapCode {f : Text → Text} (swaps : ∀ u, Rewrites Swappable [] u (f u)) (first : Text)
    (rest : List (Text × Text)) :
    Closes (⟨first, rest⟩ : Alternation).text ((⟨first, rest⟩ : Alternation).mapCode f).text := by
  induction rest generalizing first with
  | nil => simpa [text, mapCode] using (swaps first).closes (.refl [])
  | cons part rest ih =>
    obtain ⟨l, v⟩ := part
    have later := (swaps first).closes ((ih v).append_left l)
    simpa [text, mapCode] using later

theorem Divided.mapCode {f : Text → Text} (swaps : ∀ u, Rewrites Swappable [] u (f u))
    (h : Divided first rest) :
    Divided ((⟨first, rest⟩ : Alternation).mapCode f).first
      ((⟨first, rest⟩ : Alternation).mapCode f).rest := by
  induction h with
  | @code u plain => exact .code ((swaps u).misses (.refl []) [] [] plain)
  | @literal u l v rest plain string _ ih =>
    refine .literal ((swaps u).misses ?_ [] [] plain) string ih
    exact (closes_mapCode swaps v rest).append_left l

theorem mapCode_mapCode (f g : Text → Text) (a : Alternation) :
    (a.mapCode f).mapCode g = a.mapCode fun u => g (f u) := by
  simp [Alternation.mapCode]

theorem codes_mapCode (f : Text → Text) (a : Alternation) : (a.mapCode f).codes = a.codes.map f := by
  simp [Alternation.mapCode, codes]

theorem literals_mapCode (f : Text → Text) (a : Alternation) : (a.mapCode f).literals = a.literals := by
  simp [Alternation.mapCode, literals]

theorem mapCode_eq_self {f : Text → Text} (same : ∀ u ∈ a.codes, f u = u) : a.mapCode f = a := by
  obtain ⟨first, rest⟩ := a
  obtain ⟨here, later⟩ := List.forall_mem_cons.mp same
  rw [Alternation.mapCode, here]
  congr 1
  conv => rhs; rw [← List.map_id rest]
  refine List.map_congr_left ?_
  rintro ⟨l, v⟩ mem
  exact congrArg (l, ·) (later v (List.mem_map_of_mem (f := Prod.snd) mem))

end Alternation

namespace Vocabulary

open Alternation

theorem symbolizeCode_eq_inTurn : symbolizeCode = inTurn replacements := by
  funext u
  rw [symbolizeCode, inTurn]

/-- The literals stay, and the code parts are those that were replaced. -/
theorem ofText_symbolize (t : Text) : ofText (symbolize t) = (ofText t).mapCode symbolizeCode := by
  have run (ps : List (Pattern Text)) (swaps : ∀ p ∈ ps, Swaps p) (a : Alternation)
      (h : Divided a.first a.rest) :
      Divided (a.mapCode (inTurn ps)).first (a.mapCode (inTurn ps)).rest := by
    induction ps generalizing a with
    | nil => rwa [@mapCode_eq_self a (inTurn []) fun _ _ => rfl]
    | cons p ps ih =>
      obtain ⟨here, later⟩ := List.forall_mem_cons.mp swaps
      have next := ih later (a.mapCode (Text.replaceAll p)) (h.mapCode here.rewrites)
      rwa [mapCode_mapCode] at next
  have divided := run replacements swaps_replacements _ (divided_ofText t)
  rw [← symbolizeCode_eq_inTurn] at divided
  rw [symbolize]
  generalize (ofText t).mapCode symbolizeCode = a at divided
  exact divided.ofText_text

end Vocabulary
end SclNarrator
