import SclNarrator.Proofs.Source.Parts
import SclNarrator.Source.Basic

/-!
The two views of source code without its comments: with its literals, and with empty literals. Where
the literals stand is decided on the source, in which comments have apostrophes of their own.

What is proved: who looks for literals again in the first view and empties them gets the second view,
and the words of `IF` structures are the same in both (`emptying_gives_other_view`).

Correspondence (analyzer ↔ here):
  `strip_comments` ↔ `Source.stripComments` with and without the literals
-/

namespace SclNarrator.Source

/-- Whether the second text is the first with its literals emptied. -/
inductive Emptied : Text → Text → Prop where
  | done : Emptied [] []
  | plain {c : CodePoint} {t u : Text} (alone : afterLiteral? (c :: t) = none) (later : Emptied t u) :
      Emptied (c :: t) (c :: u)
  | literal {body t u : Text} (inner : .char '\'' ∉ body) (later : Emptied t u) :
      Emptied (.char '\'' :: (body ++ .char '\'' :: t)) (.char '\'' :: .char '\'' :: u)

namespace Emptied

variable {t u : Text}

theorem head?_eq (h : Emptied t u) : t.head? = u.head? := by
  cases h <;> rfl

theorem wordAhead_eq (h : Emptied t u) : wordAhead t = wordAhead u := by
  rw [wordAhead, wordAhead, h.head?_eq]

theorem quote_of_mem (h : Emptied t u) (mem : .char '\'' ∈ u) : .char '\'' ∈ t := by
  induction h with
  | done => exact mem
  | plain _ _ ih => exact List.mem_cons.mpr ((List.mem_cons.mp mem).imp_right ih)
  | literal _ _ _ => exact List.mem_cons_self

theorem alone {c : CodePoint} (h : Emptied t u) (alone : afterLiteral? (c :: t) = none) :
    afterLiteral? (c :: u) = none := by
  by_cases quote : c = .char '\''
  · subst quote
    exact afterLiteral?_eq_none_iff.mpr fun mem => afterLiteral?_eq_none_iff.mp alone (h.quote_of_mem mem)
  · exact Program.afterLiteral?_of_head quote

end Emptied

/-! ## The views -/

/-- A character that is no part of the source starts no literal in the view: the view has no apostrophe behind
it that the source does not have there. -/
theorem afterLiteral?_of_cuts {back rest : Text} {c : CodePoint} {pieces : List (Piece Part)}
    (missed : part back (c :: rest) = none) (later : Text.Cuts part (c :: back) rest pieces) :
    afterLiteral? (c :: pieces.flatMap (stripPiece true)) = none := by
  by_cases quote : c = .char '\''
  · subst quote
    have noLiteral : afterLiteral? (.char '\'' :: rest) = none := by
      cases read : afterLiteral? (.char '\'' :: rest) with
      | none => rfl
      | some after =>
        rw [part, read] at missed
        cases missed
    refine afterLiteral?_eq_none_iff.mpr fun mem => afterLiteral?_eq_none_iff.mp noLiteral ?_
    obtain ⟨piece, among, mem⟩ := List.mem_flatMap.mp mem
    rw [← later.text]
    refine List.mem_flatMap.mpr ⟨piece, among, ?_⟩
    cases piece with
    | plain d => exact mem
    | found m kind =>
      cases kind with
      | literal => exact mem
      | comment => cases mem
  · exact Program.afterLiteral?_of_head quote

theorem emptied_stripComments (code : Text) :
    Emptied (stripComments true code) (stripComments false code) := by
  have run {back t : Text} {pieces : List (Piece Part)} (h : Text.Cuts part back t pieces) :
      Emptied (pieces.flatMap (stripPiece true)) (pieces.flatMap (stripPiece false)) := by
    induction h with
    | done => exact .done
    | plain missed later ih => exact .plain (afterLiteral?_of_cuts missed later) ih
    | @found back m rest kind pieces ne here later ih =>
      cases kind with
      | comment => exact ih
      | literal =>
        obtain ⟨body, rfl, inner⟩ := literal_of_part here
        have views := Emptied.literal inner ih
        rw [List.flatMap_cons, List.flatMap_cons, stripPiece, stripPiece, if_pos rfl]
        simpa using views
  exact run (Text.cuts_cut fronts_part code)

/-- A piece of the source in the view with literals, where comments have no place. -/
def uncommented : Piece Part → Option (Piece Unit)
  | .plain c => some (.plain c)
  | .found t .literal => some (.found t ())
  | .found _ .comment => none

theorem cut_literal_stripComments (code : Text) :
    Text.cut literal (stripComments true code) = (Text.cut part code).filterMap uncommented := by
  have run {back t : Text} {pieces : List (Piece Part)} (h : Text.Cuts part back t pieces) :
      ∀ back', Text.Cuts literal back' (pieces.flatMap (stripPiece true)) (pieces.filterMap uncommented) := by
    induction h with
    | done => exact fun back' => .done back'
    | @plain back rest c pieces missed later ih =>
      intro back'
      have misses : literal back' (c :: pieces.flatMap (stripPiece true)) = none := by
        rw [literal, afterLiteral?_of_cuts missed later]
        rfl
      exact .plain misses (ih _)
    | @found back m rest kind pieces ne here later ih =>
      intro back'
      cases kind with
      | comment => exact ih back'
      | literal =>
        have again : literal back' (m ++ pieces.flatMap (stripPiece true)) =
            some ((), pieces.flatMap (stripPiece true)) := by
          obtain ⟨body, rfl, inner⟩ := literal_of_part here
          rw [literal, List.cons_append, List.append_assoc, List.singleton_append, afterLiteral?_append inner]
          rfl
        exact .found ne again (ih _)
  exact (run (Text.cuts_cut fronts_part code) []).cutFrom_eq

namespace Emptied

variable {t u : Text}

theorem replaceAll_eq (h : Emptied t u) : Text.replaceAll literalToEmpty t = u := by
  have run (back : Text) : (Text.cutFrom literalToEmpty 0 back t).flatMap Piece.replaced = u := by
    induction h generalizing back with
    | done => rfl
    | @plain c t u alone later ih =>
      have missed : literalToEmpty back (c :: t) = none := by
        rw [literalToEmpty, alone]
        rfl
      rw [Text.cutFrom, missed, List.flatMap_cons, ih]
      rfl
    | @literal body t u inner later ih =>
      have whole : .char '\'' :: (body ++ [.char '\'']) ++ t =
          .char '\'' :: (body ++ .char '\'' :: t) := by simp
      have here : literalToEmpty back (.char '\'' :: (body ++ [.char '\'']) ++ t) =
          some ([.char '\'', .char '\''], t) := by
        rw [whole, literalToEmpty, afterLiteral?_append inner]
        rfl
      have pieces := Text.cutFrom_found (List.cons_ne_nil _ _) here
      rw [whole] at pieces
      rw [pieces, List.flatMap_cons, ih]
      rfl
  exact run []

/-! ## The words of structures -/

/-- A keyword is read alike: not at all, or as the same text. -/
theorem dropLoose?_cases {letters : Text} (words : ∀ k ∈ letters, isWord k = true) (h : Emptied t u) :
    (dropLoose? letters t = none ∧ dropLoose? letters u = none) ∨
    ∃ m rest rest', t = m ++ rest ∧ u = m ++ rest' ∧ Emptied rest rest' ∧
      dropLoose? letters t = some rest ∧ dropLoose? letters u = some rest' := by
  induction letters generalizing t u with
  | nil => exact .inr ⟨[], t, u, rfl, rfl, h, rfl, rfl⟩
  | cons k letters ih =>
    rw [List.forall_mem_cons] at words
    cases h with
    | done => exact .inl ⟨rfl, rfl⟩
    | @plain c t u alone later =>
      rw [dropLoose?, dropLoose?]
      split
      · obtain none | ⟨m, rest, rest', rfl, rfl, after⟩ := ih words.2 later
        · exact .inl none
        · exact .inr ⟨c :: m, rest, rest', rfl, rfl, after⟩
      · exact .inl ⟨rfl, rfl⟩
    | literal =>
      have other : looseLetter (.char '\'') ≠ k := by
        rintro rfl
        exact absurd words.1 (by decide)
      exact .inl ⟨if_neg other, if_neg other⟩

theorem dropKeyword?_cases {keyword back back' : Text} (words : ∀ k ∈ keyword, isWord k = true)
    (behind : back.head? = back'.head?) (h : Emptied t u) :
    (dropKeyword? keyword back t = none ∧ dropKeyword? keyword back' u = none) ∨
    ∃ m rest rest', t = m ++ rest ∧ u = m ++ rest' ∧ Emptied rest rest' ∧
      dropKeyword? keyword back t = some rest ∧ dropKeyword? keyword back' u = some rest' := by
  have start : wordAhead back = wordAhead back' := by rw [wordAhead, wordAhead, behind]
  unfold dropKeyword?
  rw [start]
  split
  · exact .inl ⟨rfl, rfl⟩
  · obtain ⟨left, right⟩ | ⟨m, rest, rest', whole, whole', later, left, right⟩ := dropLoose?_cases words h
    · rw [left, right]
      exact .inl ⟨rfl, rfl⟩
    · simp only [left, right, later.wordAhead_eq]
      split
      · exact .inl ⟨rfl, rfl⟩
      · exact .inr ⟨m, rest, rest', whole, whole', later, rfl, rfl⟩

/-- The words of a structure are read alike where no literal starts. -/
theorem ifPart_cases {back back' : Text} (behind : back.head? = back'.head?) (h : Emptied t u)
    (missed : afterLiteral? t = none) (missed' : afterLiteral? u = none) :
    (ifPart back t = none ∧ ifPart back' u = none) ∨
    ∃ word m rest rest', t = m ++ rest ∧ u = m ++ rest' ∧ Emptied rest rest' ∧
      ifPart back t = some (some word, rest) ∧ ifPart back' u = some (some word, rest') := by
  simp only [ifPart, missed, missed']
  have letters := Program.words_spellings
  revert letters
  generalize IfWord.spellings = spellings
  intro letters
  induction spellings with
  | nil => exact .inl ⟨rfl, rfl⟩
  | cons keyword spellings ih =>
    rw [List.forall_mem_cons] at letters
    rw [List.findSome?_cons, List.findSome?_cons]
    obtain ⟨left, right⟩ | ⟨m, rest, rest', rfl, rfl, later, left, right⟩ :=
      dropKeyword?_cases letters.1 behind h
    · rw [left, right]
      exact ih letters.2
    · rw [left, right, Option.map_some, Option.map_some, Lexeme.taken_left, Lexeme.taken_left]
      exact .inr ⟨_, m, rest, rest', rfl, rfl, later, rfl, rfl⟩

end Emptied

theorem ifPart_of_literal {body : Text} (inner : .char '\'' ∉ body) (back rest : Text) :
    ifPart back (.char '\'' :: (body ++ .char '\'' :: rest)) = some (none, rest) := by
  rw [ifPart, afterLiteral?_append inner]

theorem fronts_ifPart : Text.Fronts ifPart := by
  intro back t word rest h
  unfold ifPart at h
  split at h
  · next found =>
    cases h
    obtain ⟨body, rfl, -⟩ := afterLiteral?_eq_some_iff.mp found
    exact ⟨.char '\'' :: (body ++ [.char '\'']), List.cons_ne_nil _ _, by simp⟩
  · obtain ⟨keyword, among, found⟩ := List.exists_of_findSome?_eq_some h
    obtain ⟨after, stands, same⟩ := Option.map_eq_some_iff.mp found
    cases same
    obtain ⟨m, rfl, size, -⟩ := word_of_dropKeyword? (Program.words_spellings keyword among) stands
    refine ⟨m, ?_, rfl⟩
    rintro rfl
    have long : ∀ keyword ∈ IfWord.spellings, keyword.length ≠ 0 := by decide
    exact long keyword among size.symm

def emptyPiece : Piece (Option IfWord) → Piece (Option IfWord)
  | .found _ none => .found ['\'', '\''] none
  | piece => piece

/-- Behind the same character, a text with empty literals has the same pieces but for the literals. -/
theorem Emptied.cuts_ifPart {back t : Text} {pieces : List (Piece (Option IfWord))}
    (cuts : Text.Cuts ifPart back t pieces) : ∀ {back' u : Text}, Emptied t u → back.head? = back'.head? →
      Text.Cuts ifPart back' u (pieces.map emptyPiece) := by
  induction cuts with
  | done back =>
    intro back' u h _
    cases h
    exact .done back'
  | @plain back rest c pieces missed later ih =>
    intro back' u h behind
    cases h with
    | plain alone h =>
      refine .plain ?_ (ih h rfl)
      obtain ⟨-, right⟩ | ⟨_, _, _, _, -, -, -, left, -⟩ :=
        Emptied.ifPart_cases behind (.plain alone h) alone (h.alone alone)
      · exact right
      · rw [left] at missed
        cases missed
    | literal inner h =>
      rw [ifPart_of_literal inner] at missed
      cases missed
  | @found back m rest word pieces ne here later ih =>
    intro back' u h behind
    generalize whole : m ++ rest = t at h here
    cases h with
    | done => exact absurd (List.append_eq_nil_iff.mp whole).1 ne
    | plain alone h =>
      obtain ⟨left, -⟩ | ⟨word', m', rest₁, rest', left, right, emptied, found, found'⟩ :=
        Emptied.ifPart_cases behind (.plain alone h) alone (h.alone alone)
      · rw [left] at here
        cases here
      · rw [found] at here
        cases here
        rw [left] at whole
        obtain rfl := List.append_cancel_right whole
        rw [right] at found' ⊢
        refine .found ne found' (ih emptied ?_)
        obtain ⟨m, d, rfl⟩ := (List.eq_nil_or_concat m).resolve_left ne
        simp
    | @literal body t u inner h =>
      rw [ifPart_of_literal inner] at here
      cases here
      have same : m ++ rest = .char '\'' :: (body ++ [.char '\'']) ++ rest := by
        rw [whole]
        simp
      obtain rfl := List.append_cancel_right same
      have here' : ifPart back' ([.char '\'', .char '\''] ++ u) = some (none, u) :=
        ifPart_of_literal List.not_mem_nil back' u
      exact .found (List.cons_ne_nil _ _) here' (ih h (by simp))

/-- A text with empty literals has the same words of structures between the same characters. -/
theorem Emptied.cut_ifPart {t u : Text} (h : Emptied t u) :
    Text.cut ifPart u = (Text.cut ifPart t).map emptyPiece :=
  (Emptied.cuts_ifPart (Text.cuts_cut fronts_ifPart t) h rfl).cutFrom_eq

def Skeleton.words (s : Skeleton) : List (IfWord × Text) :=
  s.tokens.map fun token => (token.word, token.spelling)

theorem Skeleton.words_emptyPiece (pieces : List (Piece (Option IfWord))) :
    (ofPieces (pieces.map emptyPiece)).words = (ofPieces pieces).words := by
  induction pieces with
  | nil => rfl
  | cons piece pieces ih =>
    cases piece with
    | plain c => exact ih
    | found t word =>
      cases word with
      | none => exact ih
      | some word => exact congrArg ((word, t) :: ·) ih

/-- **Both views show one program.** In the view with literals exactly the literals of the source are found
again; emptying them gives the view with empty literals; and the words of `IF` structures outside of literals
are the same in both views, in the same spelling and order. -/
theorem emptying_gives_other_view (code : Text) :
    Text.cut literal (stripComments true code) = (Text.cut part code).filterMap uncommented ∧
    Text.replaceAll literalToEmpty (stripComments true code) = stripComments false code ∧
    (Skeleton.ofText (stripComments true code)).words =
      (Skeleton.ofText (stripComments false code)).words := by
  have views := emptied_stripComments code
  refine ⟨cut_literal_stripComments code, views.replaceAll_eq, ?_⟩
  rw [Skeleton.ofText, Skeleton.ofText, views.cut_ifPart, Skeleton.words_emptyPiece]

-- an apostrophe in a comment has no partner in the code, and words in literals are none of a structure
example :
    stripComments true "IF (* it's *) a = 'THEN' then x := 'IF'; // don't".toText =
      "IF  a = 'THEN' then x := 'IF'; ".toText ∧
    stripComments false "IF (* it's *) a = 'THEN' then x := 'IF'; // don't".toText =
      "IF  a = '' then x := ''; ".toText ∧
    (Skeleton.ofText "IF  a = 'THEN' then x := 'IF'; ".toText).tokens.map
      (fun token => (token.word, token.spelling)) =
      [(.if, "IF".toText), (.then, "then".toText)] := by
  decide +kernel

end SclNarrator.Source
