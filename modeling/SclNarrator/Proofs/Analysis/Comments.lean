import SclNarrator.Analysis.Session
import SclNarrator.Proofs.Source.Parts

/-!
The text of comments, which no analysis may depend on.

What is proved:
  1. the pieces of a code are still its pieces once its comments have other texts
     (`cuts_of_sameButBody`), so the code without comments is the same
     (`stripPiece_sameButBody`);
  2. code with other texts in its comments is of the same construct, and its report is the same up
     to the numbers of its lines (`Session.analyze_recommented`).

Asked for: no mark stands outside of literals and comments that would open one if a comment brought
the mark to close it (`Source.hasStray`).

Correspondence (analyzer ↔ here):
  `strip_comments`     ↔ `Source.stripComments`, the pieces of `Text.cut Source.part`
  `compute_statistics` ↔ what `Analysis.uncounted` leaves out
-/

namespace SclNarrator
namespace Source

/-- Whether two pieces of source code are the same but for the body of a comment. -/
inductive SameButBody : Piece Part → Piece Part → Prop where
  | plain (c : CodePoint) : SameButBody (.plain c) (.plain c)
  | literal (t : Text) : SameButBody (.found t .literal) (.found t .literal)
  | comment (kind : CommentKind) (body : Text) {body' : Text} (admits : kind.admits body' = true) :
      SameButBody (.found (kind.comment body) .comment) (.found (kind.comment body') .comment)

/-- Whether the second code is the first with other bodies in its comments. -/
def Recommented (code code' : Text) : Prop :=
  ∃ pieces, List.Forall₂ SameButBody (Text.cut part code) pieces ∧ code' = pieces.flatMap Piece.text

/-- Whether a mark stands among pieces that opens nothing: an apostrophe, an opening brace, or `(*`. -/
def hasStray : List (Piece Part) → Bool
  | [] => false
  | .found _ _ :: rest => hasStray rest
  | .plain c :: rest =>
    c == '\'' || c == '\x7b' ||
      (c == '(' && match rest with
        | .plain d :: _ => d == '*'
        | _ => false) ||
      hasStray rest

/-! ## The same pieces -/

theorem head?_comment (kind : CommentKind) (body rest : Text) :
    (kind.comment body ++ rest).head? = kind.opening.head? := by
  cases kind <;> rfl

theorem kind_eq_of_comment {kind kind' : CommentKind} {body body' : Text}
    (same : kind.comment body = kind'.comment body') : kind = kind' := by
  have openings : kind.opening.head? = kind'.opening.head? := by
    rw [← head?_comment kind body [], same, head?_comment]
  revert openings
  cases kind <;> cases kind' <;> decide

theorem head?_of_sameButBody {pieces pieces' : List (Piece Part)}
    (same : List.Forall₂ SameButBody pieces pieces') :
    (pieces.flatMap Piece.text).head? = (pieces'.flatMap Piece.text).head? := by
  induction same with
  | nil => rfl
  | cons first _ ih =>
    rw [List.flatMap_cons, List.flatMap_cons]
    cases first with
    | plain c => rfl
    | literal t => rw [Piece.text, List.head?_append, List.head?_append, ih]
    | comment kind body => rw [Piece.text, Piece.text, head?_comment, head?_comment]

/-- A character that starts neither a literal nor a comment. -/
theorem part_eq_none {c : CodePoint} {rest : Text} (quote : c ≠ '\'') (brace : c ≠ '\x7b')
    (line : c = '/' → rest.head? ≠ some (.char '/')) (block : c = '(' → rest.head? ≠ some (.char '*'))
    (back : Text) : part back (c :: rest) = none := by
  have noComment : afterComment? (c :: rest) = none := by
    unfold afterComment?
    split
    · next same =>
      cases same
      exact absurd rfl (line rfl)
    · next same =>
      cases same
      exact absurd rfl (block rfl)
    · next same =>
      cases same
      exact absurd rfl brace
    · rfl
  rw [part, Program.afterLiteral?_of_head quote, noComment]
  rfl

theorem exists_plain_of_star {back rest : Text} {pieces : List (Piece Part)}
    (cuts : Text.Cuts part back rest pieces)
    (star : rest.head? = some (.char '*')) : ∃ later, pieces = .plain '*' :: later := by
  cases cuts with
  | done => cases star
  | plain missed later =>
    cases star
    exact ⟨_, rfl⟩
  | found ne here later =>
    rcases part_cases here with ⟨-, body, whole, -⟩ | ⟨-, kind, body, whole, -⟩
    · rw [whole] at star
      cases star
    · rw [whole, head?_comment] at star
      cases kind <;> cases star

/-- A plain character stays one when the comments behind it have other bodies. -/
theorem part_plain_of_sameButBody {back rest : Text} {c : CodePoint} {pieces pieces' : List (Piece Part)}
    (missed : part back (c :: rest) = none) (later : Text.Cuts part (c :: back) rest pieces)
    (same : List.Forall₂ SameButBody pieces pieces') (clean : hasStray (.plain c :: pieces) = false)
    (back' : Text) :
    part back' (c :: pieces'.flatMap Piece.text) = none := by
  simp only [hasStray, Bool.or_eq_false_iff, beq_eq_false_iff_ne] at clean
  obtain ⟨⟨⟨quote, brace⟩, block⟩, -⟩ := clean
  have heads := head?_of_sameButBody same
  rw [later.text] at heads
  refine part_eq_none quote brace ?_ ?_ back'
  · -- two slashes are a comment whatever follows
    rintro rfl slash
    rw [← heads] at slash
    cases rest with
    | nil => cases slash
    | cons d rest =>
      cases slash
      cases missed
  · rintro rfl star
    rw [← heads] at star
    obtain ⟨_, rfl⟩ := exists_plain_of_star later star
    cases block

/-- A literal stays what it is, and so does a comment with another body, before a text that starts alike. -/
theorem part_found_of_sameButBody {back m rest rest' : Text} {kind : Part} {piece : Piece Part}
    (here : part back (m ++ rest) = some (kind, rest)) (first : SameButBody (.found m kind) piece)
    (heads : rest.head? = rest'.head?) (back' : Text) :
    ∃ m', piece = .found m' kind ∧ part back' (m' ++ rest') = some (kind, rest') := by
  cases first with
  | literal =>
    refine ⟨m, rfl, ?_⟩
    obtain ⟨body, rfl, inner⟩ := literal_of_part here
    rw [List.cons_append, List.append_assoc, List.singleton_append]
    exact part_of_literal inner back' _
  | @comment kind body body' admits =>
    refine ⟨kind.comment body', rfl, ?_⟩
    obtain ⟨other, -⟩ | ⟨-, kind', _, whole, -, ends⟩ := part_cases here
    · cases other
    · obtain rfl := kind_eq_of_comment (List.append_cancel_right whole)
      refine part_of_comment admits (fun line => ?_) back'
      rw [Stops, ← heads]
      exact ends line

theorem cuts_of_sameButBody {back t : Text} {pieces pieces' : List (Piece Part)}
    (cuts : Text.Cuts part back t pieces)
    (same : List.Forall₂ SameButBody pieces pieces') (clean : hasStray pieces = false) (back' : Text) :
    Text.Cuts part back' (pieces'.flatMap Piece.text) pieces' := by
  induction cuts generalizing pieces' back' with
  | done =>
    cases same
    exact .done back'
  | plain missed later ih =>
    cases same with
    | cons first same =>
      cases first
      have missed' := part_plain_of_sameButBody missed later same clean back'
      simp only [hasStray, Bool.or_eq_false_iff] at clean
      exact .plain missed' (ih same clean.2 _)
  | found ne here later ih =>
    cases same with
    | cons first same =>
      have heads := head?_of_sameButBody same
      rw [later.text] at heads
      obtain ⟨m', rfl, here'⟩ := part_found_of_sameButBody here first heads back'
      exact .found (fronts_part.ne_nil here') here' (ih same clean _)

theorem stripPiece_sameButBody {pieces pieces' : List (Piece Part)}
    (same : List.Forall₂ SameButBody pieces pieces')
    (keep : Bool) : pieces'.flatMap (stripPiece keep) = pieces.flatMap (stripPiece keep) := by
  induction same with
  | nil => rfl
  | cons first _ ih =>
    rw [List.flatMap_cons, List.flatMap_cons, ih]
    cases first <;> rfl

theorem stripComments_recommented {code code' : Text} (clean : hasStray (Text.cut part code) = false)
    (h : Recommented code code') (keep : Bool) : stripComments keep code' = stripComments keep code := by
  obtain ⟨pieces, same, rfl⟩ := h
  have pieces' : Text.cut part (pieces.flatMap Piece.text) = pieces :=
    (cuts_of_sameButBody (Text.cuts_cut fronts_part code) same clean []).cutFrom_eq
  rw [stripComments, stripComments, pieces', stripPiece_sameButBody same]

end Source

/-! ## The report -/

/-- The report without its numbers of lines. -/
def Analysis.uncounted (a : Analysis) : Analysis :=
  { a with statistics :=
      { a.statistics with totalLines := 0, codeLines := 0, commentLines := 0, emptyLines := 0 } }

/-- Beside the code without comments, only the numbers of lines depend on the code. -/
theorem Analysis.uncounted_ofTags {code code' : Text}
    (same : ∀ keep, Source.stripComments keep code' = Source.stripComments keep code) (config : Config)
    (snapshot : Snapshot) (earlier : List Diagnostic) :
    (ofTags config code' snapshot earlier).map uncounted =
      (ofTags config code snapshot earlier).map uncounted := by
  unfold ofTags Construct.classify
  simp only [same]
  cases Run.start snapshot config.places with
  | error fault => rfl
  | ok run =>
    simp only [ok_bind]
    generalize carryOut _ _ _ = ended
    obtain ⟨run, completed⟩ := ended
    cases told : run.narrative with
    | error fault => rfl
    | ok narrative => rfl

/-- **The texts of comments have no influence**, except on the numbers of lines. -/
theorem Session.analyze_recommented (session : Session) {code code' : Text}
    (clean : Source.hasStray (Text.cut Source.part code) = false) (h : Source.Recommented code code')
    (data : Option Json) :
    Construct.classify code' = Construct.classify code ∧
    (session.analyze code' data).map Analysis.uncounted =
      (session.analyze code data).map Analysis.uncounted := by
  have same := Source.stripComments_recommented clean h
  constructor
  · rw [Construct.classify, Construct.classify, same]
  · cases data with
    | none => exact Analysis.uncounted_ofTags same ..
    | some data =>
      rw [analyze, analyze, Analysis.ofData, Analysis.ofData]
      cases Snapshot.ofJson data with
      | ok snapshot => exact Analysis.uncounted_ofTags same ..
      | error fault => exact Analysis.uncounted_ofTags same ..

/-- Code with an opening brace in a literal and two comments. -/
def notedCode : Text := "x:='\x7b';(*a*)//b".toText

/-- The same code with the marks of other comments and an apostrophe in its comments. -/
def renotedCode : Text := "x:='\x7b';(*'\x7b*)//*)\x7d'".toText

theorem recommented_notedCode : Source.Recommented notedCode renotedCode := by
  refine ⟨[.plain 'x', .plain ':', .plain '=', .found ['\'', '\x7b', '\''] .literal, .plain ';',
    .found (Source.CommentKind.block.comment ['\'', '\x7b']) .comment,
    .found (Source.CommentKind.line.comment ['*', ')', '\x7d', '\'']) .comment], ?_, by rfl⟩
  have pieces : Text.cut Source.part notedCode =
      [.plain 'x', .plain ':', .plain '=', .found ['\'', '\x7b', '\''] .literal, .plain ';',
        .found (Source.CommentKind.block.comment ['a']) .comment,
        .found (Source.CommentKind.line.comment ['b']) .comment] := by rfl
  rw [pieces]
  exact .cons (.plain _) (.cons (.plain _) (.cons (.plain _) (.cons (.literal _) (.cons (.plain _)
    (.cons (.comment .block ['a'] (by decide)) (.cons (.comment .line ['b'] (by decide)) .nil))))))

theorem Session.analyze_recommented_marks :
    Source.hasStray (Text.cut Source.part notedCode) = false ∧ Source.Recommented notedCode renotedCode ∧
    Construct.classify renotedCode = Construct.classify notedCode ∧
    (analyze {} renotedCode none).map Analysis.uncounted =
      (analyze {} notedCode none).map Analysis.uncounted := by
  have clean : Source.hasStray (Text.cut Source.part notedCode) = false := by decide +kernel
  exact ⟨clean, recommented_notedCode, analyze_recommented {} clean recommented_notedCode none⟩

-- an opening mark that stands alone is closed by a comment behind it
example : Source.stripComments true "(*x:=1;//".toText = "(*x:=1;".toText ∧
    Source.stripComments true "(*x:=1;//*)".toText = [] := by
  decide +kernel

end SclNarrator
