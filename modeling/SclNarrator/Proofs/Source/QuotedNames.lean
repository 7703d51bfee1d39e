import SclNarrator.Proofs.Source.Parts

/-!
Names in double quotes among literals and comments. The scan for literals and comments does not know
such names, so an apostrophe or a mark of a comment counts inside of a name as it does elsewhere.

What is proved:
  1. a stretch is passed as it is if it is a row of characters that open nothing and of literals that
     stay (`Passes`), and anything else is broken by some text behind it (`Stuck.breaks`);
  2. a name in double quotes survives before every text if and only if it is passed
     (`stripComments_quoted_iff`).

Correspondence (analyzer ↔ here):
  `strip_comments` ↔ `Source.stripComments`
-/

namespace SclNarrator.Source

open CodePoint (char)

/-! ## Stripping piece by piece -/

/-- What stands before a point has no influence on the literals and comments behind it. -/
theorem cutFrom_part (back t : Text) : Text.cutFrom part 0 back t = Text.cut part t := by
  have run {b t : Text} {pieces : List (Piece Part)} (h : Text.Cuts part b t pieces) :
      ∀ b', Text.Cuts part b' t pieces := by
    induction h with
    | done => exact fun b' => .done b'
    | plain missed _ ih => exact fun b' => .plain missed (ih _)
    | found ne here _ ih => exact fun b' => .found ne here (ih _)
  exact (run (Text.cuts_cut fronts_part t) back).cutFrom_eq

variable {keep : Bool}

theorem stripComments_cons {c : CodePoint} {t : Text} (missed : part [] (c :: t) = none) :
    stripComments keep (c :: t) = c :: stripComments keep t := by
  rw [stripComments, Text.cut, Text.cutFrom, missed, List.flatMap_cons, cutFrom_part]
  rfl

theorem stripComments_found (keep : Bool) {m rest : Text} {kind : Part}
    (here : part [] (m ++ rest) = some (kind, rest)) :
    stripComments keep (m ++ rest) = stripPiece keep (.found m kind) ++ stripComments keep rest := by
  rw [stripComments, Text.cut, Text.cutFrom_found (fronts_part.ne_nil here) here, List.flatMap_cons,
    cutFrom_part]
  rfl

theorem stripComments_literal (keep : Bool) {body : Text} (inner : char '\'' ∉ body) (rest : Text) :
    stripComments keep (char '\'' :: (body ++ char '\'' :: rest)) =
      char '\'' :: ((if keep then body else []) ++ char '\'' :: stripComments keep rest) := by
  have whole : char '\'' :: (body ++ char '\'' :: rest) =
      char '\'' :: (body ++ [char '\'']) ++ rest := by simp
  have here := part_of_literal inner [] rest
  rw [whole] at here ⊢
  rw [stripComments_found keep here]
  cases keep <;> simp [stripPiece]

theorem length_stripComments_le (keep : Bool) (t : Text) : (stripComments keep t).length ≤ t.length := by
  have run {back t : Text} {pieces : List (Piece Part)} (h : Text.Cuts part back t pieces) :
      (pieces.flatMap (stripPiece keep)).length ≤ t.length := by
    induction h with
    | done => exact Nat.le_refl _
    | plain _ _ ih => simpa [stripPiece] using ih
    | @found back m rest kind pieces ne here later ih =>
      have piece : (stripPiece keep (.found m kind)).length ≤ m.length := by
        cases kind with
        | comment => exact Nat.zero_le _
        | literal =>
          obtain ⟨body, rfl, -⟩ := literal_of_part here
          cases keep <;> simp [stripPiece]
      rw [List.flatMap_cons, List.length_append, List.length_append]
      omega
  exact run (Text.cuts_cut fronts_part t)

/-! ## What is passed -/

def OpensComment (t : Text) : Prop := ∃ kind : CommentKind, kind.opening <+: t

/-- Whether stripping passes a stretch as it is: a row of characters that open neither a literal nor
a comment, and of literals that stay. The text `after` follows the stretch, whose last character may
open a comment with it. -/
inductive Passes (keep : Bool) (after : Text) : Text → Prop where
  | done : Passes keep after []
  | plain {c : CodePoint} {t : Text} (noLiteral : c ≠ char '\'')
    (noComment : ¬OpensComment (c :: (t ++ after)))
      (later : Passes keep after t) : Passes keep after (c :: t)
  | literal {body t : Text} (inner : char '\'' ∉ body) (stays : keep = true ∨ body = [])
      (later : Passes keep after t) : Passes keep after (char '\'' :: (body ++ char '\'' :: t))

/-- Whether a text holds no apostrophe and no mark that opens a comment. -/
structure Unmarked (t : Text) : Prop where
  literal : char '\'' ∉ t
  comment (kind : CommentKind) : ¬kind.opening <:+: t

theorem part_of_opensNothing {c : CodePoint} {t : Text} (noLiteral : c ≠ char '\'')
    (noComment : ¬OpensComment (c :: t)) (back : Text) : part back (c :: t) = none := by
  cases here : part back (c :: t) with
  | none => rfl
  | some found =>
    obtain ⟨kind, rest⟩ := found
    obtain ⟨-, body, whole, -⟩ | ⟨-, comment, body, whole, -⟩ := part_cases here
    · exact absurd (List.cons.inj whole).1 noLiteral
    · refine absurd ⟨comment, body ++ comment.closing ++ rest, ?_⟩ noComment
      rw [whole, CommentKind.comment]
      simp

/-- What starts a text and lacks the character behind a stretch starts the stretch. -/
theorem prefix_of_not_mem {c : CodePoint} {mark t post : Text} (lacks : c ∉ mark)
    (front : mark <+: t ++ c :: post) :
    mark <+: t := by
  induction t generalizing mark with
  | nil =>
    cases mark with
    | nil => exact List.nil_prefix
    | cons d mark =>
      rw [List.nil_append, List.cons_prefix_cons] at front
      exact absurd (front.1 ▸ List.mem_cons_self) lacks
  | cons d t ih =>
    cases mark with
    | nil => exact List.nil_prefix
    | cons e mark =>
      rw [List.cons_append, List.cons_prefix_cons] at front
      rw [List.cons_prefix_cons]
      exact ⟨front.1, ih (fun mem => lacks (List.mem_cons_of_mem _ mem)) front.2⟩

theorem opensComment_quote {t : Text} (post : Text) (h : OpensComment (t ++ char '"' :: post)) :
    OpensComment t := by
  obtain ⟨kind, front⟩ := h
  have lacks : char '"' ∉ kind.opening := by cases kind <;> decide
  exact ⟨kind, prefix_of_not_mem lacks front⟩

namespace Passes

variable {t after : Text}

theorem stripComments_append (h : Passes keep after t) :
    stripComments keep (t ++ after) = t ++ stripComments keep after := by
  induction h with
  | done => rfl
  | plain noLiteral noComment _ ih =>
    rw [List.cons_append, stripComments_cons (part_of_opensNothing noLiteral noComment []), ih,
      List.cons_append]
  | @literal body t inner stays _ ih =>
    have kept : (if keep then body else []) = body := by
      obtain rfl | rfl := stays <;> simp
    have whole : char '\'' :: (body ++ char '\'' :: t) ++ after =
        char '\'' :: (body ++ char '\'' :: (t ++ after)) := by
      simp
    rw [whole, stripComments_literal keep inner, kept, ih]
    simp

theorem quote (h : Passes keep after t) (post : Text) : Passes keep (after ++ char '"' :: post) t := by
  induction h with
  | done => exact .done
  | plain noLiteral noComment _ ih =>
    refine .plain noLiteral (fun opens => noComment (opensComment_quote post ?_)) ih
    simpa using opens
  | literal inner stays _ ih => exact .literal inner stays ih

end Passes

theorem Unmarked.passes (keep : Bool) {t : Text} (h : Unmarked t) : Passes keep [] t := by
  induction t with
  | nil => exact .done
  | cons c t ih =>
    refine .plain (fun same => h.literal (same ▸ List.mem_cons_self)) ?_ (ih ⟨?_, ?_⟩)
    · intro ⟨kind, front⟩
      rw [List.append_nil] at front
      exact h.comment kind front.isInfix
    · exact fun mem => h.literal (List.mem_cons_of_mem _ mem)
    · exact fun kind inside => h.comment kind (inside.trans (List.suffix_cons c t).isInfix)

/-! ## What is broken -/

/-- What ends a pass: a mark that opens a comment, a literal that is emptied, or an apostrophe
without a partner. -/
inductive Stuck (keep : Bool) : Text → Prop where
  | comment (kind : CommentKind) (rest : Text) : Stuck keep (kind.opening ++ rest)
  | emptied {body : Text} (inner : char '\'' ∉ body) (ne : body ≠ []) (drops : keep = false) (rest : Text) :
      Stuck keep (char '\'' :: (body ++ char '\'' :: rest))
  | unpaired {rest : Text} (last : char '\'' ∉ rest) : Stuck keep (char '\'' :: rest)

theorem exists_passes (keep : Bool) (t : Text) :
    ∃ a b, t = a ++ b ∧ Passes keep b a ∧ (b = [] ∨ Stuck keep b) := by
  -- by induction on the length: a literal takes several characters
  induction size : t.length using Nat.strong_induction_on generalizing t with
  | _ size ih =>
    subst size
    cases t with
    | nil => exact ⟨[], [], rfl, .done, .inl rfl⟩
    | cons c t =>
      by_cases quote : c = char '\''
      · subst quote
        by_cases paired : char '\'' ∈ t
        · obtain ⟨body, rest, rfl, inner⟩ := List.eq_append_cons_of_mem paired
          by_cases stays : keep = true ∨ body = []
          · obtain ⟨a, b, rfl, passes, ends⟩ := ih rest.length (by simp; omega) rest rfl
            exact ⟨char '\'' :: (body ++ char '\'' :: a), b, by simp, .literal inner stays passes, ends⟩
          · obtain ⟨drops, ne⟩ := not_or.mp stays
            exact ⟨[], _, rfl, .done, .inr (.emptied inner ne (Bool.eq_false_iff.mpr drops) rest)⟩
        · exact ⟨[], _, rfl, .done, .inr (.unpaired paired)⟩
      · by_cases opens : OpensComment (c :: t)
        · obtain ⟨kind, rest, whole⟩ := opens
          exact ⟨[], c :: t, rfl, .done, .inr (whole ▸ .comment kind rest)⟩
        · obtain ⟨a, b, rfl, passes, ends⟩ := ih t.length (by simp) t rfl
          exact ⟨c :: a, b, rfl, .plain quote opens passes, ends⟩

theorem part_of_opening {kind : CommentKind} {t : Text} (closes : kind.closing <:+: t) :
    ∃ rest, part [] (kind.opening ++ t) = some (.comment, rest) := by
  have found : (afterComment? (kind.opening ++ t)).isSome = true := by
    cases kind with
    | line => rfl
    | block =>
      show ((Text.splitOnce? ['*', ')'] t).map Prod.snd).isSome = true
      rw [Option.isSome_map]
      exact hasPart_iff.mpr closes
    | brace =>
      show ((Text.splitOnce? ['\x7d'] t).map Prod.snd).isSome = true
      rw [Option.isSome_map]
      exact hasPart_iff.mpr closes
  have noLiteral : afterLiteral? (kind.opening ++ t) = none := by
    cases kind <;> exact Program.afterLiteral?_of_head (by decide)
  obtain ⟨rest, after⟩ := Option.isSome_iff_exists.mp found
  exact ⟨rest, by rw [part, noLiteral, after]; rfl⟩

/-- Behind a quoted stretch that ends a pass there can be a text that breaks it. -/
theorem Stuck.breaks {t : Text} (h : Stuck keep t) :
    ∃ post, stripComments keep (t ++ char '"' :: post) ≠ t ++ char '"' :: stripComments keep post := by
  cases h with
  | comment kind rest =>
    refine ⟨kind.closing, fun same => ?_⟩
    have closes : kind.closing <:+: rest ++ char '"' :: kind.closing := ⟨rest ++ [char '"'], [], by simp⟩
    obtain ⟨left, here⟩ := part_of_opening closes
    obtain ⟨m, ne, whole⟩ := fronts_part _ _ _ _ here
    rw [whole] at here
    have alone : stripComments keep kind.closing = kind.closing := by
      cases kind <;> cases keep <;> rfl
    have size := congrArg List.length same
    rw [alone, List.append_assoc, whole, stripComments_found keep here] at size
    have less := length_stripComments_le keep left
    have nonempty := List.length_pos_iff.mpr ne
    simp only [stripPiece, List.nil_append, List.length_append] at size
    omega
  | @emptied body inner ne drops rest =>
    subst drops
    refine ⟨[], fun same => ?_⟩
    have whole : char '\'' :: (body ++ char '\'' :: rest) ++ [char '"'] =
        char '\'' :: (body ++ char '\'' :: (rest ++ [char '"'])) := by simp
    have size := congrArg List.length same
    rw [whole, stripComments_literal false inner] at size
    have less := length_stripComments_le false (rest ++ [char '"'])
    have nonempty := List.length_pos_iff.mpr ne
    simp at size less
    omega
  | @unpaired rest last =>
    -- the apostrophe takes the next one for its partner, and so the comment behind the quote is none
    refine ⟨[char '/', char '/', char '\''], fun same => ?_⟩
    have inner : char '\'' ∉ rest ++ [char '"', char '/', char '/'] := by simpa using last
    have comment : stripComments keep [char '/', char '/', char '\''] = [] := by cases keep <;> rfl
    have whole : char '\'' :: rest ++ [char '"', char '/', char '/', char '\''] =
        char '\'' :: (rest ++ [char '"', char '/', char '/'] ++ [char '\'']) := by simp
    rw [comment, whole, stripComments_literal keep inner, ← List.cons_append] at same
    have ends := congrArg List.getLast? same
    rw [List.getLast?_append, List.getLast?_append] at ends
    simp [stripComments, Text.cut, Text.cutFrom] at ends

/-! ## Names in double quotes -/

theorem stripComments_quote (keep : Bool) (t : Text) :
    stripComments keep (char '"' :: t) = char '"' :: stripComments keep t := by
  refine stripComments_cons (part_of_opensNothing (by decide) ?_ [])
  intro opens
  obtain ⟨kind, front⟩ := opensComment_quote (t := []) t opens
  cases kind <;> simp [CommentKind.opening] at front

theorem Passes.stripComments_quoted {t : Text} (h : Passes keep [] t) (post : Text) :
    stripComments keep (t ++ char '"' :: post) = t ++ char '"' :: stripComments keep post := by
  have passed := (h.quote post).stripComments_append
  rwa [List.nil_append, stripComments_quote] at passed

/-- **Names in double quotes under stripping.** Behind a text without marks, a name in double quotes
is left as it is before every text if and only if it is a row of characters that open nothing and of
literals that stay. -/
theorem stripComments_quoted_iff (keep : Bool) {pre : Text} (unmarked : Unmarked pre) (name : Text) :
    (∀ post, stripComments keep (pre ++ char '"' :: (name ++ char '"' :: post)) =
        pre ++ char '"' :: (name ++ char '"' :: stripComments keep post)) ↔
      Passes keep [] name := by
  have before := (unmarked.passes keep).stripComments_quoted
  constructor
  · intro kept
    obtain ⟨a, b, rfl, passes, rfl | stuck⟩ := exists_passes keep name
    · rwa [List.append_nil]
    · obtain ⟨post, broken⟩ := stuck.breaks
      apply absurd _ broken
      have here := kept post
      rw [before, List.append_assoc, (passes.quote post).stripComments_append] at here
      simpa using here
  · intro passes post
    rw [before, passes.stripComments_quoted]

/-- A name with a literal in it stays where literals stay, and only there. -/
theorem stripComments_quoted_iff_valve :
    Unmarked "x := ".toText ∧
      (∀ post, stripComments true ("x := ".toText ++ char '"' :: ("V'1'".toText ++ char '"' :: post)) =
        "x := ".toText ++ char '"' :: ("V'1'".toText ++ char '"' :: stripComments true post)) ∧
      ¬∀ post, stripComments false ("x := ".toText ++ char '"' :: ("V'1'".toText ++ char '"' :: post)) =
        "x := ".toText ++ char '"' :: ("V'1'".toText ++ char '"' :: stripComments false post) := by
  have unmarked : Unmarked "x := ".toText := by
    refine ⟨by decide, fun kind => ?_⟩
    rw [← hasPart_iff]
    cases kind <;> decide
  have passes : Passes true [] "V'1'".toText := by
    have noComment : ¬OpensComment [char 'V', char '\'', char '1', char '\''] := by
      intro ⟨kind, front⟩
      cases kind <;> simp [CommentKind.opening] at front
    have last : char '\'' ∉ [char '1'] := by decide
    exact .plain (by decide) noComment (.literal last (.inl rfl) .done)
  refine ⟨unmarked, (stripComments_quoted_iff true unmarked _).mpr passes, fun kept => ?_⟩
  exact absurd (kept []) (by decide +kernel)

/-- Two slashes in a name take the rest of the line with them, and an apostrophe takes the code up
to the next one. -/
theorem marks_cut_quoted_names :
    stripComments true "\"a//b\" := 1;".toText = "\"a".toText ∧
    stripComments true " := 1;".toText = " := 1;".toText ∧
    stripComments false "\"it's\" := 'x';".toText = "\"it''x';".toText ∧
    stripComments false " := 'x';".toText = " := '';".toText := by
  decide +kernel

end SclNarrator.Source
