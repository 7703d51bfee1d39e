import SclNarrator.Proofs.Analysis.Comments
import SclNarrator.Proofs.Program.Stretches
import SclNarrator.Analysis.Session

/-!
How the lines inside of comments are counted. The reader of lines looks at the start of a line only,
and the scanner of comments at every character. Code is tidy (`tidy`) if nothing in it leads the reader
astray: a comment over several lines is the first on its line, and no line starts, in a literal or out
of one, with a mark that opens a comment and is not closed.

What is proved:
  1. along tidy code the reader is in step with the scanner (`InStep`): each piece keeps it so, hence
     any number of pieces does (`inStep_of_tidy`);
  2. so behind tidy code the lines inside of a comment are counted as comment lines if the comment is
     the first on its line, and else as if there were no comment; and the three counts add up to the
     number of lines for every code (`lines_counted`).

Correspondence (analyzer ↔ here):
  `compute_statistics` ↔ `Report.statistics`, `Report.lineKinds`
  `strip_comments`     ↔ the pieces of `Text.cut Source.part`
-/

namespace SclNarrator.Report

open CodePoint (char)
open Source

variable {a m t x y line line' rest before behind : Text} {closing : Option Text}

/-! ## Lines -/

def firstLine (t : Text) : Text := (linesOf t).headD []

def lastLine (t : Text) : Text := (linesOf t).getLastD []

/-- The lines between the first and the last. -/
def innerLines (t : Text) : List Text := (linesOf t).tail.dropLast

def lineEnds (t : Text) : Nat := t.count (char '\n')

theorem linesOf_newline (t : Text) : linesOf (char '\n' :: t) = [] :: linesOf t := by
  rw [linesOf, Text.partsAt, if_pos rfl]
  rfl

theorem linesOf_eq_cons (t : Text) : ∃ first later, linesOf t = first :: later := by
  obtain ⟨first, later, split, -⟩ := @partsAt_eq_cons t (char '\n')
  exact ⟨first, later, split⟩

theorem linesOf_cons {c : CodePoint} {first : Text} {later : List Text} (other : c ≠ '\n')
    (split : linesOf t = first :: later) : linesOf (c :: t) = (c :: first) :: later := by
  rw [linesOf] at split ⊢
  rw [Text.partsAt, if_neg other, split]

theorem linesOf_of_not_mem (h : char '\n' ∉ t) : linesOf t = [t] := partsAt_of_not_mem h

theorem linesOf_append (x y : Text) :
    linesOf (x ++ y) = (linesOf x).dropLast ++ (lastLine x ++ firstLine y) :: (linesOf y).tail := by
  induction x with
  | nil =>
    obtain ⟨first, later, split⟩ := linesOf_eq_cons y
    rw [List.nil_append, firstLine, split]
    rfl
  | cons c x ih =>
    obtain ⟨first, later, split⟩ := linesOf_eq_cons x
    by_cases newline : c = '\n'
    · subst newline
      rw [List.cons_append, linesOf_newline, ih, lastLine, lastLine, linesOf_newline, split]
      rfl
    · rw [lastLine, split] at ih
      rw [lastLine, linesOf_cons newline split]
      cases later with
      | nil => exact linesOf_cons newline ih
      | cons second later => exact linesOf_cons newline ih

theorem length_linesOf (t : Text) : (linesOf t).length = lineEnds t + 1 := by
  induction t with
  | nil => rfl
  | cons c t ih =>
    by_cases newline : c = '\n'
    · subst newline
      rw [linesOf_newline, List.length_cons, ih, lineEnds, lineEnds, List.count_cons_self]
    · obtain ⟨first, later, split⟩ := linesOf_eq_cons t
      rw [split] at ih
      rw [linesOf_cons newline split, lineEnds, List.count_cons_of_ne newline]
      exact ih

theorem linesOf_eq_of_mem (h : char '\n' ∈ t) :
    linesOf t = firstLine t :: (innerLines t ++ [lastLine t]) := by
  have size := length_linesOf t
  have occurs := List.count_pos_iff.mpr h
  obtain ⟨first, later, split⟩ := linesOf_eq_cons t
  rw [split, List.length_cons, lineEnds] at size
  rcases List.eq_nil_or_concat later with rfl | ⟨inner, last, rfl⟩
  · rw [List.length_nil] at size
    omega
  · have last' : lastLine t = last := by
      rw [lastLine, split, List.concat_eq_append, ← List.cons_append]
      exact List.getLastD_concat
    simp [firstLine, innerLines, last', split]

theorem lines_of_linesOf {first last : Text} {inner : List Text}
    (h : linesOf t = first :: (inner ++ [last])) :
    firstLine t = first ∧ innerLines t = inner ∧ lastLine t = last := by
  refine ⟨by rw [firstLine, h]; rfl, by rw [innerLines, h, List.tail_cons, List.dropLast_concat], ?_⟩
  rw [lastLine, h, ← List.cons_append]
  exact List.getLastD_concat

theorem innerLines_of_not_mem (h : char '\n' ∉ t) : innerLines t = [] := by
  rw [innerLines, linesOf_of_not_mem h]
  rfl

theorem head?_of_front {c : CodePoint} (front : x <+: t) (h : x.head? = some c) : t.head? = some c := by
  obtain ⟨later, rfl⟩ := front
  rw [List.head?_append, h]
  rfl

theorem firstLine_front (t : Text) : firstLine t <+: t := by
  obtain ⟨first, later, split, whole⟩ := @partsAt_eq_cons t (char '\n')
  rw [firstLine, linesOf, split]
  exact ⟨_, whole.symm⟩

theorem lineEnds_append (x y : Text) : lineEnds (x ++ y) = lineEnds x + lineEnds y := List.count_append

/-! What stands on one line makes the last line of what is before it longer, and the first line of what
is behind. -/

theorem lastLine_append_of_not_mem (h : char '\n' ∉ y) (x : Text) : lastLine (x ++ y) = lastLine x ++ y := by
  rw [lastLine, linesOf_append, firstLine, linesOf_of_not_mem h]
  simp

theorem firstLine_append_of_not_mem (h : char '\n' ∉ x) (y : Text) :
    firstLine (x ++ y) = x ++ firstLine y := by
  rw [firstLine, linesOf_append, lastLine, linesOf_of_not_mem h]
  rfl

theorem lastLine_append_of_mem (h : char '\n' ∈ y) (x : Text) : lastLine (x ++ y) = lastLine y := by
  rw [lastLine, linesOf_append, linesOf_eq_of_mem h, List.tail_cons, ← List.cons_append, ← List.append_assoc]
  exact List.getLastD_concat ..

theorem firstLine_append_of_mem (h : char '\n' ∈ x) (y : Text) : firstLine (x ++ y) = firstLine x := by
  rw [firstLine, linesOf_append, linesOf_eq_of_mem h, ← List.cons_append, List.dropLast_concat]
  rfl

/-! ## The start of a line -/

theorem trimRight_append (solid : Stops isBlank x.reverse) (t : Text) :
    Text.trimRight (x ++ t) = x ++ Text.trimRight t := by
  rw [Text.trimRight, Text.trimLeft, List.reverse_append, dropWhile_append_stops _ solid, List.reverse_append,
    List.reverse_reverse]
  rfl

/-- Blanks before a text that is visible at both ends are trimmed, and those behind what follows it. -/
theorem trim_append (blank : Text.blank a = true) (ne : x ≠ []) (start : Stops isBlank x)
    (finish : Stops isBlank x.reverse) (t : Text) : Text.trim (a ++ (x ++ t)) = x ++ Text.trimRight t := by
  have left : Text.trimLeft (a ++ (x ++ t)) = x ++ t :=
    dropWhile_append_of_stops (List.all_eq_true.mp blank) (start.append ne)
  rw [Text.trim, left, trimRight_append finish]

theorem infix_trimRight (visible : ∀ c ∈ m, isBlank c = false) : m <:+: Text.trimRight t ↔ m <:+: t := by
  refine ⟨fun h => h.trans (Text.trimRight_front t).isInfix, ?_⟩
  rintro ⟨u, v, rfl⟩
  rcases List.eq_nil_or_concat m with rfl | ⟨front, last, rfl⟩
  · exact List.nil_infix
  · have solid : Stops isBlank (u ++ front.concat last).reverse := by
      simp [visible last (by simp)]
    rw [trimRight_append solid]
    exact ⟨u, _, rfl⟩

theorem infix_trim (visible : ∀ c ∈ m, isBlank c = false) : m <:+: Text.trim t ↔ m <:+: t := by
  refine ⟨fun h => h.trans (Text.trim_infix t), ?_⟩
  rintro ⟨u, v, rfl⟩
  rw [Text.trim, infix_trimRight visible]
  cases m with
  | nil => exact List.nil_infix
  | cons c m =>
    have solid : Stops isBlank (c :: m ++ v) := stops_cons.mpr (visible c List.mem_cons_self)
    rw [Text.trimLeft, List.append_assoc, dropWhile_append_stops u solid, ← List.append_assoc]
    exact ⟨_, v, rfl⟩

/-! ## The kind of a line -/

theorem visible_of_mem_closing (kind : CommentKind) : ∀ c ∈ kind.closing, isBlank c = false := by
  cases kind <;> decide

theorem lineKind_of_opening (kind : CommentKind) (h : line.trim = kind.opening ++ rest) :
    lineKind none line = (.comment, if Text.hasPart kind.closing rest then none else some kind.closing) := by
  rw [lineKind, h]
  cases kind with
  | line =>
    have closed : Text.hasPart CommentKind.line.closing rest = true := hasPart_iff.mpr List.nil_infix
    rw [closed]
    rfl
  | block | brace => rfl

theorem lineKind_comment (kind : CommentKind) (blank : Text.blank a = true) (t : Text) :
    lineKind none (a ++ (kind.opening ++ t)) =
      (.comment, if Text.hasPart kind.closing t then none else some kind.closing) := by
  have same : Text.hasPart kind.closing (Text.trimRight t) = Text.hasPart kind.closing t := by
    rw [Bool.eq_iff_iff, hasPart_iff, hasPart_iff, infix_trimRight (visible_of_mem_closing kind)]
  have trimmed : Text.trim (a ++ (kind.opening ++ t)) = kind.opening ++ Text.trimRight t := by
    apply trim_append blank <;> cases kind <;> simp [CommentKind.opening] <;> decide
  rw [lineKind_of_opening kind trimmed, same]

/-- A line that starts with something else leaves no comment open. -/
theorem lineKind_of_plain {c : CodePoint} (h : line.trim = c :: rest) (brace : c ≠ '\x7b')
    (block : c = '(' → rest.head? ≠ some (char '*')) : (lineKind none line).2 = none := by
  rw [lineKind, h]
  split
  · rfl
  · rfl
  · next same =>
    cases same
    exact absurd rfl (block rfl)
  · next same =>
    cases same
    exact absurd rfl brace
  · rfl

theorem lineKind_plain {c : CodePoint} (blank : Text.blank a = true) (visible : isBlank c = false)
    (brace : c ≠ '\x7b') (block : c = '(' → t.head? ≠ some (char '*')) :
    (lineKind none (a ++ c :: t)).2 = none := by
  have solid : Stops isBlank [c] := stops_cons.mpr visible
  have trimmed : Text.trim (a ++ ([c] ++ t)) = [c] ++ Text.trimRight t :=
    trim_append blank (List.cons_ne_nil _ _) solid solid t
  exact lineKind_of_plain trimmed brace fun paren star =>
    block paren (head?_of_front (Text.trimRight_front t) star)

theorem lineKind_blank (blank : Text.blank a = true) : lineKind none a = (.empty, none) := by
  have trimmed : a.trim = [] := by rw [← List.isEmpty_iff, isEmpty_trim, blank]
  rw [lineKind, trimmed]

theorem lineKind_of_longer (kind : CommentKind) (h : line.trim = kind.opening ++ x)
    (longer : line'.trim = kind.opening ++ (x ++ y)) (closed : (lineKind none line).2 = none) :
    (lineKind none line').2 = none := by
  rw [lineKind_of_opening kind h] at closed
  have part : Text.hasPart kind.closing x = true := by
    by_contra none
    rw [if_neg none] at closed
    cases closed
  have inside := (hasPart_iff.mp part).trans (List.prefix_append x y).isInfix
  rw [lineKind_of_opening kind longer, if_pos (hasPart_iff.mpr inside)]

/-- A line in which a literal ends opens no comment with more text behind the literal if it opens
none without. -/
theorem lineKind_append (h : (lineKind none (x ++ [char '\''])).2 = none) (t : Text) :
    (lineKind none (x ++ [char '\''] ++ t)).2 = none := by
  have quote : Stops isBlank [char '\''] := stops_cons.mpr (by decide)
  -- The line without its leading blanks is visible at both ends.
  obtain ⟨blanks, body, rfl, blank, start⟩ :
      ∃ blanks body, x = blanks ++ body ∧ Text.blank blanks = true ∧ Stops isBlank (body ++ [char '\'']) := by
    refine ⟨x.takeWhile isBlank, x.dropWhile isBlank, List.takeWhile_append_dropWhile.symm,
      List.all_eq_true.mpr fun c => List.mem_takeWhile_imp, ?_⟩
    cases rest : x.dropWhile isBlank with
    | nil => exact quote
    | cons c body => exact (rest ▸ stops_dropWhile isBlank x).append (List.cons_ne_nil _ _)
  have trimmed (t : Text) :
      Text.trim (blanks ++ body ++ [char '\''] ++ t) = body ++ [char '\''] ++ Text.trimRight t := by
    rw [List.append_assoc blanks, List.append_assoc blanks]
    refine trim_append blank (by simp) start ?_ t
    rw [List.reverse_append]
    exact quote.append (List.cons_ne_nil _ _)
  have short := trimmed []
  rw [List.append_nil, show Text.trimRight [] = [] from rfl, List.append_nil] at short
  have long := trimmed t
  cases body with
  | nil => exact lineKind_of_plain long (by decide) fun paren => absurd paren (by decide)
  | cons c body =>
    by_cases brace : c = '\x7b'
    · subst brace
      exact lineKind_of_longer .brace short long h
    · by_cases block : c = '(' ∧ body.head? = some (char '*')
      · obtain ⟨rfl, star⟩ := block
        obtain ⟨body, rfl⟩ := List.head?_eq_some_iff.mp star
        exact lineKind_of_longer .block short long h
      · refine lineKind_of_plain long brace fun paren star => block ⟨paren, ?_⟩
        cases body with
        | nil => cases star
        | cons d body => exact star

/-! ## Kinds of lines in a row -/

/-- The mark that ends the comment that is open behind lines, if one is. -/
def waiting (closing : Option Text) : List Text → Option Text
  | [] => closing
  | line :: rest => waiting (lineKind closing line).2 rest

theorem lineKinds_cons (closing : Option Text) (line : Text) (lines : List Text) :
    lineKinds closing (line :: lines) = (lineKind closing line).1 :: lineKinds
      (lineKind closing line).2 lines := rfl

theorem lineKinds_append (closing : Option Text) (lines lines' : List Text) :
    lineKinds closing (lines ++ lines') = lineKinds closing lines ++ lineKinds
      (waiting closing lines) lines' := by
  induction lines generalizing closing with
  | nil => rfl
  | cons line lines ih => rw [List.cons_append, lineKinds_cons, ih, lineKinds_cons, waiting, List.cons_append]

theorem waiting_append (closing : Option Text) (lines lines' : List Text) :
    waiting closing (lines ++ lines') = waiting (waiting closing lines) lines' := by
  induction lines generalizing closing with
  | nil => rfl
  | cons line lines ih => exact ih _

theorem length_lineKinds (closing : Option Text) (lines : List Text) :
    (lineKinds closing lines).length = lines.length := by
  induction lines generalizing closing with
  | nil => rfl
  | cons line lines ih => rw [lineKinds_cons, List.length_cons, ih, List.length_cons]

theorem waiting_none {lines : List Text} (h : ∀ l ∈ lines, (lineKind none l).2 = none) :
    waiting none lines = none := by
  induction lines with
  | nil => rfl
  | cons line lines ih =>
    rw [waiting, h line List.mem_cons_self]
    exact ih fun l mem => h l (List.mem_cons_of_mem _ mem)

theorem waiting_of_free {lines : List Text} (free : ∀ l ∈ lines, ¬m <:+: l) :
    waiting (some m) lines = some m ∧ ∀ k ∈ lineKinds (some m) lines, k = .comment := by
  induction lines with
  | nil => exact ⟨rfl, by simp [lineKinds]⟩
  | cons line lines ih =>
    have unclosed : Text.hasPart m line.trim = false := by
      rw [Bool.eq_false_iff, ne_eq, hasPart_iff]
      exact fun inside => free line List.mem_cons_self (inside.trans (Text.trim_infix line))
    have here : lineKind (some m) line = (.comment, some m) := by
      rw [lineKind, unclosed]
      rfl
    obtain ⟨waits, comments⟩ := ih fun l mem => free l (List.mem_cons_of_mem _ mem)
    rw [waiting, lineKinds_cons, here]
    exact ⟨waits, by simpa using comments⟩

/-! ## Reader and scanner in step -/

/-- The mark that ends the comment that is open at the start of the last line, if one is. -/
def waits (t : Text) : Option Text := waiting none (linesOf t).dropLast

/-- Whether the reader of lines is in step with the scanner between two texts: it waits for nothing
at the start of a line that is blank so far, or it will wait for nothing at the end of the line. -/
inductive InStep (before behind : Text) : Prop where
  | fresh (closed : waits before = none) (blank : Text.blank (lastLine before) = true)
  | taken (visible : Text.blank (lastLine before) = false)
      (closed : (lineKind (waits before) (lastLine before ++ firstLine behind)).2 = none)

theorem waits_append_of_not_mem (h : char '\n' ∉ y) (x : Text) : waits (x ++ y) = waits x := by
  rw [waits, linesOf_append, linesOf_of_not_mem h, List.tail_cons, List.dropLast_concat]
  rfl

theorem waits_append_of_mem (h : char '\n' ∈ y) (x : Text) :
    waits (x ++ y) = waiting (lineKind (waits x) (lastLine x ++ firstLine y)).2 (innerLines y) := by
  rw [waits, linesOf_append, linesOf_eq_of_mem h, List.tail_cons, ← List.cons_append, ← List.append_assoc,
    List.dropLast_concat, waiting_append]
  rfl

theorem newline_not_mem_opening (kind : CommentKind) : char '\n' ∉ kind.opening := by
  cases kind <;> decide

theorem newline_not_mem_closing (kind : CommentKind) : char '\n' ∉ kind.closing := by
  cases kind <;> decide

theorem newline_mem_comment {kind : CommentKind} {body : Text} :
    char '\n' ∈ kind.comment body ↔ char '\n' ∈ body := by
  simp [CommentKind.comment, newline_not_mem_opening, newline_not_mem_closing]

theorem linesOf_comment (kind : CommentKind) {body : Text} (h : char '\n' ∈ body) :
    linesOf (kind.comment body) =
      (kind.opening ++ firstLine body) :: (innerLines body ++ [lastLine body ++ kind.closing]) := by
  have opens := linesOf_of_not_mem (newline_not_mem_opening kind)
  have closes := linesOf_of_not_mem (newline_not_mem_closing kind)
  have behind : linesOf (body ++ kind.closing) =
      firstLine body :: (innerLines body ++ [lastLine body ++ kind.closing]) := by
    have mark : firstLine kind.closing = kind.closing := by rw [firstLine, closes]; rfl
    rw [linesOf_append, linesOf_eq_of_mem h, ← List.cons_append, List.dropLast_concat, mark, closes]
    rfl
  rw [CommentKind.comment, linesOf_append, opens, behind, firstLine, behind, lastLine, opens]
  rfl

/-- The body of a comment over several lines holds the closing mark in none of them. -/
theorem not_infix_of_mem_linesOf {kind : CommentKind} {body : Text} (admits : kind.admits body = true)
    (lines : char '\n' ∈ body) : ∀ l ∈ linesOf body, ¬kind.closing <:+: l := by
  intro l mem inside
  have inside := inside.trans (Text.infix_of_mem_partsAt mem)
  cases kind with
  | line => simp [CommentKind.admits, lines] at admits
  | block =>
    have part : Text.hasPart ['*', ')'] body = true := hasPart_iff.mpr inside
    simp [CommentKind.admits, part] at admits
  | brace =>
    have mem : char '\x7d' ∈ body := inside.subset List.mem_cons_self
    simp [CommentKind.admits, mem] at admits

namespace InStep

theorem visible_left (h : Text.blank x = false) (y : Text) : Text.blank (x ++ y) = false := by
  rw [Text.blank, List.all_append, show x.all isBlank = false from h, Bool.false_and]

theorem visible_right (h : Text.blank y = false) (x : Text) : Text.blank (x ++ y) = false := by
  rw [Text.blank, List.all_append, show y.all isBlank = false from h, Bool.and_false]

theorem same_line (oneLine : char '\n' ∉ m) (visible : Text.blank (lastLine before) = false)
    (closed : (lineKind (waits before) (lastLine before ++ firstLine (m ++ rest))).2 = none) :
    InStep (before ++ m) rest := by
  refine taken ?_ ?_
  · rw [lastLine_append_of_not_mem oneLine]
    exact visible_left visible m
  · rw [waits_append_of_not_mem oneLine, lastLine_append_of_not_mem oneLine, List.append_assoc,
      ← firstLine_append_of_not_mem oneLine]
    exact closed

theorem new_line (oneLine : char '\n' ∉ m) (visible : Text.blank m = false) (idle : waits before = none)
    (closed : (lineKind none (lastLine before ++ (m ++ firstLine rest))).2 = none) :
    InStep (before ++ m) rest := by
  refine taken ?_ ?_
  · rw [lastLine_append_of_not_mem oneLine]
    exact visible_right visible _
  · rw [waits_append_of_not_mem oneLine, lastLine_append_of_not_mem oneLine, List.append_assoc, idle]
    exact closed

theorem newline (h : InStep before (char '\n' :: rest)) : InStep (before ++ [char '\n']) rest := by
  have only : char '\n' ∈ [char '\n'] := List.mem_singleton_self _
  have last : lastLine (before ++ [char '\n']) = [] := lastLine_append_of_mem only before
  refine fresh ?_ (by rw [last]; rfl)
  have first : firstLine [char '\n'] = [] := rfl
  rw [waits_append_of_mem only, first, List.append_nil]
  cases h with
  | fresh closed blank =>
    rw [closed, lineKind_blank blank]
    rfl
  | taken visible closed =>
    have first' : firstLine (char '\n' :: rest) = [] := by rw [firstLine, linesOf_newline]; rfl
    rw [first', List.append_nil] at closed
    rw [closed]
    rfl

theorem plain {c : CodePoint} (h : InStep before (c :: rest))
    (opens : Text.blank (lastLine before) = true → c ≠ '\x7b' ∧ (c = '(' → rest.head? ≠ some (char '*'))) :
    InStep (before ++ [c]) rest := by
  by_cases line : c = '\n'
  · subst line
    exact newline h
  · have oneLine : char '\n' ∉ [c] := by simpa using Ne.symm line
    cases h with
    | taken visible closed => exact same_line oneLine visible closed
    | fresh closed blank =>
      obtain ⟨brace, block⟩ := opens blank
      cases shows : isBlank c with
      | true =>
        refine fresh (by rw [waits_append_of_not_mem oneLine, closed]) ?_
        rw [lastLine_append_of_not_mem oneLine, Text.blank, List.all_append, ← Text.blank, blank]
        simpa using shows
      | false =>
        refine new_line oneLine (by simpa [Text.blank] using shows) closed
          (lineKind_plain blank shows brace ?_)
        intro paren star
        exact block paren (head?_of_front (firstLine_front rest) star)

theorem literal {body : Text} (h : InStep before (char '\'' :: (body ++ [char '\'']) ++ rest))
    (later : ∀ l ∈ (linesOf (char '\'' :: (body ++ [char '\'']))).tail, (lineKind none l).2 = none) :
    InStep (before ++ char '\'' :: (body ++ [char '\''])) rest := by
  have quote : char '\n' ∉ [char '\''] := by decide
  have opens (blank : Text.blank (lastLine before) = true) (t : Text) :
      (lineKind none (lastLine before ++ char '\'' :: t)).2 = none :=
    lineKind_plain blank (by decide) (by decide) fun paren => absurd paren (by decide)
  by_cases lines : char '\n' ∈ char '\'' :: (body ++ [char '\''])
  · have first :
        (lineKind (waits before)
          (lastLine before ++ firstLine (char '\'' :: (body ++ [char '\''])))).2 = none := by
      cases h with
      | fresh closed blank =>
        have starts := firstLine_append_of_not_mem quote (body ++ [char '\''])
        rw [List.singleton_append] at starts
        rw [closed, starts]
        exact opens blank _
      | taken visible closed => rwa [firstLine_append_of_mem lines] at closed
    have split := linesOf_eq_of_mem lines
    have last : lastLine (char '\'' :: (body ++ [char '\''])) = lastLine (char '\'' :: body) ++ [char '\''] :=
      lastLine_append_of_not_mem quote (char '\'' :: body)
    rw [split, List.tail_cons, last] at later
    refine taken ?_ ?_
    · rw [lastLine_append_of_mem lines, last]
      exact visible_right (by decide) _
    · rw [waits_append_of_mem lines, lastLine_append_of_mem lines, first, last,
        waiting_none fun l mem => later l (List.mem_append_left _ mem)]
      exact lineKind_append (later _ (by simp)) _
  · cases h with
    | fresh closed blank => exact new_line lines rfl closed (opens blank _)
    | taken visible closed => exact same_line lines visible closed

theorem comment {kind : CommentKind} {body : Text} (admits : kind.admits body = true)
    (h : InStep before (kind.comment body ++ rest))
    (place : Text.blank (lastLine before) = true ∨ char '\n' ∉ kind.comment body) :
    InStep (before ++ kind.comment body) rest := by
  by_cases lines : char '\n' ∈ kind.comment body
  · have blank := place.resolve_right (not_not_intro lines)
    have inside := newline_mem_comment.mp lines
    obtain ⟨first, inner, last⟩ := lines_of_linesOf (linesOf_comment kind inside)
    have split := linesOf_eq_of_mem inside
    have free := not_infix_of_mem_linesOf admits inside
    rw [split] at free
    cases h with
    | taken visible =>
      rw [blank] at visible
      cases visible
    | fresh closed =>
      have waiting : waits (before ++ kind.comment body) = some kind.closing := by
        have here : Text.hasPart kind.closing (firstLine body) = false := by
          rw [Bool.eq_false_iff, ne_eq, hasPart_iff]
          exact free _ List.mem_cons_self
        rw [waits_append_of_mem lines, first, inner, closed, lineKind_comment kind blank, here]
        exact (waiting_of_free fun l mem => free l (by simp [mem])).1
      have closes : Text.blank kind.closing = false := by
        cases kind with
        | line => simp [CommentKind.admits, inside] at admits
        | block | brace => rfl
      refine taken ?_ ?_
      · rw [lastLine_append_of_mem lines, last]
        exact visible_right closes _
      · rw [waiting, lastLine_append_of_mem lines, last, lineKind, if_pos]
        exact hasPart_iff.mpr
          ((infix_trim (visible_of_mem_closing kind)).mpr ⟨lastLine body, firstLine rest, rfl⟩)
  · cases h with
    | taken visible closed => exact same_line lines visible closed
    | fresh closed blank =>
      refine new_line lines (by cases kind <;> rfl) closed ?_
      rw [CommentKind.comment, List.append_assoc, lineKind_comment kind blank, if_pos]
      exact hasPart_iff.mpr ⟨body, firstLine rest, by simp⟩

end InStep

/-! ## Tidy code -/

/-- Whether pieces start with a mark that opens a comment and is not closed. -/
def opens : List (Piece Part) → Bool
  | .plain (.char '\x7b') :: _ => true
  | .plain (.char '(') :: .plain (.char '*') :: _ => true
  | _ => false

theorem opens_iff {c : CodePoint} {pieces : List (Piece Part)} :
    opens (.plain c :: pieces) = true ↔ c = '\x7b' ∨ c = '(' ∧ pieces.head? = some (.plain '*') := by
  constructor
  · intro h
    unfold opens at h
    split at h
    · next same =>
      cases same
      exact .inl rfl
    · next same =>
      cases same
      exact .inr ⟨rfl, rfl⟩
    · cases h
  · rintro (rfl | ⟨rfl, star⟩)
    · rfl
    · obtain ⟨later, rfl⟩ := List.head?_eq_some_iff.mp star
      rfl

/-- Whether the first of some pieces does not lead the reader of lines astray, behind the start of a line. -/
def inPlace (line : Text) : List (Piece Part) → Bool
  | [] => true
  | .plain c :: rest => !(line.blank && opens (.plain c :: rest))
  | .found t .comment :: _ => line.blank || !t.contains '\n'
  | .found t .literal :: _ => (linesOf t).tail.all fun l => (lineKind none l).2.isNone

/-- Whether no piece behind a text leads the reader of lines astray. -/
def tidy (before : Text) : List (Piece Part) → Bool
  | [] => true
  | piece :: rest => inPlace (lastLine before) (piece :: rest) && tidy (before ++ piece.text) rest

/-- What opens no comment opens none without the pieces behind it. -/
theorem inPlace_front {piece : Piece Part} {front later : List (Piece Part)}
    (h : inPlace line (piece :: (front ++ later)) = true) : inPlace line (piece :: front) = true := by
  cases piece with
  | found t kind => cases kind <;> exact h
  | plain c =>
    rw [inPlace, Bool.not_eq_true', Bool.and_eq_false_imp] at h ⊢
    intro blank
    have closed := h blank
    rw [Bool.eq_false_iff, ne_eq, opens_iff] at closed ⊢
    rintro (brace | ⟨paren, star⟩)
    · exact closed (.inl brace)
    · exact closed (.inr ⟨paren, by rw [List.head?_append, star]; rfl⟩)

theorem tidy_append {front later : List (Piece Part)} (h : tidy before (front ++ later) = true) :
    tidy before front = true ∧ tidy (before ++ front.flatMap Piece.text) later = true := by
  induction front generalizing before with
  | nil => simpa [tidy] using h
  | cons piece front ih =>
    rw [List.cons_append, tidy, Bool.and_eq_true] at h
    obtain ⟨first, second⟩ := ih h.2
    rw [List.flatMap_cons, ← List.append_assoc, tidy, inPlace_front h.1, first]
    exact ⟨rfl, second⟩

/-- Along tidy pieces the reader of lines stays in step. The piece behind them is not a star, which
could belong to an opening mark. -/
theorem inStep_of_tidy {back : Text} {front later : List (Piece Part)}
    (cuts : Text.Cuts part back t (front ++ later))
    (next : later.head? ≠ some (.plain '*')) (h : tidy before front = true) (inStep : InStep before t) :
    InStep (before ++ front.flatMap Piece.text) (later.flatMap Piece.text) := by
  induction front generalizing before back t with
  | nil =>
    rw [List.flatMap_nil, List.append_nil, show later.flatMap Piece.text = t from cuts.text]
    exact inStep
  | cons piece front ih =>
    rw [tidy, Bool.and_eq_true] at h
    obtain ⟨here, behind⟩ := h
    rw [List.flatMap_cons, ← List.append_assoc]
    rw [List.cons_append] at cuts
    cases cuts with
    | plain missed further =>
      refine ih further behind (inStep.plain fun blank => ?_)
      rw [inPlace, blank, Bool.true_and, Bool.not_eq_true', Bool.eq_false_iff, ne_eq, opens_iff,
        not_or] at here
      refine ⟨here.1, fun paren star => here.2 ⟨paren, ?_⟩⟩
      obtain ⟨pieces, whole⟩ := exists_plain_of_star further star
      cases front with
      | nil =>
        rw [List.nil_append] at whole
        rw [whole] at next
        exact absurd rfl next
      | cons piece front =>
        rw [List.cons_append, List.cons_eq_cons] at whole
        rw [whole.1]
        rfl
    | @found _ m rest value _ ne found further =>
      refine ih further behind ?_
      rcases part_cases found with ⟨rfl, body, whole, -⟩ | ⟨rfl, kind, body, whole, admits, -⟩
      · obtain rfl : m = char '\'' :: (body ++ [char '\'']) := List.append_cancel_right (by simpa using whole)
        exact inStep.literal (by simpa [inPlace] using here)
      · obtain rfl : m = kind.comment body := List.append_cancel_right whole
        exact inStep.comment admits (by simpa [inPlace] using here)

/-! ## Lines inside of comments -/

section Inside

variable {code body : Text} {kind : CommentKind} {front later : List (Piece Part)}

/-- Whether the lines that are wholly inside of the comment that opens behind a text are counted as
comment lines. -/
def InsideCounted (code before body : Text) : Prop :=
  ∀ i, lineEnds before < i → i < lineEnds (before ++ body) → (lineKinds none (linesOf code))[i]? =
    some .comment

/-- The lines from `start + 1` up to and without `start + n` in a list, if these are the ones in its
middle. -/
theorem forall_getElem?_iff {α : Type} {left middle right : List α} {start n : Nat} {v : α}
    (left_length : left.length = start + 1) (middle_length : middle.length + 1 = n) :
    (∀ i, start < i → i < start + n → (left ++ (middle ++ right))[i]? = some v) ↔ ∀ w ∈ middle, w = v := by
  constructor
  · intro h w mem
    obtain ⟨j, inside, rfl⟩ := List.getElem_of_mem mem
    have here := h (left.length + j) (by omega) (by omega)
    rw [List.getElem?_append_right (Nat.le_add_right _ _), Nat.add_sub_cancel_left,
      List.getElem?_append_left inside, List.getElem?_eq_getElem inside] at here
    exact Option.some.inj here
  · intro h i above below
    have inside : i - left.length < middle.length := by omega
    rw [List.getElem?_append_right (by omega), List.getElem?_append_left inside,
      List.getElem?_eq_getElem inside, h _ (List.getElem_mem inside)]

theorem admits_of_cut (cut : Text.cut part code = front ++ .found (kind.comment body) .comment :: later) :
    kind.admits body = true := by
  have mem : .found (kind.comment body) .comment ∈ Text.cut part code := by simp [cut]
  obtain ⟨back, rest, -, here⟩ := (Text.cuts_cut fronts_part code).exists_of_found mem
  rcases part_cases here with ⟨literal, -⟩ | ⟨-, kind', body', whole, admits, -⟩
  · cases literal
  · have same := List.append_cancel_right whole
    obtain rfl := kind_eq_of_comment same
    rw [CommentKind.comment, CommentKind.comment] at same
    rwa [List.append_cancel_right (List.append_cancel_left same)]

/-- The lines inside of a comment are read with the mark that the line before them leaves open. -/
theorem lineKinds_comment (cut : Text.cut part code = front ++ .found (kind.comment body) .comment :: later)
    (lines : char '\n' ∈ body) :
    ∃ left right, left.length = lineEnds (front.flatMap Piece.text) + 1 ∧
      lineKinds none (linesOf code) = left ++ (lineKinds
        (lineKind (waits (front.flatMap Piece.text))
          (lastLine (front.flatMap Piece.text) ++ (kind.opening ++ firstLine body))).2
            (innerLines body) ++ right) := by
  have whole : code = front.flatMap Piece.text ++ (kind.comment body ++ later.flatMap Piece.text) := by
    rw [← Text.cut_text part code, cut, List.flatMap_append, List.flatMap_cons]
    rfl
  generalize front.flatMap Piece.text = before at whole ⊢
  have inside : char '\n' ∈ kind.comment body := newline_mem_comment.mpr lines
  obtain ⟨first, -, -⟩ := lines_of_linesOf (linesOf_comment kind lines)
  have split : (linesOf (kind.comment body ++ later.flatMap Piece.text)).tail =
      innerLines body ++ ((lastLine (kind.comment body) ++ firstLine (later.flatMap Piece.text)) ::
        (linesOf (later.flatMap Piece.text)).tail) := by
    rw [linesOf_append, linesOf_comment kind lines, ← List.cons_append, List.dropLast_concat]
    rfl
  rw [whole, linesOf_append, firstLine_append_of_mem inside, first, split, lineKinds_append, lineKinds_cons,
    lineKinds_append]
  refine ⟨_, _, ?_, List.append_cons ..⟩
  rw [List.length_append, length_lineKinds, List.length_dropLast, length_linesOf]
  rfl

/-- Behind tidy code the lines inside of a comment are counted as comment lines if and only if the
comment is the first on its line, or they are comment lines on their own. -/
theorem insideCounted_iff (cut : Text.cut part code = front ++ .found (kind.comment body) .comment :: later)
    (neat : tidy [] front = true) :
    InsideCounted code (front.flatMap Piece.text) body ↔
      Text.blank (lastLine (front.flatMap Piece.text)) = true ∨
        ∀ k ∈ lineKinds none (innerLines body), k = .comment := by
  by_cases lines : char '\n' ∈ body
  · have admits := admits_of_cut cut
    have cuts := Text.cuts_cut fronts_part code
    rw [cut] at cuts
    have inStep := inStep_of_tidy cuts (by simp) neat (.fresh rfl rfl)
    rw [List.nil_append, List.flatMap_cons, Piece.text] at inStep
    obtain ⟨left, right, size, kinds⟩ := lineKinds_comment cut lines
    have inner : (innerLines body).length + 1 = lineEnds body := by
      have total := length_linesOf body
      rw [linesOf_eq_of_mem lines] at total
      simpa using total
    rw [InsideCounted, kinds, lineEnds_append,
      forall_getElem?_iff size (by rw [length_lineKinds]; exact inner)]
    have free := not_infix_of_mem_linesOf admits lines
    rw [linesOf_eq_of_mem lines] at free
    obtain ⟨first, -, -⟩ := lines_of_linesOf (linesOf_comment kind lines)
    cases inStep with
    | fresh closed blank =>
      have unclosed : Text.hasPart kind.closing (firstLine body) = false := by
        rw [Bool.eq_false_iff, ne_eq, hasPart_iff]
        exact free _ List.mem_cons_self
      rw [closed, lineKind_comment kind blank, unclosed]
      exact iff_of_true (waiting_of_free fun l mem => free l (by simp [mem])).2 (.inl blank)
    | taken visible closed =>
      rw [firstLine_append_of_mem (newline_mem_comment.mpr lines), first] at closed
      rw [closed, visible]
      simp
  · refine iff_of_true (fun i above below => ?_) (.inr ?_)
    · have noEnds : lineEnds body = 0 := List.count_eq_zero.mpr lines
      rw [lineEnds_append] at below
      omega
    · rw [innerLines_of_not_mem lines]
      exact List.forall_mem_nil _

theorem insideCounted_of_tidy
    (cut : Text.cut part code = front ++ .found (kind.comment body) .comment :: later)
    (neat : tidy [] (Text.cut part code) = true) : InsideCounted code (front.flatMap Piece.text) body := by
  rw [cut] at neat
  obtain ⟨front_tidy, here⟩ := tidy_append neat
  refine (insideCounted_iff cut front_tidy).mpr ?_
  rw [tidy, Bool.and_eq_true, inPlace, Bool.or_eq_true] at here
  refine here.1.imp id fun oneLine => ?_
  have lines : char '\n' ∉ body := fun mem => by
    simp [newline_mem_comment.mpr mem] at oneLine
  rw [innerLines_of_not_mem lines]
  exact List.forall_mem_nil _

theorem count_kinds (kinds : List LineKind) :
    kinds.count .code + kinds.count .comment + kinds.count .empty = kinds.length := by
  induction kinds with
  | nil => rfl
  | cons kind kinds ih => cases kind <;> simp <;> omega

end Inside

/-- Every line is a code line, a comment line or an empty line. The lines that are wholly inside of
a comment are comment lines in tidy code. Behind tidy code they are if and only if the comment is
the first on the line where it opens, or they would be comment lines with no comment around them. -/
theorem lines_counted (code : Text) :
    (∀ found missing : Int,
      (statistics code found missing).codeLines + (statistics code found missing).commentLines
        + (statistics code found missing).emptyLines = (statistics code found missing).totalLines) ∧
    ∀ (front later : List (Piece Part)) (kind : CommentKind) (body : Text),
      Text.cut part code = front ++ .found (kind.comment body) .comment :: later →
        (tidy [] (Text.cut part code) = true → InsideCounted code (front.flatMap Piece.text) body) ∧
        (tidy [] front = true →
          (InsideCounted code (front.flatMap Piece.text) body ↔
            Text.blank (lastLine (front.flatMap Piece.text)) = true ∨
              ∀ k ∈ lineKinds none (innerLines body), k = .comment)) := by
  refine ⟨fun found missing => ?_, fun front later kind body cut =>
    ⟨insideCounted_of_tidy cut, insideCounted_iff cut⟩⟩
  exact (count_kinds _).trans (length_lineKinds none (linesOf code))

/-- In `X;`, a line end and `(*`, a line and `*)` below each other the line inside of the comment is
counted. -/
theorem lines_counted_own_line :
    tidy [] (Text.cut part ['X', ';', '\n', '(', '*', '\n', 'Y', '\n', '*', ')']) = true ∧
      InsideCounted ['X', ';', '\n', '(', '*', '\n', 'Y', '\n', '*', ')'] ['X', ';', '\n']
        ['\n', 'Y', '\n'] := by
  have neat : tidy [] (Text.cut part ['X', ';', '\n', '(', '*', '\n', 'Y', '\n', '*', ')']) =
      true := by decide
  exact ⟨neat, ((lines_counted _).2 [.plain 'X', .plain ';', .plain '\n'] [] .block
    ['\n', 'Y', '\n'] rfl).1 neat⟩

/-- In `X;(*`, a line and `*)` below each other all three lines are counted as code. -/
theorem lines_counted_behind_code :
    Text.cut part ['X', ';', '(', '*', '\n', 'Y', '\n', '*', ')'] =
        [.plain 'X', .plain ';', .found (CommentKind.block.comment ['\n', 'Y', '\n']) .comment] ∧
      ¬InsideCounted ['X', ';', '(', '*', '\n', 'Y', '\n', '*', ')'] ['X', ';'] ['\n', 'Y', '\n'] ∧
      lineKinds none (linesOf ['X', ';', '(', '*', '\n', 'Y', '\n', '*', ')']) = [.code, .code, .code] := by
  refine ⟨rfl, fun counted => ?_, by decide⟩
  have inside := counted 1 (by decide) (by decide)
  exact absurd inside (by decide)

end SclNarrator.Report
