import SclNarrator.Proofs.Expr.Rewriting
import SclNarrator.Proofs.Program.Conditional
import SclNarrator.Source.Basic

/-!
Literals and comments at a point of source code. A literal is a text without apostrophes between two
of them (`afterLiteral?_eq_some_iff`), and a comment is a body of one of three kinds between its
marks (`afterComment?_eq_some_iff`).
-/

namespace SclNarrator

theorem splitOnce?_append {part body rest : Text} (ne : part ≠ [])
    (first : ∀ x y, body = x ++ y → y ≠ [] → ¬part <+: y ++ part) :
    Text.splitOnce? part (body ++ (part ++ rest)) = some (body, rest) := by
  induction body with
  | nil =>
    obtain ⟨c, part, rfl⟩ := List.exists_cons_of_ne_nil ne
    rw [List.nil_append, List.cons_append, Text.splitOnce?, ← List.cons_append, dropPart?_append]
  | cons c body ih =>
    have here : Text.dropPart? part (c :: (body ++ (part ++ rest))) = none := by
      cases read : Text.dropPart? part (c :: (body ++ (part ++ rest))) with
      | none => rfl
      | some after =>
        have whole := dropPart?_eq_some.mp read
        have front : part <+: c :: (body ++ (part ++ rest)) := ⟨after, whole.symm⟩
        have shorter : c :: body ++ part <+: c :: (body ++ (part ++ rest)) := ⟨rest, by simp⟩
        have fits : part.length ≤ (c :: body ++ part).length := by
          rw [List.length_append]
          exact Nat.le_add_left ..
        exact absurd (List.prefix_of_prefix_length_le front shorter fits)
          (first [] (c :: body) rfl (List.cons_ne_nil _ _))
    have later := ih fun x y same => first (c :: x) y (by rw [same, List.cons_append])
    rw [List.cons_append, Text.splitOnce?, here, later]
    rfl

/-- What stands before the first occurrence of a part does not hold the part. -/
theorem splitOnce?_eq_some {part t body rest : Text} (ne : part ≠ [])
    (h : Text.splitOnce? part t = some (body, rest)) : t = body ++ (part ++ rest) ∧ ¬part <:+: body := by
  induction t generalizing body with
  | nil =>
    rw [Text.splitOnce?, if_neg (by simpa using ne)] at h
    cases h
  | cons c t ih =>
    rw [Text.splitOnce?] at h
    split at h
    · next after found =>
      cases h
      refine ⟨?_, by simpa using ne⟩
      rw [List.nil_append]
      exact dropPart?_eq_some.mp found
    · next missed =>
      obtain ⟨⟨before, after⟩, found, same⟩ := Option.map_eq_some_iff.mp h
      cases same
      obtain ⟨whole, free⟩ := ih found
      refine ⟨by rw [whole, List.cons_append], fun inside => ?_⟩
      rcases List.infix_cons_iff.mp inside with ⟨u, front⟩ | inside
      · have read : Text.dropPart? part (c :: t) = some (u ++ (part ++ rest)) := by
          rw [dropPart?_eq_some, whole, ← List.cons_append, ← front, List.append_assoc]
        rw [read] at missed
        cases missed
      · exact free inside

namespace Source

/-! ## Literals -/

theorem afterLiteral?_append {body : Text} (inner : .char '\'' ∉ body) (rest : Text) :
    afterLiteral? (.char '\'' :: (body ++ .char '\'' :: rest)) = some rest :=
  afterApostrophe?_append (fun _ mem same => inner (same ▸ mem)) rest

theorem afterLiteral?_eq_some_iff {t rest : Text} :
    afterLiteral? t = some rest ↔
      ∃ body, t = .char '\'' :: (body ++ .char '\'' :: rest) ∧ .char '\'' ∉ body := by
  constructor
  · intro h
    unfold afterLiteral? at h
    split at h
    · obtain ⟨body, rfl, inner⟩ := Lexeme.afterApostrophe?_eq_some h
      exact ⟨body, rfl, inner⟩
    · cases h
  · rintro ⟨body, rfl, inner⟩
    exact afterLiteral?_append inner rest

theorem afterLiteral?_eq_none_iff {t : Text} : afterLiteral? (.char '\'' :: t) = none ↔ .char '\'' ∉ t := by
  constructor
  · exact Lexeme.afterApostrophe?_eq_none
  · intro last
    cases read : afterLiteral? (.char '\'' :: t) with
    | none => rfl
    | some rest =>
      obtain ⟨body, same, -⟩ := afterLiteral?_eq_some_iff.mp read
      exact absurd ((List.cons.inj same).2 ▸ List.mem_append_right body List.mem_cons_self) last

/-! ## Comments -/

/-- A kind of comment: up to the end of the line, between `(*` and `*)`, or between braces. -/
inductive CommentKind where
  | line | block | brace
  deriving DecidableEq, Repr

namespace CommentKind

def opening : CommentKind → Text
  | line => ['/', '/']
  | block => ['(', '*']
  | brace => ['\x7b']

/-- The mark that closes a comment; none at the end of a line. -/
def closing : CommentKind → Text
  | line => []
  | block => ['*', ')']
  | brace => ['\x7d']

/-- Whether a text can be the body of a comment: it does not end the comment. -/
def admits : CommentKind → Text → Bool
  | line, body => !body.contains '\n'
  | block, body => !Text.hasPart ['*', ')'] body
  | brace, body => !body.contains '\x7d'

def comment (kind : CommentKind) (body : Text) : Text := kind.opening ++ (body ++ kind.closing)

/-- Whether a comment of a kind can end before a text: that of a line ends where the line does. -/
def EndsBefore (kind : CommentKind) (rest : Text) : Prop := kind = line → Stops (· != .char '\n') rest

end CommentKind

theorem afterComment?_append {kind : CommentKind} {body rest : Text} (admits : kind.admits body = true)
    (ends : kind.EndsBefore rest) : afterComment? (kind.comment body ++ rest) = some rest := by
  cases kind with
  | line =>
    have inside : ∀ c ∈ body, (c != .char '\n') = true := by
      intro c mem
      rw [bne_iff_ne]
      rintro rfl
      simp [CommentKind.admits, mem] at admits
    have whole : CommentKind.comment .line body ++ rest = .char '/' :: .char '/' :: (body ++ rest) := by
      simp [CommentKind.comment, CommentKind.opening, CommentKind.closing]
    rw [whole, afterComment?, dropWhile_append_of_stops inside (ends rfl)]
  | block =>
    have free : ¬[CodePoint.char '*', .char ')'] <:+: body := by
      rw [← hasPart_iff]
      simpa [CommentKind.admits] using admits
    have split : Text.splitOnce? ['*', ')'] (body ++ ([.char '*', .char ')'] ++ rest)) =
        some (body, rest) := by
      refine splitOnce?_append (by simp) fun x y same ne front => ?_
      obtain ⟨c, y, rfl⟩ := List.exists_cons_of_ne_nil ne
      rw [List.cons_append, List.cons_prefix_cons] at front
      obtain ⟨rfl, front⟩ := front
      cases y with
      | nil => simp at front
      | cons d y =>
        rw [List.cons_append, List.cons_prefix_cons] at front
        obtain ⟨rfl, -⟩ := front
        exact free ⟨x, y, by rw [same]; simp⟩
    have whole : CommentKind.comment .block body ++ rest =
        .char '(' :: .char '*' :: (body ++ ([.char '*', .char ')'] ++ rest)) := by
      simp [CommentKind.comment, CommentKind.opening, CommentKind.closing]
    rw [whole, afterComment?, split]
    rfl
  | brace =>
    have split : Text.splitOnce? ['\x7d'] (body ++ ([.char '\x7d'] ++ rest)) = some (body, rest) := by
      refine splitOnce?_append (by simp) fun x y same ne front => ?_
      obtain ⟨c, y, rfl⟩ := List.exists_cons_of_ne_nil ne
      rw [List.cons_append, List.cons_prefix_cons] at front
      obtain ⟨rfl, -⟩ := front
      simp [CommentKind.admits, same] at admits
    have whole : CommentKind.comment .brace body ++ rest =
        .char '\x7b' :: (body ++ ([.char '\x7d'] ++ rest)) := by
      simp [CommentKind.comment, CommentKind.opening, CommentKind.closing]
    rw [whole, afterComment?, split]
    rfl

theorem afterComment?_eq_some_iff {t rest : Text} :
    afterComment? t = some rest ↔
      ∃ (kind : CommentKind) (body : Text), t = kind.comment body ++ rest ∧ kind.admits body = true ∧
        kind.EndsBefore rest := by
  constructor
  · intro h
    unfold afterComment? at h
    split at h
    · next body =>
      cases h
      refine ⟨.line, body.takeWhile (· != .char '\n'), ?_, ?_, fun _ => stops_dropWhile _ _⟩
      · simp [CommentKind.comment, CommentKind.opening, CommentKind.closing]
      · have free : .char '\n' ∉ body.takeWhile (· != .char '\n') := fun mem => by
          simpa using List.mem_takeWhile_imp mem
        simpa [CommentKind.admits] using free
    · next body =>
      obtain ⟨⟨before, after⟩, found, same⟩ := Option.map_eq_some_iff.mp h
      cases same
      obtain ⟨whole, free⟩ := splitOnce?_eq_some (by simp) found
      refine ⟨.block, before, ?_, ?_, fun same => by cases same⟩
      · simp [whole, CommentKind.comment, CommentKind.opening, CommentKind.closing]
      · rw [← hasPart_iff] at free
        simpa [CommentKind.admits] using free
    · next body =>
      obtain ⟨⟨before, after⟩, found, same⟩ := Option.map_eq_some_iff.mp h
      cases same
      obtain ⟨whole, free⟩ := splitOnce?_eq_some (by simp) found
      refine ⟨.brace, before, ?_, ?_, fun same => by cases same⟩
      · simp [whole, CommentKind.comment, CommentKind.opening, CommentKind.closing]
      · rw [List.singleton_infix_iff] at free
        simpa [CommentKind.admits] using free
    · cases h
  · rintro ⟨kind, body, rfl, admits, ends⟩
    exact afterComment?_append admits ends

/-! ## Parts -/

theorem part_of_literal {body : Text} (inner : .char '\'' ∉ body) (back rest : Text) :
    part back (.char '\'' :: (body ++ .char '\'' :: rest)) = some (.literal, rest) := by
  rw [part, afterLiteral?_append inner]

theorem part_of_comment {kind : CommentKind} {body rest : Text} (admits : kind.admits body = true)
    (ends : kind.EndsBefore rest) (back : Text) : part back (kind.comment body ++ rest) =
      some (.comment, rest) := by
  have noLiteral : afterLiteral? (kind.comment body ++ rest) = none := by
    cases kind <;> exact Program.afterLiteral?_of_head (by decide)
  rw [part, noLiteral, afterComment?_append admits ends]
  rfl

/-- What stands at a point that is a part: a literal or a comment. -/
theorem part_cases {back t rest : Text} {kind : Part} (h : part back t = some (kind, rest)) :
    (kind = .literal ∧ ∃ body, t = .char '\'' :: (body ++ .char '\'' :: rest) ∧ .char '\'' ∉ body) ∨
    (kind = .comment ∧ ∃ (comment : CommentKind) (body : Text), t = comment.comment body ++ rest ∧
      comment.admits body = true ∧ comment.EndsBefore rest) := by
  unfold part at h
  split at h
  · next found =>
    cases h
    exact .inl ⟨rfl, afterLiteral?_eq_some_iff.mp found⟩
  · obtain ⟨after, found, same⟩ := Option.map_eq_some_iff.mp h
    cases same
    exact .inr ⟨rfl, afterComment?_eq_some_iff.mp found⟩

theorem literal_of_part {back m rest : Text} (h : part back (m ++ rest) = some (.literal, rest)) :
    ∃ body, m = .char '\'' :: (body ++ [.char '\'']) ∧ .char '\'' ∉ body := by
  rcases part_cases h with ⟨-, body, whole, inner⟩ | ⟨other, -⟩
  · have same : m ++ rest = .char '\'' :: (body ++ [.char '\'']) ++ rest := by
      rw [whole]
      simp
    exact ⟨body, List.append_cancel_right same, inner⟩
  · cases other

theorem fronts_part : Text.Fronts part := by
  intro back t kind rest h
  rcases part_cases h with ⟨-, body, rfl, -⟩ | ⟨-, comment, body, rfl, -, -⟩
  · exact ⟨.char '\'' :: (body ++ [.char '\'']), List.cons_ne_nil _ _, by simp⟩
  · exact ⟨comment.comment body, by cases comment <;> simp [CommentKind.comment, CommentKind.opening], rfl⟩

end Source
end SclNarrator
