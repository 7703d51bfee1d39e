import SclNarrator.Proofs.Source.Views
import SclNarrator.Source.Structure

/-!
The grammar of `IF` structures, over the structural words of a code. A condition or a body is a
passage: its `IF` and `END_IF` balance, and all other words of it stand in inner structures. A
structure is `IF` condition `THEN` body, any number of `ELSIF` condition `THEN` body, maybe `ELSE`
body, and the word that closes it.

What is proved:
  1. a code is split if and only if its words from the first `IF` on begin with such a structure that
     ends in `END_IF`, and the parts that it is split into put together are the code
     (`split?_eq_some_iff`);
  2. a word with a dotted capital `İ` closes a structure like `END_IF` (`split?_without_endIf`).

Asked for in the first: no structural word is written with such a letter.

Correspondence (analyzer ↔ here):
  `IfBlock`, `split_if` ↔ `Source.IfBlock`, `Source.IfBlock.split?`
-/

namespace SclNarrator.Source

/-! ## Passages -/

/-- How many of the words open a structure. -/
def opened (tokens : List IfToken) : Nat := tokens.countP (·.word = .if)

/-- How many of the words end a structure. -/
def ended (tokens : List IfToken) : Nat := tokens.countP (·.word = .endIf)

/-- Whether every word stands in a structure that is open before it, or opens one. Before the first word
`depth` structures are open. -/
def Inner (depth : Nat) (tokens : List IfToken) : Prop :=
  ∀ front token back, tokens = front ++ token :: back → token.word = .if ∨ ended front < depth + opened front

/-- Words that can stand in a condition or a body: each `IF` has its `END_IF`, and the other words stand
between the two. -/
structure Passage where
  tokens : List IfToken
  balanced : opened tokens = ended tokens
  inner : Inner 0 tokens

def Passage.text (p : Passage) : Text := p.tokens.flatMap IfToken.text

section Nesting

variable {depth : Nat} {token : IfToken} {tokens : List IfToken}

theorem opened_cons : opened (token :: tokens) = opened tokens + if token.word = .if then 1 else 0 := by
  simp [opened, List.countP_cons]

theorem ended_cons : ended (token :: tokens) = ended tokens + if token.word = .endIf then 1 else 0 := by
  simp [ended, List.countP_cons]

theorem inner_nil : Inner depth [] := by
  intro front token back same
  simp at same

/-- An `IF` opens a structure for the words behind it. -/
theorem inner_cons_of_if (h : token.word = .if) :
    Inner depth (token :: tokens) ↔ Inner (depth + 1) tokens := by
  constructor
  · intro inner front next back same
    have := inner (token :: front) next back (by rw [same, List.cons_append])
    rw [opened_cons, ended_cons, if_pos h, if_neg (by rw [h]; decide)] at this
    exact this.imp_right (by omega)
  · intro inner front next back same
    cases front with
    | nil =>
      cases same
      exact .inl h
    | cons other front =>
      cases same
      have := inner front next back rfl
      rw [opened_cons, ended_cons, if_pos h, if_neg (by rw [h]; decide)]
      exact this.imp_right (by omega)

/-- Another word stands in a structure, and `END_IF` ends that. -/
theorem inner_cons_of_ne (h : token.word ≠ .if) :
    Inner depth (token :: tokens) ↔
      0 < depth ∧ Inner (if token.word = .endIf then depth - 1 else depth) tokens := by
  have shift (front : List IfToken) (deep : 0 < depth) :
      ended (token :: front) < depth + opened (token :: front) ↔
        ended front < (if token.word = .endIf then depth - 1 else depth) + opened front := by
    rw [opened_cons, ended_cons, if_neg h]
    split <;> omega
  constructor
  · intro inner
    have deep : 0 < depth := by simpa [h, opened, ended] using inner [] token tokens rfl
    refine ⟨deep, ?_⟩
    intro front next back same
    exact (inner (token :: front) next back (by rw [same, List.cons_append])).imp_right (shift front deep).mp
  · rintro ⟨deep, inner⟩ front next back same
    cases front with
    | nil => exact .inr deep
    | cons other front =>
      cases same
      exact (inner front next back rfl).imp_right (shift front deep).mpr

/-- Words stand in structures up to the first that is no `IF` and has no open structure before it. -/
theorem inner_or_passage (depth : Nat) (tokens : List IfToken) :
    Inner depth tokens ∨ ∃ front token back, tokens = front ++ token :: back ∧
    Inner depth front ∧ depth + opened front = ended front ∧ token.word ≠ .if := by
  induction tokens generalizing depth with
  | nil => exact .inl inner_nil
  | cons token tokens ih =>
    by_cases opens : token.word = .if
    · rcases ih (depth + 1) with inner | ⟨front, next, back, rfl, inner, level, ne⟩
      · exact .inl ((inner_cons_of_if opens).mpr inner)
      · refine .inr ⟨token :: front, next, back, rfl, (inner_cons_of_if opens).mpr inner, ?_, ne⟩
        rw [opened_cons, ended_cons, if_pos opens, if_neg (by rw [opens]; decide)]
        omega
    · rcases Nat.eq_zero_or_pos depth with rfl | deep
      · exact .inr ⟨[], token, tokens, rfl, inner_nil, rfl, opens⟩
      · rcases ih (if token.word = .endIf then depth - 1 else depth) with
          inner | ⟨front, next, back, rfl, inner, level, ne⟩
        · exact .inl ((inner_cons_of_ne opens).mpr ⟨deep, inner⟩)
        · refine .inr ⟨token :: front, next, back, rfl, (inner_cons_of_ne opens).mpr ⟨deep, inner⟩, ?_, ne⟩
          rw [opened_cons, ended_cons, if_neg opens]
          by_cases ends : token.word = .endIf
          · rw [if_pos ends] at level ⊢
            omega
          · rw [if_neg ends] at level ⊢
            omega

end Nesting

/-! ## Structures -/

structure IfArm where
  mark : IfToken
  condition : Passage
  turn : IfToken
  body : Passage
  isThen : turn.word = .then
  stated : (mark.after ++ condition.text).blank = false

namespace IfArm

def tokens (a : IfArm) : List IfToken := a.mark :: (a.condition.tokens ++ a.turn :: a.body.tokens)

/-- The text between the word before the condition and `THEN`. -/
def conditionText (a : IfArm) : Text := a.mark.after ++ a.condition.text

/-- The text between `THEN` and the word that ends the body. -/
def bodyText (a : IfArm) : Text := a.turn.after ++ a.body.text

def text (a : IfArm) : Text :=
  a.mark.spelling ++ (a.conditionText ++ (a.turn.spelling ++ a.bodyText))

def branch (a : IfArm) : Text × Text := (a.conditionText.trim, a.bodyText)

end IfArm

/-- What follows the first body of a structure: more arms, what is done otherwise, the closing word, and the
words behind the structure. -/
structure IfTail where
  more : List IfArm
  areElsif : ∀ a ∈ more, a.mark.word = .elsif
  otherwise : Option (IfToken × Passage)
  isElse : ∀ o ∈ otherwise, o.1.word = .else
  last : IfToken
  closes : last.word = .endIf ∨ last.word = .dotted
  rest : List IfToken

/-- The text behind `ELSE`. -/
def elseText (o : IfToken × Passage) : Text := o.1.after ++ o.2.text

namespace IfTail

def tokens (s : IfTail) : List IfToken :=
  s.more.flatMap IfArm.tokens ++ (s.otherwise.elim [] (fun o => o.1 :: o.2.tokens) ++ s.last :: s.rest)

/-- The text behind the closing word. -/
def restText (s : IfTail) : Text := s.last.after ++ s.rest.flatMap IfToken.text

def text (s : IfTail) : Text :=
  s.more.flatMap IfArm.text ++
    (s.otherwise.elim [] (fun o => o.1.spelling ++ elseText o) ++ (s.last.spelling ++ s.restText))

end IfTail

/-- A structure in a code: the text before the first structural word, the words before the first `IF`, the
arm of that, and what follows its body. -/
structure IfStructure extends IfTail where
  before : Text
  skipped : List IfToken
  noIf : ∀ token ∈ skipped, token.word ≠ .if
  first : IfArm
  isIf : first.mark.word = .if

namespace IfStructure

def lead (s : IfStructure) : Text := s.before ++ s.skipped.flatMap IfToken.text

/-- The words of the code that the structure stands in. -/
def skeleton (s : IfStructure) : Skeleton := ⟨s.before, s.skipped ++ (s.first.tokens ++ s.toIfTail.tokens)⟩

/-- The code, part by part. -/
def text (s : IfStructure) : Text := s.lead ++ (s.first.text ++ s.toIfTail.text)

def block (s : IfStructure) : IfBlock :=
  ⟨s.lead, (s.first :: s.more).map IfArm.branch, s.otherwise.map elseText, IfBlock.dropSemicolon s.restText⟩

end IfStructure

/-! ## Texts of structures -/

theorem IfArm.flatMap_text (a : IfArm) : a.tokens.flatMap IfToken.text = a.text := by
  simp [tokens, text, conditionText, bodyText, Passage.text, IfToken.text]

theorem IfTail.flatMap_text (s : IfTail) : s.tokens.flatMap IfToken.text = s.text := by
  have arms : (s.more.flatMap IfArm.tokens).flatMap IfToken.text = s.more.flatMap IfArm.text := by
    rw [List.flatMap_assoc]
    exact congrArg (List.flatMap · s.more) (funext IfArm.flatMap_text)
  have otherwise : (s.otherwise.elim [] fun o => o.1 :: o.2.tokens).flatMap IfToken.text =
      s.otherwise.elim [] fun o => o.1.spelling ++ elseText o := by
    cases s.otherwise with
    | none => rfl
    | some o => simp [elseText, Passage.text, IfToken.text]
  rw [tokens, List.flatMap_append, List.flatMap_append, arms, otherwise, List.flatMap_cons, text, restText,
    IfToken.text, List.append_assoc]

theorem Skeleton.text_ofText (code : Text) :
    (ofText code).before ++ (ofText code).tokens.flatMap IfToken.text = code := by
  have general (pieces : List (Piece (Option IfWord))) :
      (ofPieces pieces).before ++ (ofPieces pieces).tokens.flatMap IfToken.text =
        pieces.flatMap Piece.text := by
    induction pieces with
    | nil => rfl
    | cons piece pieces ih =>
      rw [List.flatMap_cons, ← ih]
      rcases piece with c | ⟨t, _ | word⟩ <;> simp [ofPieces, Piece.text, IfToken.text]
  rw [ofText, general, Text.cut_text]

theorem IfStructure.text_eq {s : IfStructure} {code : Text} (h : Skeleton.ofText code = s.skeleton) :
    code = s.text := by
  have whole := Skeleton.text_ofText code
  rw [h, skeleton, List.flatMap_append, List.flatMap_append, IfArm.flatMap_text, IfTail.flatMap_text,
    ← List.append_assoc] at whole
  exact whole.symm

/-! ## Closing a structure -/

section Closing

variable {before text : Text} {phase : IfBlock.Phase} {branches : List (Text × Text)}
  {tokens rest : List IfToken}

/-- Words in inner structures are text, and only the number of open structures changes. -/
theorem close?_inner_append {depth : Nat} (inner : Inner depth tokens) :
    IfBlock.close? before phase depth text branches (tokens ++ rest) =
      IfBlock.close? before phase (depth + opened tokens - ended tokens)
        (text ++ tokens.flatMap IfToken.text) branches rest := by
  induction tokens generalizing depth text with
  | nil => simp [opened, ended]
  | cons token tokens ih =>
    rw [List.cons_append, IfBlock.close?, List.flatMap_cons, ← List.append_assoc]
    by_cases opens : token.word = .if
    · rw [if_pos opens, ih ((inner_cons_of_if opens).mp inner), opened_cons, ended_cons, if_pos opens,
        if_neg (by rw [opens]; decide)]
      congr 1
      omega
    · obtain ⟨deep, later⟩ := (inner_cons_of_ne opens).mp inner
      rw [if_neg opens, if_pos deep, ih later, opened_cons, ended_cons, if_neg opens]
      congr 1
      split <;> omega

theorem close?_passage (p : Passage) :
    IfBlock.close? before phase 0 text branches (p.tokens ++ rest) =
      IfBlock.close? before phase 0 (text ++ p.text) branches rest := by
  rw [close?_inner_append p.inner, p.balanced, Nat.zero_add, Nat.sub_self, Passage.text]

theorem exists_passage {block : IfBlock}
    (h : IfBlock.close? before phase 0 text branches tokens = some block) :
    ∃ (p : Passage) (token : IfToken) (rest : List IfToken), tokens = p.tokens ++ token :: rest ∧
      token.word ≠ .if ∧ IfBlock.close? before phase 0 (text ++ p.text) branches (token :: rest) =
        some block := by
  rcases inner_or_passage 0 tokens with inner | ⟨front, token, back, rfl, inner, level, ne⟩
  · rw [← List.append_nil tokens, close?_inner_append inner] at h
    cases h
  · let p : Passage := ⟨front, by omega, inner⟩
    refine ⟨p, token, back, rfl, ne, ?_⟩
    rw [← h]
    exact (close?_passage p).symm

/-! One word behind a passage, by what is being read. -/

section Step

variable {token : IfToken} {block : IfBlock}

/-- A condition goes on to its body at `THEN`. -/
theorem close?_condition (ne : token.word ≠ .if) :
    IfBlock.close? before .condition 0 text branches (token :: rest) = some block ↔
      token.word = .then ∧ text.blank = false ∧
        IfBlock.close? before (.body text.trim) 0 token.after branches rest = some block := by
  rw [IfBlock.close?, if_neg ne, if_neg (Nat.lt_irrefl 0), isEmpty_trim]
  cases token.word <;> simp

/-- A body ends at `ELSIF`, at `ELSE`, or with the structure. -/
theorem close?_body {c : Text} (ne : token.word ≠ .if) :
    IfBlock.close? before (.body c) 0 text branches (token :: rest) = some block ↔
      (token.word = .elsif ∧
        IfBlock.close? before .condition 0 token.after (branches ++ [(c, text)]) rest = some block) ∨
      (token.word = .else ∧
        IfBlock.close? before .otherwise 0 token.after (branches ++ [(c, text)]) rest = some block) ∨
      ((token.word = .endIf ∨ token.word = .dotted) ∧
        ⟨before, branches ++ [(c, text)], none,
          IfBlock.dropSemicolon (token.after ++ rest.flatMap IfToken.text)⟩ = block) := by
  rw [IfBlock.close?, if_neg ne, if_neg (Nat.lt_irrefl 0)]
  cases word : token.word <;> simp_all

theorem close?_otherwise (ne : token.word ≠ .if) :
    IfBlock.close? before .otherwise 0 text branches (token :: rest) = some block ↔
      (token.word = .endIf ∨ token.word = .dotted) ∧
        ⟨before, branches, some text, IfBlock.dropSemicolon (token.after ++ rest.flatMap IfToken.text)⟩ =
          block := by
  rw [IfBlock.close?, if_neg ne, if_neg (Nat.lt_irrefl 0)]
  cases word : token.word <;> simp_all

end Step

/-- A structure that is closed from a condition on has a passage up to `THEN` there. -/
theorem exists_condition {block : IfBlock}
    (h : IfBlock.close? before .condition 0 text branches tokens = some block) :
    ∃ (p : Passage) (turn : IfToken) (rest : List IfToken), tokens = p.tokens ++ turn :: rest ∧
      turn.word = .then ∧ (text ++ p.text).blank = false ∧
        IfBlock.close? before (.body (text ++ p.text).trim) 0 turn.after branches rest = some block := by
  obtain ⟨p, turn, rest, rfl, ne, h⟩ := exists_passage h
  exact ⟨p, turn, rest, rfl, (close?_condition ne).mp h⟩

end Closing

/-- What is split off when a structure has its first branches and goes on with a tail. -/
def IfTail.blockAfter (s : IfTail) (before : Text) (branches : List (Text × Text)) : IfBlock :=
  ⟨before, branches ++ s.more.map IfArm.branch, s.otherwise.map elseText, IfBlock.dropSemicolon s.restText⟩

theorem exists_tail {before c text : Text} {branches : List (Text × Text)} {tokens : List IfToken}
    {block : IfBlock}
    (h : IfBlock.close? before (.body c) 0 text branches tokens = some block) :
    ∃ (body : Passage) (tail : IfTail), tokens = body.tokens ++ tail.tokens ∧
      block = tail.blockAfter before (branches ++ [(c, text ++ body.text)]) := by
  -- by induction on the number of words: an arm is read in two passages
  induction size : tokens.length using Nat.strongRecOn generalizing c text branches tokens with
  | ind size ih =>
    subst size
    obtain ⟨body, token, rest, rfl, ne, h⟩ := exists_passage h
    rcases (close?_body ne).mp h with ⟨isElsif, h⟩ | ⟨isElse, h⟩ | ⟨closes, rfl⟩
    · obtain ⟨condition, turn, rest, rfl, isThen, stated, h⟩ := exists_condition h
      obtain ⟨body', tail, rfl, rfl⟩ := ih _ (by simp; omega) h rfl
      let arm : IfArm := ⟨token, condition, turn, body', isThen, stated⟩
      let whole : IfTail := { tail with
        more := arm :: tail.more
        areElsif := List.forall_mem_cons.mpr ⟨isElsif, tail.areElsif⟩ }
      refine ⟨body, whole, ?_, ?_⟩
      · simp [whole, arm, IfTail.tokens, IfArm.tokens]
      · simp [whole, arm, IfTail.blockAfter, IfTail.restText, IfArm.branch, IfArm.conditionText,
          IfArm.bodyText]
    · obtain ⟨p, last, rest, rfl, ne', h⟩ := exists_passage h
      obtain ⟨closes, rfl⟩ := (close?_otherwise ne').mp h
      refine ⟨body, ⟨[], by simp, some (token, p), by simpa using isElse, last, closes, rest⟩, ?_, ?_⟩
      · simp [IfTail.tokens]
      · simp [IfTail.blockAfter, IfTail.restText, elseText]
    · refine ⟨body, ⟨[], by simp, none, by simp, token, closes, rest⟩, ?_, ?_⟩
      · simp [IfTail.tokens]
      · simp [IfTail.blockAfter, IfTail.restText]

theorem close?_arm (before : Text) (branches : List (Text × Text)) (a : IfArm) (rest : List IfToken) :
    IfBlock.close? before .condition 0 a.mark.after branches
      (a.condition.tokens ++ a.turn :: (a.body.tokens ++ rest)) =
      IfBlock.close? before (.body a.conditionText.trim) 0 a.bodyText branches rest := by
  have ne : a.turn.word ≠ .if := by rw [a.isThen]; decide
  ext block
  rw [close?_passage, close?_condition ne, close?_passage]
  exact ⟨fun h => h.2.2, fun h => ⟨a.isThen, a.stated, h⟩⟩

theorem close?_tail (before c text : Text) (branches : List (Text × Text)) (tail : IfTail) :
    IfBlock.close? before (.body c) 0 text branches tail.tokens =
      some (tail.blockAfter before (branches ++ [(c, text)])) := by
  obtain ⟨more, areElsif, otherwise, isElse, last, closes, rest⟩ := tail
  have last_ne : last.word ≠ .if := by rcases closes with closes | closes <;> rw [closes] <;> decide
  induction more generalizing c text branches with
  | nil =>
    cases otherwise with
    | none =>
      exact (close?_body last_ne).mpr
        (.inr (.inr ⟨closes, by simp [IfTail.blockAfter, IfTail.restText]⟩))
    | some o =>
      have isElse : o.1.word = .else := isElse o rfl
      refine (close?_body (by rw [isElse]; decide)).mpr (.inr (.inl ⟨isElse, ?_⟩))
      refine (close?_passage o.2).trans ((close?_otherwise last_ne).mpr ⟨closes, ?_⟩)
      simp [IfTail.blockAfter, IfTail.restText, elseText]
  | cons arm more ih =>
    obtain ⟨isElsif, areElsif⟩ := List.forall_mem_cons.mp areElsif
    have later := ih arm.conditionText.trim arm.bodyText (branches ++ [(c, text)]) areElsif
    rw [← close?_arm] at later
    simp only [IfTail.tokens, List.flatMap_cons, IfArm.tokens, List.cons_append, List.append_assoc] at later ⊢
    refine (close?_body (by rw [isElsif]; decide)).mpr (.inl ⟨isElsif, later.trans ?_⟩)
    simp [IfTail.blockAfter, IfTail.restText, IfArm.branch]

/-! ## Splitting -/

/-- The words before the first `IF` are text. -/
theorem firstOf?_eq_some_iff {before : Text} {tokens : List IfToken} {block : IfBlock} :
    IfBlock.firstOf? before tokens = some block ↔
      ∃ skipped mark rest, tokens = skipped ++ mark :: rest ∧ (∀ token ∈ skipped, token.word ≠ .if) ∧
        mark.word = .if ∧ IfBlock.close? (before ++ skipped.flatMap IfToken.text) .condition 0
          mark.after [] rest =
          some block := by
  induction tokens generalizing before with
  | nil => simp [IfBlock.firstOf?]
  | cons token tokens ih =>
    rw [IfBlock.firstOf?]
    by_cases opens : token.word = .if
    · rw [if_pos opens]
      constructor
      · intro h
        exact ⟨[], token, tokens, rfl, by simp, opens, by simpa using h⟩
      · rintro ⟨skipped, mark, rest, same, noIf, -, h⟩
        cases skipped with
        | nil =>
          cases same
          simpa using h
        | cons other skipped =>
          cases same
          exact absurd opens (noIf token List.mem_cons_self)
    · rw [if_neg opens, ih]
      constructor
      · rintro ⟨skipped, mark, rest, rfl, noIf, isIf, h⟩
        exact ⟨token :: skipped, mark, rest, rfl, List.forall_mem_cons.mpr ⟨opens, noIf⟩, isIf,
          by simpa using h⟩
      · rintro ⟨skipped, mark, rest, same, noIf, isIf, h⟩
        cases skipped with
        | nil =>
          cases same
          exact absurd isIf opens
        | cons other skipped =>
          cases same
          exact ⟨skipped, mark, rest, rfl, (List.forall_mem_cons.mp noIf).2, isIf, by simpa using h⟩

theorem split?_iff_structure {code : Text} {block : IfBlock} :
    IfBlock.split? code = some block ↔
      ∃ s : IfStructure, Skeleton.ofText code = s.skeleton ∧ s.block = block := by
  rw [IfBlock.split?, firstOf?_eq_some_iff]
  constructor
  · rintro ⟨skipped, mark, rest, whole, noIf, isIf, h⟩
    obtain ⟨condition, turn, rest, rfl, isThen, stated, h⟩ := exists_condition h
    obtain ⟨body, tail, rfl, rfl⟩ := exists_tail h
    let first : IfArm := ⟨mark, condition, turn, body, isThen, stated⟩
    let s : IfStructure := ⟨tail, (Skeleton.ofText code).before, skipped, noIf, first, isIf⟩
    refine ⟨s, ?_, ?_⟩
    · have tokens : (Skeleton.ofText code).tokens = s.skeleton.tokens := by
        simpa [s, first, IfStructure.skeleton, IfArm.tokens] using whole
      exact congrArg (Skeleton.mk (Skeleton.ofText code).before) tokens
    · simp [s, first, IfStructure.block, IfStructure.lead, IfTail.blockAfter, IfArm.branch,
        IfArm.conditionText, IfArm.bodyText]
  · rintro ⟨s, found, rfl⟩
    rw [found]
    refine ⟨s.skipped, s.first.mark, _, rfl, s.noIf, s.isIf, ?_⟩
    simp only [List.append_eq, List.append_assoc, List.cons_append]
    rw [close?_arm, close?_tail]
    rfl

/-! ## Structural words -/

/-- The words of structures with their small letters. -/
def IfWord.spelled : List (IfWord × Text) :=
  [(.if, "if".toText), (.then, "then".toText), (.elsif, "elsif".toText), (.else, "else".toText),
    (.endIf, "end_if".toText)]

/-- Capitals of a letter that is matched as a plain one, the dotted `İ` apart. -/
theorem upperChar_of_looseLetter {c : CodePoint} (ascii : (looseLetter c).toNat < 128)
    (other : looseLetter c ≠ .char 'k') (plain : c ≠ .char '\u0130') :
    upperChar c = [(looseLetter c).toUpper] := by
  unfold looseLetter at ascii other ⊢
  split
  · next upper =>
    have := forall_upper (P := fun c => upperChar c == [c.toLower.toUpper]) (by decide) upper
    simpa using this
  · next lower =>
    rw [if_neg lower] at ascii other
    split
    · next long => subst long; decide +kernel
    · next short =>
      rw [if_neg short] at ascii other
      split
      · next turkish =>
        rcases turkish with rfl | rfl
        · decide +kernel
        · exact absurd rfl plain
      · next latin =>
        rw [if_neg latin] at ascii other
        split
        · next kelvin => exact absurd (if_pos kelvin) other
        · next same =>
          rw [if_neg same] at ascii
          rw [upperChar, if_pos ascii]

theorem upper_of_looseLetter {t : Text} (letters : ∀ k ∈ t.map looseLetter, k.toNat < 128 ∧ k ≠ .char 'k')
    (plain : .char '\u0130' ∉ t) : t.upper = (t.map looseLetter).map CodePoint.toUpper := by
  induction t with
  | nil => rfl
  | cons c t ih =>
    rw [List.map_cons, List.forall_mem_cons] at letters
    rw [List.mem_cons, not_or] at plain
    have here := upperChar_of_looseLetter letters.1.1 letters.1.2 (Ne.symm plain.1)
    have later := ih letters.2 plain.2
    rw [Text.upper] at later
    rw [Text.upper, List.flatMap_cons, here, later]
    rfl

/-- A structural word was read at some point of the code. -/
theorem Skeleton.exists_of_mem {code : Text} {token : IfToken} (mem : token ∈ (ofText code).tokens) :
    ∃ back rest, ifPart back (token.spelling ++ rest) = some (some token.word, rest) := by
  have general (pieces : List (Piece (Option IfWord))) (mem : token ∈ (ofPieces pieces).tokens) :
      .found token.spelling (some token.word) ∈ pieces := by
    induction pieces with
    | nil => simp [ofPieces] at mem
    | cons piece pieces ih =>
      rcases piece with c | ⟨t, _ | word⟩
      · exact List.mem_cons_of_mem _ (ih mem)
      · exact List.mem_cons_of_mem _ (ih mem)
      · rcases List.mem_cons.mp mem with rfl | mem
        · exact List.mem_cons_self
        · exact List.mem_cons_of_mem _ (ih mem)
  obtain ⟨back, rest, -, here⟩ := (Text.cuts_cut fronts_ifPart code).exists_of_found (general _ mem)
  exact ⟨back, rest, here⟩

/-- A structural word without `İ` is the one that it spells when letter case is ignored. -/
theorem spelled_of_mem {code : Text} {token : IfToken} (mem : token ∈ (Skeleton.ofText code).tokens)
    (plain : .char '\u0130' ∉ token.spelling) :
    (token.word, token.spelling.map looseLetter) ∈ IfWord.spelled := by
  obtain ⟨back, rest, here⟩ := Skeleton.exists_of_mem mem
  unfold ifPart at here
  split at here
  · cases here
  · obtain ⟨keyword, among, found⟩ := List.exists_of_findSome?_eq_some here
    obtain ⟨after, stands, same⟩ := Option.map_eq_some_iff.mp found
    obtain ⟨word, rfl⟩ := Prod.mk.inj same
    obtain ⟨m, whole, loose, -⟩ := spelled_of_dropKeyword? stands
    obtain rfl := List.append_cancel_right whole
    rw [Option.some.injEq, Lexeme.taken_left] at word
    have letters : ∀ keyword ∈ IfWord.spellings, (∀ k ∈ keyword, k.toNat < 128 ∧ k ≠ .char 'k') ∧
        (IfWord.ofUpper (keyword.map CodePoint.toUpper), keyword) ∈ IfWord.spelled := by decide
    obtain ⟨ascii, spelled⟩ := letters keyword among
    rw [← loose] at ascii
    rw [← word, upper_of_looseLetter ascii plain, loose]
    exact spelled

/-! ## The grammar -/

/-- As long as no structural word is written with `İ`, each is one of the five words with letter case ignored,
a code is split if and only if its words from the first `IF` on begin with a structure, and the code is the
parts of that structure put together: conditions are trimmed, bodies are as they are written, and of the text
behind the structure at most a `;` and the blanks before that are lost. -/
theorem split?_eq_some_iff (code : Text)
    (plain : ∀ token ∈ (Skeleton.ofText code).tokens, .char '\u0130' ∉ token.spelling) :
    (∀ token ∈ (Skeleton.ofText code).tokens,
      (token.word, token.spelling.map looseLetter) ∈ IfWord.spelled) ∧
    ∀ block, IfBlock.split? code = some block ↔
      ∃ s : IfStructure, Skeleton.ofText code = s.skeleton ∧ s.last.word = .endIf ∧ code = s.text ∧
        s.block = block := by
  have spelled := fun token mem => spelled_of_mem mem (plain token mem)
  refine ⟨spelled, fun block => split?_iff_structure.trans ?_⟩
  constructor
  · rintro ⟨s, found, same⟩
    refine ⟨s, found, ?_, s.text_eq found, same⟩
    have mem : s.last ∈ (Skeleton.ofText code).tokens := by
      rw [found]
      simp [IfStructure.skeleton, IfTail.tokens]
    have five : ∀ named ∈ IfWord.spelled, named.1 ≠ .dotted := by decide
    exact s.closes.resolve_right (five _ (spelled s.last mem))
  · rintro ⟨s, found, -, -, same⟩
    exact ⟨s, found, same⟩

/-- A structure with a structure in its first body, and with all kinds of branches. -/
def nestedCode : Text :=
  ("y := 0; if A THEN IF B THEN x := 1; END_IF; ELSIF 'THEN' = C Then x := 2; " ++
    "ELSE x := 3; end_ıf ; z := 1;").toText

theorem split?_eq_some_iff_nested :
    (∀ token ∈ (Skeleton.ofText nestedCode).tokens, .char '\u0130' ∉ token.spelling) ∧
    ∃ s : IfStructure, Skeleton.ofText nestedCode = s.skeleton ∧ s.last.word = .endIf ∧ nestedCode = s.text ∧
      s.block = ⟨"y := 0; ".toText,
        [("A".toText, " IF B THEN x := 1; END_IF; ".toText), ("'THEN' = C".toText, " x := 2; ".toText)],
        some " x := 3; ".toText, " z := 1;".toText⟩ := by
  have plain : ∀ token ∈ (Skeleton.ofText nestedCode).tokens, .char '\u0130' ∉ token.spelling := by
    decide +kernel
  exact ⟨plain, ((split?_eq_some_iff nestedCode plain).2 _).mp (by decide +kernel)⟩

/-- A word with `İ` closes a structure that has no `END_IF`, in any letter case. -/
theorem split?_without_endIf :
    IfBlock.split? "IF a THEN b; İF".toText = some ⟨[], [("a".toText, " b; ".toText)], none, []⟩ ∧
    (∀ token ∈ (Skeleton.ofText "IF a THEN b; İF".toText).tokens,
      token.spelling.map looseLetter ≠ "end_if".toText) ∧
    ¬ ∃ s : IfStructure, Skeleton.ofText "IF a THEN b; İF".toText = s.skeleton ∧ s.last.word = .endIf := by
  refine ⟨by decide +kernel, by decide +kernel, ?_⟩
  rintro ⟨s, found, closes⟩
  have noEnd : ∀ token ∈ (Skeleton.ofText "IF a THEN b; İF".toText).tokens, token.word ≠ .endIf := by
    decide +kernel
  rw [found] at noEnd
  exact noEnd s.last (by simp [IfStructure.skeleton, IfTail.tokens]) closes

end SclNarrator.Source
