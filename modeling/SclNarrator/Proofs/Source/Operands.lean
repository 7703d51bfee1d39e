import SclNarrator.Proofs.Expr.Segments
import SclNarrator.Source.Basic

/-!
The operands of a condition and its value.

What is proved:
  1. a condition without quotes is cut at its parentheses and at the words that join
     (`marked_of_clean`), and its tokens are those of the segments with a sign for every cut;
  2. the operands that the text is split into are read into the operands that the tokens are split
     into (`read_split`), and parentheses around the whole are the same for both (`exists_inside`);
  3. so the values of the operands joined are the value of the condition
     (`Environment.evaluate_logicOperands`).

Asked for: the condition has a value and none of the characters of quotes and signs that join, and the
bound names are identifiers other than the two words.

Correspondence (analyzer ↔ here):
  `strip_outer_parens`, `split_logic_operands` ↔ `Source.stripParens`, `Source.logicOperands`
-/

namespace SclNarrator

open Vocabulary (Loose isSoft)

namespace Source

/-! ## Operands as a split -/

/-- Parentheses and words that join among the pieces of a condition. -/
def logicMarks : Nesting (Piece LogicPart) where
  delta
    | .found _ .opening => 1
    | .found _ .closing => -1
    | _ => 0
  junction?
    | .found m .joining => some (if m.map looseLetter = Junction.and.keyword then .and else .or)
    | _ => none

def textOf (pieces : List (Piece LogicPart)) : Text := pieces.flatMap Piece.text

theorem textOf_append (a b : List (Piece LogicPart)) : textOf (a ++ b) = textOf a ++ textOf b :=
  List.flatMap_append

theorem textOf_cons (piece : Piece LogicPart) (b : List (Piece LogicPart)) :
    textOf (piece :: b) = piece.text ++ textOf b := List.flatMap_cons

theorem textOf_plain (x : Text) : textOf (x.map .plain) = x := Text.flatMap_text_plain x _ fun _ => rfl

theorem operandTexts_eq (depth : Int) (text : Text) (pieces : List (Piece LogicPart)) :
    operandTexts depth text pieces = (text ++ textOf (logicMarks.split depth pieces).1) ::
      (logicMarks.split depth pieces).2.map fun g => textOf g.2 := by
  induction pieces generalizing depth text with
  | nil =>
    rw [operandTexts]
    simp [Nesting.split, textOf]
  | cons piece pieces ih =>
    have kept (delta : logicMarks.delta piece = 0) (flat : logicMarks.junction? piece = none) :
        operandTexts depth (text ++ piece.text) pieces =
          (text ++ textOf (logicMarks.split depth (piece :: pieces)).1) ::
            (logicMarks.split depth (piece :: pieces)).2.map fun g => textOf g.2 := by
      rw [ih, Nesting.split_of_depth (.inr flat), delta, Int.add_zero, textOf_cons, List.append_assoc]
    cases piece with
    | plain c => exact kept rfl rfl
    | found m part =>
      cases part with
      | quoted => exact kept rfl rfl
      | opening =>
        have flat : logicMarks.junction? (.found m .opening) = none := rfl
        rw [operandTexts, ih, Nesting.split_of_depth (.inr flat), textOf_cons, List.append_assoc]
        rfl
      | closing =>
        have flat : logicMarks.junction? (.found m .closing) = none := rfl
        rw [operandTexts, ih, Nesting.split_of_depth (.inr flat), textOf_cons, List.append_assoc]
        rfl
      | joining =>
        rw [operandTexts]
        split
        · next top =>
          subst top
          rw [Nesting.split_of_some rfl, ih]
          simp [textOf]
        · next deep =>
          have delta : logicMarks.delta (.found m .joining) = 0 := rfl
          rw [ih, Nesting.split_of_depth (.inl deep), delta, Int.add_zero, textOf_cons, List.append_assoc]

theorem closedByLast_eq (depth : Int) (pieces : List (Piece LogicPart)) :
    closedByLast depth pieces = logicMarks.closesLast depth pieces := by
  induction pieces generalizing depth with
  | nil => rfl
  | cons piece pieces ih =>
    cases piece with
    | plain c => simp [closedByLast, Nesting.closesLast, logicMarks, ih]
    | found m part => cases part <;> simp [closedByLast, Nesting.closesLast, logicMarks, ih,
        Int.sub_eq_add_neg]

/-! ## Where a condition is cut -/

def partOf : Sign → LogicPart
  | .opening => .opening
  | .closing => .closing
  | .junction _ => .joining

/-- Text without marks, or such text, a sign, and a text behind it, with the pieces that a condition is cut
into. -/
inductive Marked : Text → List (Piece LogicPart) → Prop where
  | plain {x : Text} (loose : Loose x) : Marked x (x.map .plain)
  | sign {s : Sign} {x m y : Text} {pieces : List (Piece LogicPart)} (loose : Loose x)
    (stands : s.Stands x m y)
      (later : Marked y pieces) : Marked (x ++ (m ++ y)) (x.map .plain ++ .found m (partOf s) :: pieces)

/-- Whether a character is neither a quote nor `&` or `|`. -/
def isClean (c : CodePoint) : Bool := Term.isQuotable c && c != '&' && c != '|'

variable {back w t : Text} {h : CodePoint} {pieces : List (Piece LogicPart)}

theorem logicPart_cons (clean : isClean h = true) (soft : isHard h = false) :
    logicPart back (h :: t) = ((dropKeyword? Junction.and.keyword back (h :: t)) <|>
      (dropKeyword? Junction.or.keyword back (h :: t))).map (LogicPart.joining, ·) := by
  have other {k : CodePoint} (bad : isHard k = true ∨ isClean k = false) : h ≠ k := by
    rintro rfl
    rcases bad with bad | bad
    · rw [soft] at bad
      cases bad
    · rw [clean] at bad
      cases bad
  have opening : h ≠ '(' := other (by decide)
  have closing : h ≠ ')' := other (by decide)
  have double : h ≠ '"' := other (by decide)
  have single : h ≠ '\'' := other (by decide)
  simp [logicPart, opening, closing, double, single, Junction.keyword]

/-- A character that belongs to no word, of a condition without quotes, is a parenthesis or no part. -/
theorem logicPart_of_mark (clean : isClean h = true) (soft : isHard h = false) (mark : isWord h = false) :
    logicPart back (h :: t) = none := by
  rw [logicPart_cons clean soft, dropKeyword?_cons (by decide) (by decide) mark,
    dropKeyword?_cons (by decide) (by decide) mark]
  rfl

theorem isClean_of_isWord (word : isWord h = true) : isClean h = true ∧ isHard h = false := by
  have soft := Vocabulary.isSoft_of_isWord word
  rw [isSoft, Bool.and_eq_true, Bool.not_eq_true'] at soft
  obtain ⟨soft, plain⟩ := soft
  have other {k : CodePoint} (hard : isHard k = true) : h ≠ k := by
    rintro rfl
    rw [soft] at hard
    cases hard
  refine ⟨?_, soft⟩
  simp [isClean, plain, other (show isHard '&' = true by decide), other (show isHard '|' = true by decide)]

theorem logicPart_junction {j : Junction} (spelled : w.map looseLetter = j.keyword)
    (before : Stops isWord back)
    (behind : Stops isWord t) : logicPart back (w ++ t) = some (.joining, t) := by
  have found := dropKeyword?_spelled spelled before behind
  have letters := j.isWord_of_spelled spelled
  cases w with
  | nil => cases j <;> cases spelled
  | cons c w =>
    obtain ⟨clean, soft⟩ := isClean_of_isWord (letters c List.mem_cons_self)
    rw [List.cons_append] at found ⊢
    rw [logicPart_cons clean soft]
    cases j with
    | and =>
      rw [found]
      rfl
    | or =>
      have missed : dropKeyword? Junction.and.keyword back (c :: (w ++ t)) = none :=
        dropKeyword?_within (x := []) (by decide) letters (by rw [spelled]; decide) rfl before behind
      rw [missed, found]
      rfl

theorem misses_word (letters : ∀ c ∈ w, isWord c = true)
    (other : ∀ j : Junction, w.map looseLetter ≠ j.keyword)
    (before : Stops isWord back) (behind : Stops isWord t) : Text.Misses logicPart back w t := by
  refine Text.misses_of_ends fun x y same ne => ?_
  obtain ⟨c, y, rfl⟩ := List.exists_cons_of_ne_nil ne
  obtain ⟨clean, soft⟩ := isClean_of_isWord (letters c (by simp [same]))
  have missed {keyword : Text} (words : ∀ k ∈ keyword, isWord k = true) (ne : w.map looseLetter ≠ keyword) :
      dropKeyword? keyword (x.reverse ++ back) (c :: (y ++ t)) = none :=
    dropKeyword?_within words letters ne same before behind
  rw [List.cons_append, logicPart_cons clean soft, missed (by decide) (other .and),
    missed (by decide) (other .or)]
  rfl

theorem cuts_of_misses {p : Pattern LogicPart} {a : Text} (misses : Text.Misses p back a t)
    (later : Text.Cuts p (a.reverse ++ back) t pieces) :
    Text.Cuts p back (a ++ t) (a.map .plain ++ pieces) := by
  induction a generalizing back with
  | nil => exact later
  | cons c a ih =>
    obtain ⟨here, misses⟩ := misses
    exact .plain here (ih misses (by simpa using later))

theorem Marked.cons (marked : Marked t pieces) (letters : ∀ c ∈ w, isWord c = true)
    (other : ∀ j : Junction, w.map looseLetter ≠ j.keyword) (mark : isWord h = false)
    (soft : isSoft h = true) :
    Marked (w ++ h :: t) (w.map .plain ++ .plain h :: pieces) := by
  have front {x : Text} (loose : Loose x) : Loose (w ++ h :: x) := .cons letters other mark soft loose
  cases marked with
  | plain loose =>
    have whole := Marked.plain (front loose)
    rwa [List.map_append, List.map_cons] at whole
  | @sign s x m y pieces loose stands later =>
    have stands' : s.Stands (w ++ h :: x) m y := by
      cases s with
      | opening => exact stands
      | closing => exact stands
      | junction j =>
        obtain ⟨spelled, before, behind⟩ := stands
        refine ⟨spelled, ?_, behind⟩
        rw [List.reverse_append, List.reverse_cons, List.append_assoc]
        cases x using List.reverseRecOn with
        | nil => exact stops_cons.mpr mark
        | append_singleton x c => exact before.append (by simp)
    have whole := Marked.sign (front loose) stands' later
    simpa using whole

/-- A condition without quotes and the signs that join is cut at its parentheses and the words that join. -/
theorem exists_marked (clean : ∀ c ∈ t, isClean c = true) (before : Stops isWord back) :
    ∃ pieces, Marked t pieces ∧ Text.Cuts logicPart back t pieces := by
  have ne {w : Text} {j : Junction} (spelled : w.map looseLetter = j.keyword) : w ≠ [] := by
    rintro rfl
    cases j <;> cases spelled
  induction t using words_induction generalizing back with
  | last w letters =>
    by_cases joins : ∃ j : Junction, w.map looseLetter = j.keyword
    · obtain ⟨j, spelled⟩ := joins
      have marked : Marked ([] ++ (w ++ [])) _ :=
        .sign (s := .junction j) loose_nil ⟨spelled, stops_nil, stops_nil⟩ (.plain loose_nil)
      have cuts := Text.Cuts.found (ne spelled) (logicPart_junction spelled before stops_nil) (.done _)
      rw [List.nil_append, List.append_nil] at marked
      rw [List.append_nil] at cuts
      exact ⟨_, marked, cuts⟩
    · have other (j : Junction) : w.map looseLetter ≠ j.keyword := fun spelled => joins ⟨j, spelled⟩
      have cuts := cuts_of_misses (misses_word letters other before stops_nil) (.done _)
      rw [List.append_nil, List.append_nil] at cuts
      exact ⟨_, .plain (.last letters other), cuts⟩
  | cons w h t letters mark ih =>
    have stop : Stops isWord (h :: t) := stops_cons.mpr mark
    have here : isClean h = true := clean h (by simp)
    have apart : Stops isWord (h :: (w.reverse ++ back)) := stops_cons.mpr mark
    obtain ⟨pieces, marked, cuts⟩ := ih (fun c mem => clean c (by simp [mem])) apart
    -- the pieces from the character on, whatever code is before it
    obtain ⟨rest, marked, cuts⟩ : ∃ rest, (∀ v, (∀ c ∈ v, isWord c = true) →
        (∀ j : Junction, v.map looseLetter ≠ j.keyword) → Marked (v ++ h :: t) (v.map .plain ++ rest)) ∧
        Text.Cuts logicPart (w.reverse ++ back) (h :: t) rest := by
      cases hard : isHard h with
      | false =>
        have soft : isSoft h = true := by
          rw [isClean, Bool.and_eq_true, Bool.and_eq_true] at here
          rw [isSoft, hard, here.1.1]
          rfl
        exact ⟨.plain h :: pieces, fun v letters other => marked.cons letters other mark soft,
          .plain (logicPart_of_mark here hard mark) cuts⟩
      | true =>
        rcases eq_of_isHard hard with rfl | rfl | rfl | rfl
        · exact ⟨_, fun v letters other =>
            .sign (s := .opening) (m := ['(']) (.last letters other) rfl marked,
            .found (m := ['(']) (by simp) rfl cuts⟩
        · exact ⟨_, fun v letters other =>
            .sign (s := .closing) (m := [')']) (.last letters other) rfl marked,
            .found (m := [')']) (by simp) rfl cuts⟩
        · cases here
        · cases here
    by_cases joins : ∃ j : Junction, w.map looseLetter = j.keyword
    · obtain ⟨j, spelled⟩ := joins
      have later : Marked ([] ++ h :: t) _ := marked [] (by simp) fun j => by cases j <;> decide
      have whole : Marked ([] ++ (w ++ h :: t)) _ :=
        .sign (s := .junction j) loose_nil ⟨spelled, stops_nil, stop⟩ later
      exact ⟨_, whole, .found (ne spelled) (logicPart_junction spelled before stop) cuts⟩
    · have other (j : Junction) : w.map looseLetter ≠ j.keyword := fun spelled => joins ⟨j, spelled⟩
      exact ⟨_, marked w letters other, cuts_of_misses (misses_word letters other before stop) cuts⟩

theorem marked_of_clean (clean : ∀ c ∈ t, isClean c = true) : Marked t (Text.cut logicPart t) := by
  obtain ⟨pieces, marked, cuts⟩ := exists_marked clean stops_nil
  rwa [Text.cut, cuts.cutFrom_eq]

theorem Marked.text (marked : Marked t pieces) : textOf pieces = t := by
  induction marked with
  | plain _ => exact textOf_plain _
  | sign _ _ _ ih =>
    rw [textOf_append, textOf_plain, textOf_cons, ih]
    rfl

/-! ## Operands read into tokens -/

theorem marks_of_stands {s : Sign} {x m y : Text} (stands : s.Stands x m y) :
    logicMarks.delta (.found m (partOf s)) = Grammar.marks.delta (.op, s.text) ∧
      logicMarks.junction? (.found m (partOf s)) = Grammar.marks.junction? (.op, s.text) := by
  cases s with
  | opening => exact ⟨rfl, rfl⟩
  | closing => exact ⟨rfl, rfl⟩
  | junction j =>
    refine ⟨by cases j <;> rfl, ?_⟩
    show some (if m.map looseLetter = Junction.and.keyword then Junction.and else .or) = _
    rw [stands.1]
    cases j <;> decide

theorem flat_plain (x : Text) : ∀ piece ∈ x.map Piece.plain,
    logicMarks.delta piece = 0 ∧ logicMarks.junction? piece = none := by
  intro piece mem
  obtain ⟨c, -, rfl⟩ := List.mem_map.mp mem
  exact ⟨rfl, rfl⟩

theorem unquoted_of_clean (clean : ∀ c ∈ t, isClean c = true) : Unquoted t := by
  intro c mem
  have here := clean c mem
  rw [isClean, Bool.and_eq_true, Bool.and_eq_true] at here
  exact here.1.1

variable {env : Environment}

/-- The operands that a text is split into are read into the operands that its tokens are split into. -/
theorem read_split (named : env.WellNamed) (marked : Marked t pieces) (clean : ∀ c ∈ t, isClean c = true)
    {tokens : List (TokenKind × Text)} (made : env.read t = some tokens) (d : Int) :
    env.read (textOf (logicMarks.split d pieces).1) = some (Grammar.marks.split d tokens).1 ∧
      List.Forall₂ (fun g k => g.1 = k.1 ∧ env.read (textOf g.2) = some k.2) (logicMarks.split d pieces).2
        (Grammar.marks.split d tokens).2 := by
  induction marked generalizing tokens d with
  | @plain x loose =>
    rw [Nesting.split_of_flat (flat_plain x),
      Nesting.split_of_flat (Environment.flat_of_read named loose made), textOf_plain]
    exact ⟨made, .nil⟩
  | @sign s x m y pieces loose stands later ih =>
    have clean' : ∀ c ∈ y, isClean c = true := fun c mem => clean c (by simp [mem])
    have plain := unquoted_of_clean clean'
    rw [Environment.read_sign named loose plain stands] at made
    obtain ⟨a, front, made⟩ := Option.bind_eq_some_iff.mp made
    obtain ⟨b, behind, rfl⟩ := Option.map_eq_some_iff.mp made
    obtain ⟨delta, junction⟩ := marks_of_stands stands
    rw [Nesting.passes_of_flat (flat_plain x),
      Nesting.passes_of_flat (Environment.flat_of_read named loose front)]
    by_cases top : d = 0 ∧ ∃ j, Grammar.marks.junction? (.op, s.text) = some j
    · obtain ⟨rfl, j, joins⟩ := top
      obtain ⟨first, others⟩ := ih clean' behind 0
      rw [Nesting.split_of_some (junction.trans joins), Nesting.split_of_some joins,
        List.append_nil, List.append_nil, textOf_plain]
      exact ⟨front, .cons ⟨rfl, first⟩ others⟩
    · have deep : d ≠ 0 ∨ Grammar.marks.junction? (.op, s.text) = none := by
        cases joins : Grammar.marks.junction? (.op, s.text) with
        | none => exact .inr rfl
        | some j => exact .inl fun zero => top ⟨zero, j, joins⟩
      obtain ⟨first, others⟩ := ih clean' behind (d + Grammar.marks.delta (.op, s.text))
      rw [Nesting.split_of_depth (junction ▸ deep), Nesting.split_of_depth deep, delta]
      refine ⟨?_, others⟩
      -- the text up to the next joint is the front of the text behind the sign
      obtain ⟨rest, whole⟩ := logicMarks.exists_split (d + Grammar.marks.delta (.op, s.text)) pieces
      have split : y = textOf (logicMarks.split (d + Grammar.marks.delta (.op, s.text)) pieces).1 ++
          textOf rest := by
        rw [← textOf_append, ← whole, later.text]
      have near : s.Stands x m
          (textOf (logicMarks.split (d + Grammar.marks.delta (.op, s.text)) pieces).1) := by
        rw [split] at stands
        exact stands.narrow [] x _ _
      have plain' : Unquoted (textOf (logicMarks.split (d + Grammar.marks.delta (.op, s.text)) pieces).1) :=
        fun c mem => plain c (by rw [split]; exact List.mem_append_left _ mem)
      rw [textOf_append, textOf_plain, textOf_cons, Piece.text,
        Environment.read_sign named loose plain' near, front, first]
      rfl

/-- Parentheses around a whole text are parentheses around its tokens. -/
theorem closesLast_of_read (named : env.WellNamed) (marked : Marked t pieces)
    (clean : ∀ c ∈ t, isClean c = true)
    {tokens : List (TokenKind × Text)} (made : env.read t = some tokens) {d : Int}
    (closed : logicMarks.closesLast d pieces = true) : Grammar.marks.closesLast d tokens = true := by
  induction marked generalizing tokens d with
  | @plain x loose =>
    have kept := Nesting.keeps_of_flat (fun piece mem => (flat_plain x piece mem).1) d []
    rw [List.append_nil, closed] at kept
    cases kept
  | @sign s x m y pieces loose stands later ih =>
    have clean' : ∀ c ∈ y, isClean c = true := fun c mem => clean c (by simp [mem])
    rw [Environment.read_sign named loose (unquoted_of_clean clean') stands] at made
    obtain ⟨a, front, made⟩ := Option.bind_eq_some_iff.mp made
    obtain ⟨b, behind, rfl⟩ := Option.map_eq_some_iff.mp made
    have flat := Environment.flat_of_read named loose front
    rw [Nesting.keeps_of_flat fun piece mem => (flat_plain x piece mem).1, Nesting.closesLast,
      (marks_of_stands stands).1] at closed
    rw [Nesting.keeps_of_flat fun token mem => (flat token mem).1, Nesting.closesLast]
    split
    · next last =>
      rw [if_pos last, List.isEmpty_iff] at closed
      -- nothing is behind the sign, so nothing is read
      have empty : y = [] := by rw [← later.text, closed]; rfl
      rw [empty, Environment.read_nil named] at behind
      cases behind
      rfl
    · next inner =>
      rw [if_neg inner] at closed
      exact ih clean' behind closed

/-! ## Blanks and parentheses around a text -/

theorem read_append_blank (named : env.WellNamed) (marked : Marked t pieces)
    (clean : ∀ c ∈ t, isClean c = true)
    {b : CodePoint} (blank : isBlank b = true) : env.read (t ++ [b]) = env.read t := by
  induction marked with
  | plain loose => exact Environment.read_append named blank loose
  | @sign s x m y pieces loose stands later ih =>
    have clean' : ∀ c ∈ y, isClean c = true := fun c mem => clean c (by simp [mem])
    have plain := unquoted_of_clean clean'
    obtain ⟨mark, -, visible⟩ := Environment.blank_apart blank
    have more : Unquoted (y ++ [b]) := plain.concat visible
    rw [List.append_assoc, List.append_assoc, Environment.read_sign named loose more (stands.extend mark []),
      Environment.read_sign named loose plain stands, ih clean']

theorem read_append_closing (named : env.WellNamed) (marked : Marked t pieces)
    (clean : ∀ c ∈ t, isClean c = true) :
    env.read (t ++ [.char ')']) = (env.read t).map (· ++ [(.op, ")".toText)]) := by
  induction marked with
  | @plain x loose =>
    have stands : Sign.closing.Stands x [.char ')'] [] := rfl
    have alone := Environment.read_sign named loose unquoted_nil stands
    rw [List.append_nil, Environment.read_nil named] at alone
    rw [alone]
    cases env.read x <;> rfl
  | @sign s x m y pieces loose stands later ih =>
    have clean' : ∀ c ∈ y, isClean c = true := fun c mem => clean c (by simp [mem])
    have plain := unquoted_of_clean clean'
    have more : Unquoted (y ++ [.char ')']) := plain.concat (by decide)
    rw [List.append_assoc, List.append_assoc,
      Environment.read_sign named loose more (stands.extend (by decide) []),
      Environment.read_sign named loose plain stands, ih clean']
    cases env.read x with
    | none => rfl
    | some a =>
      cases env.read y with
      | none => rfl
      | some b => simp

theorem read_trim (named : env.WellNamed) (clean : ∀ c ∈ t, isClean c = true) :
    env.read t.trim = env.read t := by
  have left (t : Text) (clean : ∀ c ∈ t, isClean c = true) : env.read t.trimLeft = env.read t := by
    induction t with
    | nil => rfl
    | cons b t ih =>
      obtain ⟨-, later⟩ := List.forall_mem_cons.mp clean
      cases blank : isBlank b with
      | true =>
        rw [Text.trimLeft, List.dropWhile_cons_of_pos blank,
          Environment.read_cons named blank (unquoted_of_clean later)]
        exact ih later
      | false => rw [Text.trimLeft, List.dropWhile_cons_of_neg (by simp [blank])]
  have right (t : Text) (clean : ∀ c ∈ t, isClean c = true) : env.read t.trimRight = env.read t := by
    induction t using List.reverseRecOn with
    | nil => rfl
    | append_singleton t b ih =>
      have later : ∀ c ∈ t, isClean c = true := fun c mem => clean c (by simp [mem])
      rw [Text.trimRight, List.reverse_append, List.reverse_singleton, List.singleton_append, Text.trimLeft]
      cases blank : isBlank b with
      | true =>
        rw [List.dropWhile_cons_of_pos blank, read_append_blank named (marked_of_clean later) later blank]
        exact ih later
      | false => rw [List.dropWhile_cons_of_neg (by simp [blank]), List.reverse_cons, List.reverse_reverse]
  have within : ∀ c ∈ t.trimLeft, isClean c = true :=
    fun c mem => clean c ((t.dropWhile_suffix isBlank).subset mem)
  rw [Text.trim, right _ within, left t clean]

theorem Marked.exists_stands {m : Text} {part : LogicPart} (marked : Marked t pieces)
    (mem : .found m part ∈ pieces) :
    ∃ s x y, part = partOf s ∧ s.Stands x m y := by
  induction marked with
  | plain _ =>
    obtain ⟨c, -, same⟩ := List.mem_map.mp mem
    cases same
  | @sign s x m' y pieces loose stands _ ih =>
    rw [List.mem_append, List.mem_cons] at mem
    rcases mem with mem | same | mem
    · obtain ⟨c, -, same⟩ := List.mem_map.mp mem
      cases same
    · cases same
      exact ⟨s, x, y, rfl, stands⟩
    · exact ih mem

/-- A text with parentheses around the whole has a text between them. -/
theorem exists_inside (clean : ∀ c ∈ t, isClean c = true) (first : t.head? = some '(')
    (closed : closedByLast 0 (Text.cut logicPart t) = true) : ∃ u, t = .char '(' :: (u ++ [.char ')']) := by
  have marked := marked_of_clean clean
  rw [closedByLast_eq] at closed
  obtain ⟨front, last, whole, closes⟩ := Nesting.exists_last_of_closesLast closed
  have text := marked.text
  rw [whole, textOf_append] at text
  obtain ⟨m, rfl⟩ : ∃ m, last = .found m .closing := by
    cases last with
    | plain c => cases closes
    | found m part =>
      cases part with
      | closing => exact ⟨m, rfl⟩
      | opening | quoted | joining => cases closes
  have among : .found m .closing ∈ Text.cut logicPart t := by simp [whole]
  obtain ⟨s, x, y, part, stands⟩ := marked.exists_stands among
  have sign : m = [.char ')'] := by
    cases s with
    | closing => exact stands
    | opening | junction _ => cases part
  subst sign
  have closing : textOf [.found [.char ')'] LogicPart.closing] = [.char ')'] := rfl
  rw [closing] at text
  cases before : textOf front with
  | nil =>
    rw [before] at text
    rw [← text] at first
    cases first
  | cons c u =>
    rw [before] at text
    rw [← text] at first
    cases first
    exact ⟨u, text.symm⟩

/-- What stands between parentheses around a whole text has the value of the text. -/
theorem exists_worth_inside (named : env.WellNamed) {u : Text} {tokens : List Token} {v : Value}
    (clean : ∀ c ∈ u, isClean c = true)
    (made : env.read (.char '(' :: (u ++ [.char ')'])) = some (tokens.map Token.shape))
    (closed : Grammar.marks.closesLast 0 (tokens.map Token.shape) = true)
    (worth : Grammar.Worth env tokens v) :
    ∃ inner, env.read u = some (inner.map Token.shape) ∧ Grammar.Worth env inner v := by
  have plain := unquoted_of_clean clean
  have more : Unquoted (u ++ [.char ')']) := plain.concat (by decide)
  have stands : Sign.opening.Stands [] [.char '('] (u ++ [.char ')']) := rfl
  have split := Environment.read_sign named loose_nil more stands
  rw [Environment.read_nil named, Option.bind_some, read_append_closing named (marked_of_clean clean) clean,
    List.nil_append, List.singleton_append, made, Option.map_map] at split
  obtain ⟨r, inside, same⟩ := Option.map_eq_some_iff.mp split.symm
  have same : tokens.map Token.shape = (.op, "(".toText) :: (r ++ [(.op, ")".toText)]) := same.symm
  obtain ⟨e, derived, value, present⟩ := worth
  rw [Nesting.closesLast_map] at closed
  obtain ⟨opening, rest, rfl, opens, -⟩ := List.map_eq_cons_iff.mp same
  have closed' : Grammar.tokenMarks.closesLast 0 (opening :: rest ++ []) = true := by rwa [List.append_nil]
  obtain ⟨-, inner, closing, whole, derived'⟩ := Grammar.derives_inside derived rfl opens closed'
  refine ⟨inner, ?_, e, derived', value, present⟩
  rw [whole, List.map_cons, List.map_append] at same
  obtain ⟨-, same⟩ := List.cons.inj same
  rw [inside, (List.append_inj' same rfl).1]

theorem mem_of_mem_trim {c : CodePoint} (mem : c ∈ t.trim) : c ∈ t := by
  rw [Text.trim, Text.trimRight, List.mem_reverse] at mem
  have inside := (List.dropWhile_suffix isBlank).subset mem
  rw [List.mem_reverse] at inside
  exact (List.dropWhile_suffix isBlank).subset inside

theorem clean_trim (clean : ∀ c ∈ t, isClean c = true) : ∀ c ∈ t.trim, isClean c = true :=
  fun c mem => clean c (mem_of_mem_trim mem)

/-- A condition is stripped of blanks, and then of a pair of parentheses and the blanks in it, or not. -/
theorem stripParens_cases (clean : ∀ c ∈ t, isClean c = true) : stripParens t = t.trim ∨
    ∃ u : Text, t.trim = .char '(' :: (u ++ [.char ')']) ∧ stripParens t = u.trim ∧
      logicMarks.closesLast 0 (Text.cut logicPart t.trim) = true := by
  rw [stripParens]
  split
  · next around =>
    rw [Bool.and_eq_true, decide_eq_true_iff] at around
    obtain ⟨u, whole⟩ := exists_inside (clean_trim clean) around.1 around.2
    refine .inr ⟨u, whole, ?_, closedByLast_eq 0 _ ▸ around.2⟩
    rw [whole]
    simp
  · exact .inl rfl

theorem clean_stripParens (clean : ∀ c ∈ t, isClean c = true) : ∀ c ∈ stripParens t, isClean c = true := by
  have trimmed := clean_trim clean
  rcases stripParens_cases clean with same | ⟨u, whole, same, -⟩
  · rw [same]
    exact trimmed
  · rw [same]
    exact fun c mem => trimmed c (by rw [whole]; simp [mem_of_mem_trim mem])

theorem exists_worth_stripParens (named : env.WellNamed) (clean : ∀ c ∈ t, isClean c = true)
    (present : env.evaluate t ≠ .none) :
    ∃ tokens, env.read (stripParens t) = some (tokens.map Token.shape) ∧
      Grammar.Worth env tokens (env.evaluate t) := by
  obtain ⟨tokens, made, worth⟩ := Environment.exists_worth present
  rw [← read_trim named clean] at made
  rcases stripParens_cases clean with same | ⟨u, whole, same, closed⟩
  · exact ⟨tokens, by rw [same, made], worth⟩
  · have closed' := closesLast_of_read named (marked_of_clean (clean_trim clean))
      (clean_trim clean) made closed
    have within : ∀ c ∈ u, isClean c = true := fun c mem => clean_trim clean c (by rw [whole]; simp [mem])
    rw [whole] at made
    obtain ⟨inner, inside, worth'⟩ := exists_worth_inside named within made closed' worth
    exact ⟨inner, by rw [same, read_trim named within, inside], worth'⟩

/-! ## Operands with the words before them -/

/-- An operand behind the word that joins it to the one before. -/
structure Joint where
  junction : Junction
  word : Text
  operand : Text

def Joint.text (j : Joint) : Text := j.word ++ j.operand

theorem exists_joints (d : Int) (pieces : List (Piece LogicPart)) :
    ∃ joints : List Joint,
      (joints.map fun j => (j.junction, j.operand)) = (logicMarks.split d pieces).2.map
        (fun g => (g.1, textOf g.2)) ∧
      textOf pieces = textOf (logicMarks.split d pieces).1 ++ joints.flatMap Joint.text ∧
      ∀ j ∈ joints, .found j.word .joining ∈ pieces ∧
        logicMarks.junction? (.found j.word .joining) = some j.junction := by
  induction pieces generalizing d with
  | nil => exact ⟨[], rfl, rfl, by simp⟩
  | cons piece pieces ih =>
    by_cases top : d = 0 ∧ ∃ j, logicMarks.junction? piece = some j
    · obtain ⟨rfl, junction, joins⟩ := top
      obtain ⟨joints, operands, text, words⟩ := ih 0
      obtain ⟨word, rfl⟩ : ∃ word, piece = .found word .joining := by
        cases piece with
        | plain c => cases joins
        | found word part =>
          cases part with
          | joining => exact ⟨word, rfl⟩
          | opening | closing | quoted => cases joins
      rw [Nesting.split_of_some joins]
      refine ⟨⟨junction, word, textOf (logicMarks.split 0 pieces).1⟩ :: joints, ?_, ?_, ?_⟩
      · rw [List.map_cons, List.map_cons, operands]
      · rw [textOf_cons, text, List.flatMap_cons, Joint.text, Piece.text, List.append_assoc]
        rfl
      · refine List.forall_mem_cons.mpr ⟨⟨List.mem_cons_self, joins⟩, fun j mem => ?_⟩
        obtain ⟨among, joins'⟩ := words j mem
        exact ⟨List.mem_cons_of_mem _ among, joins'⟩
    · have deep : d ≠ 0 ∨ logicMarks.junction? piece = none := by
        cases joins : logicMarks.junction? piece with
        | none => exact .inr rfl
        | some j => exact .inl fun zero => top ⟨zero, j, joins⟩
      obtain ⟨joints, operands, text, words⟩ := ih (d + logicMarks.delta piece)
      rw [Nesting.split_of_depth deep]
      refine ⟨joints, operands, ?_, fun j mem => ?_⟩
      · rw [textOf_cons, textOf_cons, text, List.append_assoc]
      · obtain ⟨among, joins⟩ := words j mem
        exact ⟨List.mem_cons_of_mem _ among, joins⟩

/-- A word that joins is spelled as its keyword, letter case ignored. -/
theorem fold_of_junction? {word : Text} {j : Junction} (marked : Marked t pieces)
    (mem : .found word .joining ∈ pieces) (joins : logicMarks.junction? (.found word .joining) = some j) :
    word.fold = j.keyword := by
  obtain ⟨s, x, y, part, stands⟩ := marked.exists_stands mem
  cases s with
  | opening => cases part
  | closing => cases part
  | junction j' =>
    obtain rfl : j' = j := by
      have same := (marks_of_stands stands).2
      have sign : Grammar.marks.junction? (.op, (Sign.junction j').text) = some j' := by cases j' <;> decide
      have joins : logicMarks.junction? (.found word (partOf (.junction j'))) = some j := joins
      rw [joins, sign] at same
      exact (Option.some_inj.mp same).symm
    refine fold_of_map_looseLetter ?_ stands.1
    cases j' <;> decide

/-! ## Values of operands -/

theorem evaluate_trim (named : env.WellNamed) (clean : ∀ c ∈ t, isClean c = true)
    {tokens : List Token} {v : Value}
    (made : env.read t = some (tokens.map Token.shape)) (worth : Grammar.Worth env tokens v) :
    env.evaluate t.trim = v :=
  Environment.evaluate_of_read (by rw [read_trim named clean, made]) worth

theorem evaluate_nil (named : env.WellNamed) : env.evaluate [] = .none := by
  by_contra present
  obtain ⟨tokens, made, e, derived, -⟩ := Environment.exists_worth present
  rw [Environment.read_nil named] at made
  obtain rfl : tokens = [] := by simpa using made
  obtain ⟨token, rest, nothing, -⟩ := Grammar.exists_cons_of_derives derived
  cases nothing

theorem map_evaluate_joints (named : env.WellNamed) {joints : List Joint}
    {others : List (Junction × List Token × Value)} (clean : ∀ j ∈ joints, ∀ c ∈ j.operand, isClean c = true)
    (worths : ∀ o ∈ others, Grammar.Worth env o.2.1 o.2.2)
    (reads : List.Forall₂
      (fun j o => j.junction = o.1 ∧ env.read j.operand = some (o.2.1.map Token.shape)) joints others) :
    (joints.map fun j => (j.junction, env.evaluate j.operand.trim)) = others.map fun o => (o.1, o.2.2) := by
  induction reads with
  | nil => rfl
  | cons here _ ih =>
    obtain ⟨clean, clean'⟩ := List.forall_mem_cons.mp clean
    obtain ⟨worth, worths⟩ := List.forall_mem_cons.mp worths
    rw [List.map_cons, List.map_cons, ih clean' worths, here.1, evaluate_trim named clean here.2 worth]

/-- The operands of a text whose tokens have a value: with the words between them they make up the
text, each has a value, and the values joined are the value of the tokens. -/
theorem exists_operands (named : env.WellNamed) (clean : ∀ c ∈ t, isClean c = true)
    {tokens : List Token} {v : Value}
    (made : env.read t = some (tokens.map Token.shape)) (worth : Grammar.Worth env tokens v) :
    ∃ (first : Text) (joints : List Joint),
      operandTexts 0 [] (Text.cut logicPart t) = first :: joints.map Joint.operand ∧
      t = first ++ joints.flatMap Joint.text ∧ (∀ j ∈ joints, j.word.fold = j.junction.keyword) ∧
      (∀ operand ∈ first :: joints.map Joint.operand, env.evaluate operand.trim ≠ .none) ∧
      Value.joined none (env.evaluate first.trim)
        (joints.map fun j => (j.junction, env.evaluate j.operand.trim)) = v := by
  have marked := marked_of_clean clean
  obtain ⟨front, a, others, worth', worths, split, joined⟩ := Grammar.exists_operands worth
  obtain ⟨head, groups⟩ := read_split named marked clean made 0
  obtain ⟨joints, operands, text, words⟩ := exists_joints 0 (Text.cut logicPart t)
  have split' : (Grammar.marks.comap Token.shape).split 0 tokens =
      (front, others.map fun o => (o.1, o.2.1)) := split
  rw [Nesting.split_map, split'] at head groups
  rw [marked.text] at text
  have texts := operandTexts_eq 0 [] (Text.cut logicPart t)
  generalize textOf (logicMarks.split 0 (Text.cut logicPart t)).1 = first at head text texts
  generalize (logicMarks.split 0 (Text.cut logicPart t)).2 = behind at groups operands texts
  have reads : List.Forall₂ (fun j o => j.junction = o.1 ∧ env.read j.operand = some (o.2.1.map Token.shape))
      joints others := by
    have pairs : List.Forall₂ (fun (p : Junction × Text) (o : Junction × List Token × Value) =>
        p.1 = o.1 ∧ env.read p.2 = some (o.2.1.map Token.shape))
          (behind.map fun g => (g.1, textOf g.2)) others := by
      rw [List.map_map, List.forall₂_map_right_iff] at groups
      exact List.forall₂_map_left_iff.mpr groups
    rw [← operands] at pairs
    exact List.forall₂_map_left_iff.mp pairs
  have within : ∀ j ∈ joints, ∀ c ∈ j.operand, isClean c = true := by
    intro j mem c among
    refine clean c ?_
    rw [text]
    exact List.mem_append_right _ (List.mem_flatMap.mpr ⟨j, mem, List.mem_append_right _ among⟩)
  have values := map_evaluate_joints named within worths reads
  have value : env.evaluate first.trim = a :=
    evaluate_trim named (fun c mem => clean c (by rw [text]; exact List.mem_append_left _ mem)) head worth'
  refine ⟨first, joints, ?_, text, fun j mem =>
    fold_of_junction? marked (words j mem).1 (words j mem).2, ?_, ?_⟩
  · have same := congrArg (List.map Prod.snd) operands
    rw [List.map_map, List.map_map] at same
    rw [texts, List.nil_append]
    exact congrArg _ same.symm
  · refine List.forall_mem_cons.mpr ⟨?_, fun operand mem => ?_⟩
    · rw [value]
      obtain ⟨-, -, -, present⟩ := worth'
      exact present
    · obtain ⟨j, among, rfl⟩ := List.mem_map.mp mem
      have pair : (j.junction, env.evaluate j.operand.trim) ∈ others.map fun o => (o.1, o.2.2) :=
        values ▸ List.mem_map_of_mem among
      obtain ⟨o, other, same⟩ := List.mem_map.mp pair
      obtain ⟨-, -, -, present⟩ := worths o other
      rw [← (Prod.mk.inj same).2]
      exact present
  · rw [value, values, joined]

end Source

open Source

/-- The operands that a condition is split into have values of their own if the condition has one, and these
values, joined by the words between the operands, are the value of the condition. -/
theorem Environment.evaluate_logicOperands (env : Environment) (condition : Text)
    (named : ∀ n ∈ env.names, Term.isIdentifier n = true ∧ n.fold ≠ "and".toText ∧ n.fold ≠ "or".toText)
    (plain : ∀ c ∈ condition, c ≠ '\'' ∧ c ≠ '"' ∧ c ≠ '&' ∧ c ≠ '|')
    (value : env.evaluate condition ≠ .none) :
    ∃ (first : Text) (joints : List Joint),
      stripParens condition = first ++ joints.flatMap (fun j => j.word ++ j.operand) ∧
      (∀ j ∈ joints, j.word.fold = j.junction.keyword) ∧
      logicOperands condition = (first :: joints.map Joint.operand).map Text.trim ∧
      (∀ t ∈ logicOperands condition, env.evaluate t ≠ .none) ∧
      Value.joined none (env.evaluate first.trim)
        (joints.map fun j => (j.junction, env.evaluate j.operand.trim)) = env.evaluate condition := by
  have wellNamed : env.WellNamed := by
    intro n mem
    obtain ⟨identifier, and, or⟩ := named n mem
    refine ⟨identifier, fun j spelled => ?_⟩
    cases j with
    | and => exact and (fold_of_map_looseLetter (by decide) spelled)
    | or => exact or (fold_of_map_looseLetter (by decide) spelled)
  have clean : ∀ c ∈ condition, isClean c = true := by
    intro c mem
    simpa [isClean, Term.isQuotable, and_assoc] using plain c mem
  obtain ⟨tokens, made, worth⟩ := exists_worth_stripParens wellNamed clean value
  obtain ⟨first, joints, texts, text, words, present, joined⟩ :=
    exists_operands wellNamed (clean_stripParens clean) made worth
  have values : ∀ t ∈ (first :: joints.map Joint.operand).map Text.trim, env.evaluate t ≠ .none := by
    intro t mem
    obtain ⟨operand, among, rfl⟩ := List.mem_map.mp mem
    exact present operand among
  -- an empty text has no value, so no operand is left out
  have operands : logicOperands condition = (first :: joints.map Joint.operand).map Text.trim := by
    rw [logicOperands, texts, List.filter_eq_self]
    intro t mem
    cases t with
    | nil => exact absurd (evaluate_nil wellNamed) (values [] mem)
    | cons c t => rfl
  exact ⟨first, joints, text, words, operands, operands ▸ values, joined⟩

/-- Four operands, one of them in parentheses, with bits and truth values among them:
` ( Level and 3 OR (Level > 9 OR FALSE) AND NOT Level ) `. -/
theorem Environment.evaluate_logicOperands_level :
    let env : Environment := ⟨[("level".toText, ⟨"Level".toText, .int 6, "INT".toText, .computed⟩)]⟩
    let condition : Text := " ( Level and 3 OR (Level > 9 OR FALSE) AND NOT Level ) ".toText
    env.evaluate condition = .bool true ∧ (logicOperands condition).length = 4 ∧
      ∃ (first : Text) (joints : List Joint),
        stripParens condition = first ++ joints.flatMap (fun j => j.word ++ j.operand) ∧
        (∀ j ∈ joints, j.word.fold = j.junction.keyword) ∧
        logicOperands condition = (first :: joints.map Joint.operand).map Text.trim ∧
        (∀ t ∈ logicOperands condition, env.evaluate t ≠ .none) ∧
        Value.joined none (env.evaluate first.trim)
          (joints.map fun j => (j.junction, env.evaluate j.operand.trim)) = env.evaluate condition := by
  intro env condition
  exact ⟨by decide +kernel, by decide +kernel,
    evaluate_logicOperands env condition (by decide +kernel) (by decide) (by decide +kernel)⟩

end SclNarrator
