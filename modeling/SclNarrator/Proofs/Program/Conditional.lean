import Mathlib.Data.List.Basic
import SclNarrator.Proofs.Program.Assignments
import SclNarrator.Proofs.Text.Keyword
import SclNarrator.Source.Structure

/-!
Programs around one `IF` structure, and their text. Its conditions and bodies mention no word of an
`IF` structure, so that the words of the text are just those that structure it. Splitting the text
gives the parts back (`split?_text`).
-/

namespace SclNarrator.Program

open Source (IfWord IfToken Skeleton ifPart)
open Text (Misses cutFrom)

/-- Whether no word of an `IF` structure stands in a text as a whole word, in any letter case. -/
def isUnstructured (t : Text) : Bool := IfWord.spellings.all fun word => !Construct.mentions word t

/-- Whether a text can be a condition: it is neither blank nor between blanks, and has no quote and no
word of an `IF` structure. -/
def isCondition (t : Text) : Bool :=
  !t.isEmpty && t.trim == t && t.all (fun c => c != '\'' && c != '"') && isUnstructured t

structure Space extends Gap where
  ne_nil : text ≠ []

/-- A program that mentions no word of an `IF` structure. -/
structure Block extends Program where
  unstructured : isUnstructured toProgram.text = true

structure Condition where
  text : Text
  valid : isCondition text = true

/-- A condition with blanks around it, and what is done if it is the first one that holds. -/
structure Branch where
  lead : Space
  condition : Condition
  tail : Space
  inner : Space
  body : Block

/-- A program around one `IF` structure. -/
structure Conditional where
  before : Block
  first : Branch
  more : List Branch
  otherwise : Option (Space × Block)
  gap : Gap
  after : Block

/-- The text behind the word of a branch up to its `THEN`. -/
def Branch.head (b : Branch) : Text := b.lead.text ++ (b.condition.text ++ b.tail.text)

/-- The text behind `THEN`. -/
def Branch.inside (b : Branch) : Text := b.inner.text ++ b.body.text

def Branch.text (word : Text) (b : Branch) : Text :=
  word ++ (b.head ++ ("THEN".toText ++ b.inside))

def otherwiseText : Option (Space × Block) → Text
  | none => []
  | some (inner, body) => "ELSE".toText ++ (inner.text ++ body.text)

/-- The text from `IF` on. -/
def Conditional.fromIf (p : Conditional) : Text :=
  p.first.text "IF".toText ++ (p.more.flatMap (Branch.text "ELSIF".toText) ++
    (otherwiseText p.otherwise ++ ("END_IF".toText ++ (p.gap.text ++ .char ';' :: p.after.text))))

/-- The text of a program around an `IF` structure. -/
def Conditional.text (p : Conditional) : Text := p.before.text ++ p.fromIf

/-! ## Where the words of a structure stand -/

theorem words_spellings : ∀ word ∈ IfWord.spellings, ∀ k ∈ word, isWord k = true := by decide

theorem afterLiteral?_of_head {c : CodePoint} {t : Text} (h : c ≠ '\'') :
    Source.afterLiteral? (c :: t) = none := by
  unfold Source.afterLiteral?
  split
  · next same => simp_all
  · rfl

/-- The word that stands at a point of a stretch does not depend on the text around the stretch, if no
word goes on there. -/
theorem ifPart_append {x y back b : Text} {c : CodePoint} (quote : c ≠ '\'')
    (before : Stops isWord back) (stop : Stops isWord b) :
    ifPart (x ++ back) (c :: y ++ b) = (ifPart x (c :: y)).map fun (word, r) => (word, r ++ b) := by
  simp only [ifPart, List.cons_append, afterLiteral?_of_head quote]
  rw [List.map_findSome?, ← List.head?_filterMap, ← List.head?_filterMap]
  congr 1
  refine List.filterMap_congr fun word mem => ?_
  rw [← List.cons_append, dropKeyword?_append (words_spellings word mem) before stop,
    Function.comp_apply]
  cases dropKeyword? word x (c :: y) with
  | none => rfl
  | some r => simp only [Option.map_some, taken_append]

theorem ifPart_of_head {c : CodePoint} {t back : Text} (quote : c ≠ '\'') (noWord : isWord c = false) :
    ifPart back (c :: t) = none := by
  have empty : ∀ word ∈ IfWord.spellings, dropLoose? word [] = none := by decide
  simp only [ifPart, afterLiteral?_of_head quote]
  rw [List.findSome?_eq_none_iff]
  intro word mem
  have absent : dropLoose? word (c :: t) = none := by
    have := dropLoose?_append (y := []) (words_spellings word mem) (stops_cons (t := t).mpr noWord)
    rwa [empty word mem] at this
  simp [dropKeyword?, absent]

/-- In a text without quotes and words of a structure nothing is found. -/
theorem ifPart_unstructured {t x y : Text} {c : CodePoint} (h : isUnstructured t = true)
    (quote : c ≠ '\'') (same : t = x ++ c :: y) : ifPart x.reverse (c :: y) = none := by
  simp only [ifPart, afterLiteral?_of_head quote]
  rw [List.findSome?_eq_none_iff]
  intro word mem
  have absent : Construct.mentions word t = false := by
    simpa using List.all_eq_true.mp h word mem
  rw [dropKeyword?_of_not_mentions absent same]
  rfl

/-- A stretch without quotes and words of a structure, between characters that belong to no word. -/
theorem misses_unstructured {t back b : Text} (h : isUnstructured t = true) (quote : .char '\'' ∉ t)
    (before : Stops isWord back) (stop : Stops isWord b) : Misses ifPart back t b := by
  refine Text.misses_of_ends fun x y same ne => ?_
  obtain ⟨c, y, rfl⟩ := List.exists_cons_of_ne_nil ne
  have plain : c ≠ '\'' := by
    rintro rfl
    exact quote (same ▸ List.mem_append_right x List.mem_cons_self)
  rw [ifPart_append plain before stop, ifPart_unstructured h plain same]
  rfl

theorem misses_gap (gap : Gap) (back b : Text) : Misses ifPart back gap.text b := by
  refine Text.misses_of_ends fun x y same ne => ?_
  obtain ⟨c, y, rfl⟩ := List.exists_cons_of_ne_nil ne
  have blank := gap.isBlank (same ▸ List.mem_append_right x List.mem_cons_self)
  have := forall_blank (P := fun c => c != '\'' && !isWord c) (by decide +kernel) blank
  simp only [Bool.and_eq_true, bne_iff_ne, Bool.not_eq_true'] at this
  exact ifPart_of_head this.1 this.2

/-! ## Sections -/

/-- A text between two words of a structure. It keeps them apart, and nothing in it is taken for a word
of the structure. -/
structure IsSection (a : Text) : Prop where
  ne_nil : a ≠ []
  start : Stops isWord a
  finish : Stops isWord a.reverse
  misses : ∀ back b : Text, Misses ifPart back a b

theorem Space.stops (space : Space) (b : Text) : Stops isWord (space.text ++ b) := by
  obtain ⟨c, rest, same⟩ := List.exists_cons_of_ne_nil space.ne_nil
  rw [same]
  exact stops_cons.mpr (isWord_of_isBlank (space.isBlank (same ▸ List.mem_cons_self)))

theorem Gap.stops_reverse (gap : Gap) {b : Text} (h : Stops isWord b) :
    Stops isWord (gap.text.reverse ++ b) := by
  cases same : gap.text.reverse with
  | nil => exact h
  | cons c rest =>
    have mem : c ∈ gap.text := List.mem_reverse.mp (same ▸ List.mem_cons_self)
    exact stops_cons.mpr (isWord_of_isBlank (gap.isBlank mem))

theorem Space.stops_reverse (space : Space) (b : Text) : Stops isWord (space.text.reverse ++ b) := by
  cases same : space.text.reverse with
  | nil => exact absurd (List.reverse_eq_nil_iff.mp same) space.ne_nil
  | cons c rest =>
    have mem : c ∈ space.text := List.mem_reverse.mp (same ▸ List.mem_cons_self)
    exact stops_cons.mpr (isWord_of_isBlank (space.isBlank mem))

theorem statementsText_cases (statements : List (Gap × Statement)) :
    statementsText statements = [] ∨ ∃ front, statementsText statements = front ++ [.char ';'] := by
  induction statements with
  | nil => exact .inl rfl
  | cons head statements ih =>
    obtain ⟨gap, s⟩ := head
    obtain ⟨own, text⟩ := s.exists_text
    right
    have whole : statementsText ((gap, s) :: statements) =
        gap.text ++ s.text ++ statementsText statements := by simp [statementsText]
    rcases ih with empty | ⟨front, last⟩
    · exact ⟨gap.text ++ own, by rw [whole, empty, text]; simp⟩
    · exact ⟨gap.text ++ s.text ++ front, by rw [whole, last]; simp⟩

theorem stops_reverse_text (program : Program) {b : Text} (h : Stops isWord b) :
    Stops isWord (program.text.reverse ++ b) := by
  rw [text, List.reverse_append, List.append_assoc]
  refine program.tail.stops_reverse ?_
  rcases statementsText_cases program.statements with none | ⟨front, last⟩
  · rwa [none]
  · rw [last, List.reverse_append]
    exact stops_cons.mpr (by decide)

theorem Statement.quote_notMem_text (s : Statement) : .char '\'' ∉ s.text := by
  have gap : ∀ (gap : Gap), .char '\'' ∉ gap.text := fun gap mem =>
    absurd (gap.isBlank mem) (by decide)
  have name : ∀ (name : Name), .char '\'' ∉ name.text := fun name mem =>
    absurd (name.isNameChar mem) (by decide)
  cases s with
  | assign target space e =>
    have expression : .char '\'' ∉ e.text := fun mem => absurd (e.isOperandChar mem) (by decide)
    simp [Statement.text, gap, name, expression]
  | call callee space first more tail =>
    have arguments : .char '\'' ∉ argumentsText first more := fun mem =>
      (plain_argumentsText first more _ mem).1 rfl
    simp [Statement.text, gap, name, arguments]

theorem quote_notMem_text (program : Program) : .char '\'' ∉ program.text := by
  intro mem
  rcases List.mem_append.mp mem with mem | mem
  · obtain ⟨⟨gap, s⟩, -, here⟩ := List.mem_flatMap.mp mem
    rcases List.mem_append.mp here with here | here
    · exact absurd (gap.isBlank here) (by decide)
    · exact s.quote_notMem_text here
  · exact absurd (program.tail.isBlank mem) (by decide)

theorem Block.misses (block : Block) {back : Text} (b : Text) (before : Stops isWord back) :
    Misses ifPart back block.text b := by
  rcases List.eq_nil_or_concat block.text with none | ⟨front, d, last⟩
  · rw [none]
    trivial
  · rw [List.concat_eq_append] at last
    -- the last character belongs to no word and keeps words apart from what follows
    have noWord : isWord d = false := by
      have := block.stops_reverse_text (b := []) stops_nil
      rw [last] at this
      simpa using this
    have quote : .char '\'' ∉ front ++ [d] := last ▸ block.quote_notMem_text
    have unstructured : isUnstructured (front ++ [d]) = true := last ▸ block.unstructured
    rw [last]
    refine .append (Text.misses_of_ends fun x y same ne => ?_) ⟨ifPart_of_head ?_ noWord, trivial⟩
    · obtain ⟨c, y, rfl⟩ := List.exists_cons_of_ne_nil ne
      have plain : c ≠ '\'' := by
        rintro rfl
        exact quote (by simp [same])
      have alone := ifPart_unstructured (x := x) (y := y ++ [d]) unstructured plain (by simp [same])
      have short : ifPart (x.reverse ++ []) (c :: y ++ [d]) = _ :=
        ifPart_append plain stops_nil (stops_cons.mpr noWord)
      rw [List.append_nil, List.cons_append, alone] at short
      rw [List.singleton_append, ifPart_append plain before (stops_cons.mpr noWord),
        Option.map_eq_none_iff.mp short.symm]
      rfl
    · rintro rfl
      exact quote (by simp)

theorem isSection_head (b : Branch) : IsSection b.head where
  ne_nil := by simp [Branch.head, b.lead.ne_nil]
  start := b.lead.stops _
  finish := by
    rw [Branch.head, List.reverse_append, List.reverse_append, List.append_assoc]
    exact b.tail.stops_reverse _
  misses _ rest := by
    have valid := b.condition.valid
    simp only [isCondition, Bool.and_eq_true] at valid
    have quote : .char '\'' ∉ b.condition.text := fun mem => by
      simpa using List.all_eq_true.mp valid.1.2 _ mem
    refine (misses_gap b.lead.toGap _ _).append (.append ?_ (misses_gap b.tail.toGap _ _))
    exact misses_unstructured valid.2 quote (b.lead.stops_reverse _) (b.tail.stops _)

theorem isSection_inside (inner : Space) (body : Block) : IsSection (inner.text ++ body.text) where
  ne_nil := by simp [inner.ne_nil]
  start := inner.stops _
  finish := by
    rw [List.reverse_append]
    refine body.stops_reverse_text ?_
    have := inner.stops_reverse []
    rwa [List.append_nil] at this
  misses _ rest := (misses_gap inner.toGap _ _).append (body.misses rest (inner.stops_reverse _))

/-! ## The skeleton -/

/-- The skeleton of a text behind another one, which is given backwards. -/
def skeletonFrom (back t : Text) : Skeleton := Skeleton.ofPieces (cutFrom ifPart 0 back t)

theorem ofPieces_plain (a : Text) (pieces : List (Piece (Option IfWord))) :
    Skeleton.ofPieces (a.map .plain ++ pieces) =
      ⟨a ++ (Skeleton.ofPieces pieces).before, (Skeleton.ofPieces pieces).tokens⟩ := by
  induction a with
  | nil => rfl
  | cons c a ih => simp [Skeleton.ofPieces, Piece.text, ih]

theorem skeletonFrom_misses {back a b : Text} (h : Misses ifPart back a b) :
    skeletonFrom back (a ++ b) = ⟨a ++ (skeletonFrom (a.reverse ++ back) b).before,
      (skeletonFrom (a.reverse ++ back) b).tokens⟩ := by
  rw [skeletonFrom, Text.cutFrom_misses h, ofPieces_plain]
  rfl

def writtenWords : List (IfWord × Text) :=
  [(.if, "IF".toText), (.then, "THEN".toText), (.elsif, "ELSIF".toText), (.else, "ELSE".toText),
    (.endIf, "END_IF".toText)]

theorem skeletonFrom_word {word : IfWord} {spelling back b : Text}
    (written : (word, spelling) ∈ writtenWords) (before : Stops isWord back) (stop : Stops isWord b) :
    skeletonFrom back (spelling ++ b) =
      ⟨[], ⟨word, spelling, (skeletonFrom (spelling.reverse ++ back) b).before⟩ ::
        (skeletonFrom (spelling.reverse ++ back) b).tokens⟩ := by
  have alone : ∀ w ∈ writtenWords, ifPart [] w.2 = some (some w.1, []) := by decide
  have plain : ∀ w ∈ writtenWords, w.2 ≠ [] ∧ .char '\'' ∉ w.2 := by decide
  obtain ⟨ne, quote⟩ := plain _ written
  obtain ⟨c, rest, rfl⟩ := List.exists_cons_of_ne_nil ne
  have here := ifPart_append (x := []) (y := rest) (fun same => quote (same ▸ List.mem_cons_self))
    before stop
  rw [alone _ written, List.nil_append] at here
  rw [skeletonFrom, Text.cutFrom_found ne here]
  rfl

/-- Whether a text starts with a word of a structure and has some tokens, behind any text that does not
end inside of a word. -/
def Reads (t : Text) (tokens : List IfToken) : Prop :=
  ∀ back, Stops isWord back → skeletonFrom back t = ⟨[], tokens⟩

theorem Reads.section {word : IfWord} {spelling a t : Text} {tokens : List IfToken}
    (written : (word, spelling) ∈ writtenWords) (isSection : IsSection a) (h : Reads t tokens) :
    Reads (spelling ++ (a ++ t)) (⟨word, spelling, a⟩ :: tokens) := by
  intro back before
  have rest := h (a.reverse ++ (spelling.reverse ++ back))
    (isSection.finish.append (by simp [isSection.ne_nil]))
  rw [skeletonFrom_word written before (isSection.start.append isSection.ne_nil),
    skeletonFrom_misses (isSection.misses _ t), rest, List.append_nil]

def Branch.tokens (word : IfWord) (spelling : Text) (b : Branch) : List IfToken :=
  [⟨word, spelling, b.head⟩, ⟨.then, "THEN".toText, b.inside⟩]

theorem Reads.branch {word : IfWord} {spelling t : Text} {tokens : List IfToken}
    (written : (word, spelling) ∈ writtenWords) (b : Branch) (h : Reads t tokens) :
    Reads (b.text spelling ++ t) (b.tokens word spelling ++ tokens) := by
  have := Reads.section written (isSection_head b)
    (Reads.section (by decide : (IfWord.then, "THEN".toText) ∈ writtenWords)
      (isSection_inside b.inner b.body) h)
  simpa [Branch.text, Branch.tokens, Branch.inside] using this

theorem Reads.branches (bs : List Branch) {t : Text} {tokens : List IfToken} (h : Reads t tokens) :
    Reads (bs.flatMap (Branch.text "ELSIF".toText) ++ t)
      (bs.flatMap (Branch.tokens .elsif "ELSIF".toText) ++ tokens) := by
  induction bs with
  | nil => exact h
  | cons b bs ih =>
    rw [List.flatMap_cons, List.flatMap_cons, List.append_assoc, List.append_assoc]
    exact .branch (by decide) b ih

def otherwiseTokens : Option (Space × Block) → List IfToken
  | none => []
  | some (inner, body) => [⟨.else, "ELSE".toText, inner.text ++ body.text⟩]

theorem Reads.otherwise (o : Option (Space × Block)) {t : Text} {tokens : List IfToken}
    (h : Reads t tokens) : Reads (otherwiseText o ++ t) (otherwiseTokens o ++ tokens) := by
  cases o with
  | none => exact h
  | some body =>
    have := Reads.section (by decide : (IfWord.else, "ELSE".toText) ∈ writtenWords)
      (isSection_inside body.1 body.2) h
    simpa [otherwiseText, otherwiseTokens] using this

theorem reads_end (gap : Gap) (after : Block) :
    Reads ("END_IF".toText ++ (gap.text ++ .char ';' :: after.text))
      [⟨.endIf, "END_IF".toText, gap.text ++ .char ';' :: after.text⟩] := by
  intro back before
  have start : Stops isWord (gap.text ++ .char ';' :: after.text) :=
    gap.stops (fun _ => isWord_of_isBlank) (stops_cons.mpr (by decide))
  have misses : ∀ back, Misses ifPart back (gap.text ++ .char ';' :: after.text) [] := fun back =>
    (misses_gap gap _ _).append ⟨ifPart_of_head (by decide) (by decide),
      after.misses [] (stops_cons.mpr (by decide))⟩
  have rest := skeletonFrom_misses (misses ("END_IF".toText.reverse ++ back))
  rw [List.append_nil] at rest
  rw [skeletonFrom_word (by decide : (IfWord.endIf, "END_IF".toText) ∈ writtenWords) before start, rest]
  simp [skeletonFrom, cutFrom, Skeleton.ofPieces]

/-- The tokens of a program around an `IF` structure. -/
def Conditional.tokens (p : Conditional) : List IfToken :=
  p.first.tokens .if "IF".toText ++ (p.more.flatMap (Branch.tokens .elsif "ELSIF".toText) ++
    (otherwiseTokens p.otherwise ++
      [⟨.endIf, "END_IF".toText, p.gap.text ++ .char ';' :: p.after.text⟩]))

theorem reads_fromIf (p : Conditional) : Reads p.fromIf p.tokens :=
  .branch (by decide) p.first (.branches p.more (.otherwise p.otherwise (reads_end p.gap p.after)))

theorem ofText_conditional (p : Conditional) : Skeleton.ofText p.text = ⟨p.before.text, p.tokens⟩ := by
  have start : skeletonFrom (p.before.text.reverse ++ []) p.fromIf = ⟨[], p.tokens⟩ :=
    reads_fromIf p _ (p.before.stops_reverse_text stops_nil)
  have whole := skeletonFrom_misses (p.before.misses p.fromIf stops_nil)
  rw [start, List.append_nil] at whole
  exact whole

/-! ## The parts -/

theorem trim_between (lead tail : Gap) {t : Text} (ne : t ≠ []) (h : t.trim = t) :
    Text.trim (lead.text ++ (t ++ tail.text)) = t := by
  have ends := Text.stops_trim t
  rw [h] at ends
  obtain ⟨start, finish⟩ := ends
  have left : Text.trimLeft (lead.text ++ (t ++ tail.text)) = t ++ tail.text :=
    dropWhile_append_of_stops (fun _ => lead.isBlank) (start.append ne)
  have right : Text.trimLeft (tail.text.reverse ++ t.reverse) = t.reverse :=
    dropWhile_append_of_stops (fun _ mem => tail.isBlank (List.mem_reverse.mp mem)) finish
  rw [Text.trim, left, Text.trimRight, List.reverse_append, right, List.reverse_reverse]

theorem Condition.ne_nil (c : Condition) : c.text ≠ [] := by
  intro empty
  have valid := c.valid
  simp [isCondition, empty] at valid

theorem trim_head (b : Branch) : b.head.trim = b.condition.text := by
  have valid := b.condition.valid
  simp only [isCondition, Bool.and_eq_true, beq_iff_eq] at valid
  exact trim_between b.lead.toGap b.tail.toGap b.condition.ne_nil valid.1.1.2

/-- The branches of a structure as they are read: the conditions, and the texts of the bodies. -/
def Branch.parts (b : Branch) : Text × Text := (b.condition.text, b.inside)

theorem close?_branch (before : Text) (b : Branch) (done : List (Text × Text)) (rest : List IfToken) :
    Source.IfBlock.close? before .condition 0 b.head done (⟨.then, "THEN".toText, b.inside⟩ :: rest) =
      Source.IfBlock.close? before (.body b.condition.text) 0 b.inside done rest := by
  simp [Source.IfBlock.close?, trim_head, b.condition.ne_nil]

theorem dropSemicolon_gap (gap : Gap) (rest : Text) :
    Source.IfBlock.dropSemicolon (gap.text ++ .char ';' :: rest) = rest := by
  unfold Source.IfBlock.dropSemicolon
  rw [dropWhile_append_of_stops (fun _ => gap.isBlank) (stops_cons.mpr (by decide))]
  rfl

theorem close?_branches (before : Text) (c inside : Text) (done : List (Text × Text)) (bs : List Branch)
    (o : Option (Space × Block)) (gap : Gap) (after : Block) :
    Source.IfBlock.close? before (.body c) 0 inside done
        (bs.flatMap (Branch.tokens .elsif "ELSIF".toText) ++ (otherwiseTokens o ++
          [⟨.endIf, "END_IF".toText, gap.text ++ .char ';' :: after.text⟩])) =
      some ⟨before, done ++ (c, inside) :: bs.map Branch.parts,
        o.map fun (inner, body) => inner.text ++ body.text, after.text⟩ := by
  induction bs generalizing c inside done with
  | nil =>
    cases o with
    | none => simp [otherwiseTokens, Source.IfBlock.close?, dropSemicolon_gap]
    | some body => simp [otherwiseTokens, Source.IfBlock.close?, dropSemicolon_gap]
  | cons b bs ih =>
    have next := ih b.condition.text b.inside (done ++ [(c, inside)])
    rw [← close?_branch] at next
    simpa [Branch.tokens, Source.IfBlock.close?, Branch.parts] using next

/-- Splitting the text of a program around an `IF` structure gives its parts back. -/
theorem split?_text (p : Conditional) : Source.IfBlock.split? p.text =
    some ⟨p.before.text, (p.first :: p.more).map Branch.parts,
      p.otherwise.map fun (inner, body) => inner.text ++ body.text, p.after.text⟩ := by
  simp only [Source.IfBlock.split?, ofText_conditional]
  have inner := close?_branches p.before.text p.first.condition.text p.first.inside [] p.more
    p.otherwise p.gap p.after
  rw [← close?_branch] at inner
  exact inner

end SclNarrator.Program
