import SclNarrator.Proofs.Run.Alike
import SclNarrator.Proofs.Source.Labels
import SclNarrator.Proofs.Text.Words

/-!
What a `CASE` statement tells. The statement is given as it is written: a selector, branches with
labels and assignments, and what is done otherwise.

What is proved:
  1. no assignment has a colon but that of its `:=`, and no label reaches over a semicolon, so the
     labels that are found in the text are those of the branches, in order (`caseLabels_body`);
  2. `ELSE` is found just if there is such a part (`hasElse_body`);
  3. so the step behind the selector names the first branch whose label holds the value of the
     selector, or says that there is none; and whatever it names, all assignments are carried out
     (`execute_case`).

Correspondence (analyzer ↔ here):
  `_exec_case`, `_describe_case_branch`   ↔ `Run.caseOf`, `Run.branchOf`
  `_CASE_LABEL_RE`, `_case_label_matches` ↔ `Source.caseLabel`, `Source.labelHolds`
-/

namespace SclNarrator.Selection

open Program (Gap Space isDotted)
open Source (caseLabel caseLabels caseHeader hasElse label?)
open Text (Misses cutFrom)

/-- An assignment in a branch: what stands before its `:=` and what stands behind it. -/
structure Statement where
  target : Text
  expression : Text
  plainTarget : .char ':' ∉ target
  plainExpression : .char ':' ∉ expression
  start : target.head? ≠ some (.char '=')
  elseless : Construct.mentions "else".toText (target ++ .char ':' :: .char '=' :: expression) = false

structure Body where
  init : List Statement
  last : Statement

structure Branch where
  lead : Gap
  label : Label
  gap : Gap
  body : Body

namespace Statement

def bare (s : Statement) : Text := s.target ++ .char ':' :: .char '=' :: s.expression

def text (s : Statement) : Text := s.bare ++ [.char ';']

end Statement

namespace Body

/-- The text of the assignments up to the last semicolon. -/
def bare (b : Body) : Text := b.init.flatMap Statement.text ++ b.last.bare

def text (b : Body) : Text := b.bare ++ [.char ';']

end Body

/-- The text of a branch up to the colon behind its label. -/
def Branch.head (b : Branch) : Text := b.lead.text ++ (b.label.text ++ (b.gap.text ++ [.char ':']))

def Branch.text (b : Branch) : Text := b.head ++ b.body.text

structure Otherwise where
  lead : Gap
  body : Body
  apart : Stops isWord body.text

/-- The name of the value that selects a branch, as it is written. -/
structure Selector where
  isLocal : Bool
  isQuoted : Bool
  name : Text
  dotted : isDotted name = true

namespace Selector

/-- The mark of a local name. -/
def hash (s : Selector) : Text := if s.isLocal then [.char '#'] else []

/-- The double quote on each side of a name in quotes. -/
def quote (s : Selector) : Text := if s.isQuoted then [.char '"'] else []

def text (s : Selector) : Text := s.hash ++ (s.quote ++ (s.name ++ s.quote))

end Selector

/-- A `CASE` statement. -/
structure Case where
  space : Space
  selector : Selector
  space' : Space
  first : Branch
  more : List Branch
  apart : Stops isWord (first.lead.text ++ first.label.text)
  otherwise : Option Otherwise
  ending : Gap
  tail : Gap

namespace Case

def branches (c : Case) : List Branch := c.first :: c.more

def otherwiseText : Option Otherwise → Text
  | none => []
  | some o => o.lead.text ++ ("ELSE".toText ++ o.body.text)

def closing (c : Case) : Text :=
  otherwiseText c.otherwise ++ (c.ending.text ++ ("END_CASE".toText ++ (c.tail.text ++ [.char ';'])))

/-- The text behind `OF`. -/
def body (c : Case) : Text := c.branches.flatMap Branch.text ++ c.closing

def text (c : Case) : Text :=
  "CASE".toText ++ (c.space.text ++ (c.selector.text ++ (c.space'.text ++ ("OF".toText ++ c.body))))

/-- The step that names the branch for a value of the selector. -/
def branchStep (c : Case) (k : Int) : Text :=
  match c.branches.find? fun b => b.label.holds k with
  | some b => "→ Ramo correspondente: ".toText ++ b.label.text.collapse
  | none =>
    if c.otherwise.isSome then "→ Nenhum ramo corresponde (ELSE)".toText
      else "→ Nenhum ramo corresponde".toText

def selectorStep (c : Case) (k : Int) : Text :=
  "Seletor: ".toText ++ c.selector.name ++ " (valor atual: ".toText ++ Numeral.text k ++ ")".toText

end Case

/-! ## Where labels stand -/

/-- Whether every colon of a text belongs to a `:=`. -/
def Arrowed (t : Text) : Prop := ∀ x y, t = x ++ .char ':' :: y → y.head? = some (.char '=')

section

variable {a b t back rest v : Text}

theorem arrowed_of_not_mem (h : .char ':' ∉ t) : Arrowed t := by
  rintro x y rfl
  exact absurd (List.mem_append_right x List.mem_cons_self) h

theorem Arrowed.append (ha : Arrowed a) (hb : Arrowed b) : Arrowed (a ++ b) := by
  intro x y same
  rcases List.append_eq_append_iff.mp same with ⟨x', rfl, behind⟩ | ⟨y', rfl, before⟩
  · exact hb x' y behind
  · cases y' with
    | nil =>
      rw [List.nil_append] at before
      exact hb [] y before.symm
    | cons c y' =>
      obtain ⟨rfl, rfl⟩ := List.cons.inj before
      have equals := ha x y' rfl
      cases y' with
      | nil => cases equals
      | cons d y' => exact equals

theorem Arrowed.of_append (h : Arrowed (a ++ b)) : Arrowed b := by
  rintro x y rfl
  exact h (a ++ x) y (by rw [List.append_assoc])

theorem Statement.arrowed_bare (s : Statement) : Arrowed s.bare := by
  have sign : Arrowed (.char ':' :: .char '=' :: s.expression) := by
    intro x y same
    cases x with
    | nil =>
      obtain ⟨-, rfl⟩ := List.cons.inj same
      rfl
    | cons c x =>
      obtain ⟨-, inner⟩ := List.cons.inj same
      have among : .char ':' ∈ .char '=' :: s.expression := by
        rw [inner]
        simp
      rcases List.mem_cons.mp among with sign | inside
      · cases sign
      · exact absurd inside s.plainExpression
  exact (arrowed_of_not_mem s.plainTarget).append sign

theorem Statement.arrowed_text (s : Statement) : Arrowed s.text :=
  s.arrowed_bare.append (arrowed_of_not_mem (by decide))

theorem Body.arrowed_bare (b : Body) : Arrowed b.bare := by
  have init : Arrowed (b.init.flatMap Statement.text) := by
    induction b.init with
    | nil => exact arrowed_of_not_mem (by simp)
    | cons s more ih => exact s.arrowed_text.append ih
  exact init.append b.last.arrowed_bare

theorem Body.arrowed_text (b : Body) : Arrowed b.text :=
  b.arrowed_bare.append (arrowed_of_not_mem (by decide))

/-- A label that is found ends at a colon that is not that of a `:=`, and no semicolon is inside of it. -/
theorem exists_of_caseLabel (h : caseLabel back t = some (v, rest)) :
    ∃ m, t = m ++ .char ':' :: rest ∧ .char ';' ∉ m.tail ∧ rest.head? ≠ some (.char '=') := by
  have apart {m : Text} (fine : ∀ d ∈ m, isLabelChar d = true) : .char ';' ∉ m :=
    fun mem => absurd (fine _ mem) (by decide)
  have behind {keyword after : Text} (letters : ∀ k ∈ keyword, isWord k = true)
      (word : dropKeyword? keyword back t = some after) (read : label? after = some (v, rest)) :
      ∃ m, t = m ++ .char ':' :: rest ∧ .char ';' ∉ m.tail ∧ rest.head? ≠ some (.char '=') := by
    obtain ⟨w, rfl, -, words, -⟩ := word_of_dropKeyword? letters word
    obtain ⟨m, rfl, fine, other⟩ := exists_of_label? read
    refine ⟨w ++ m, by rw [List.append_assoc], fun mem => ?_, other⟩
    rcases List.mem_append.mp (List.mem_of_mem_tail mem) with inside | inside
    · exact absurd (words _ inside) (by decide)
    · exact apart fine inside
  simp only [caseLabel, Option.orElse_eq_orElse, Option.orElse_eq_or, Option.or_eq_some_iff] at h
  rcases h with line | ⟨-, statement | ⟨-, opening | ⟨-, closing⟩⟩⟩
  · split at line
    · obtain ⟨m, same, fine, other⟩ := exists_of_label? line
      exact ⟨m, same, fun mem => apart fine (List.mem_of_mem_tail mem), other⟩
    · cases line
  · split at statement
    · obtain ⟨m, rfl, fine, other⟩ := exists_of_label? statement
      exact ⟨.char ';' :: m, rfl, apart fine, other⟩
    · cases statement
  · obtain ⟨after, word, read⟩ := Option.bind_eq_some_iff.mp opening
    exact behind (by decide) word read
  · obtain ⟨after, word, read⟩ := Option.bind_eq_some_iff.mp closing
    exact behind (by decide) word read

/-- No label starts before a semicolon if every colon up to there belongs to a `:=`. -/
theorem misses_arrowed (arrowed : Arrowed a) : Misses caseLabel back a (.char ';' :: rest) := by
  refine Text.misses_of_ends fun x y same ne => ?_
  rw [Option.eq_none_iff_forall_ne_some]
  rintro ⟨v, after⟩ found
  obtain ⟨m, whole, inside, other⟩ := exists_of_caseLabel found
  rcases List.append_eq_append_iff.mp whole with ⟨m', rfl, behind⟩ | ⟨y', rfl, before⟩
  · -- the semicolon would be inside of the label
    obtain ⟨c, y, rfl⟩ := List.exists_cons_of_ne_nil ne
    cases m' with
    | nil => cases (List.cons.inj behind).1
    | cons d m' =>
      obtain ⟨rfl, -⟩ := List.cons.inj behind
      exact inside (List.mem_append_right y List.mem_cons_self)
  · cases y' with
    | nil => cases (List.cons.inj before).1
    | cons d y' =>
      obtain ⟨rfl, rfl⟩ := List.cons.inj before
      rw [same] at arrowed
      have equals := arrowed.of_append m y' rfl
      cases y' with
      | nil => cases equals
      | cons e y' => exact other equals

/-- No label stands in a text in which every colon belongs to a `:=`. -/
theorem misses_of_arrowed (arrowed : Arrowed a) : Misses caseLabel back a [] := by
  refine Text.misses_of_ends fun x y same _ => ?_
  rw [Option.eq_none_iff_forall_ne_some]
  rintro ⟨v, after⟩ found
  obtain ⟨m, whole, -, other⟩ := exists_of_caseLabel found
  rw [List.append_nil] at whole
  subst same
  exact other (arrowed.of_append m after whole)

theorem Statement.head?_text (s : Statement) : s.text.head? ≠ some (.char '=') := by
  have start := s.start
  rw [Statement.text, Statement.bare]
  cases target : s.target with
  | nil => simp
  | cons c t =>
    rw [target] at start
    exact start

theorem Body.head?_text (b : Body) (rest : Text) : (b.text ++ rest).head? ≠ some (.char '=') := by
  have first (s : Statement) (t : Text) : (s.text ++ t).head? ≠ some (.char '=') := by
    have start := s.head?_text
    cases same : s.text with
    | nil => simp [Statement.text] at same
    | cons c u =>
      rw [same] at start
      exact start
  rw [Body.text, Body.bare]
  cases b.init with
  | nil => exact first b.last rest
  | cons s more =>
    simp only [List.flatMap_cons, List.append_assoc]
    exact first s _

theorem label?_branch (b : Branch) (rest : Text) :
    label? (b.head ++ (b.body.text ++ rest)) = some (b.label.text, b.body.text ++ rest) := by
  simp only [Branch.head, List.append_assoc, List.singleton_append]
  exact label?_text b.label b.lead b.gap (b.body.head?_text rest)

theorem caseLabel_start (b : Branch) (rest : Text) :
    caseLabel [] (b.head ++ (b.body.text ++ rest)) = some (b.label.text, b.body.text ++ rest) := by
  simp only [caseLabel, label?_branch b rest]
  rfl

theorem caseLabel_semicolon (b : Branch) (back rest : Text) :
    caseLabel back (.char ';' :: b.head ++ (b.body.text ++ rest)) =
      some (b.label.text, b.body.text ++ rest) := by
  have line : label? (.char ';' :: (b.head ++ (b.body.text ++ rest))) = none := by
    rw [Option.eq_none_iff_forall_ne_some]
    rintro ⟨v, after⟩ read
    obtain ⟨m, same, fine, -⟩ := exists_of_label? read
    cases m with
    | nil => cases (List.cons.inj same).1
    | cons c m =>
      obtain ⟨rfl, -⟩ := List.cons.inj same
      exact absurd (fine _ List.mem_cons_self) (by decide)
  rw [List.cons_append]
  simp only [caseLabel, line, label?_branch b rest, ite_self]
  rfl

def foundFrom (back t : Text) : List Text := (cutFrom caseLabel 0 back t).filterMap Piece.value?

theorem foundFrom_misses (h : Misses caseLabel back a b) :
    foundFrom back (a ++ b) = foundFrom (a.reverse ++ back) b := by
  have plain (u : Text) : (u.map Piece.plain).filterMap Piece.value? = ([] : List Text) := by
    induction u with
    | nil => rfl
    | cons c u ih => exact ih
  rw [foundFrom, Text.cutFrom_misses h, List.filterMap_append, plain]
  rfl

theorem foundFrom_found (ne : a ≠ []) (h : caseLabel back (a ++ b) = some (v, b)) :
    foundFrom back (a ++ b) = v :: foundFrom (a.reverse ++ back) b := by
  rw [foundFrom, Text.cutFrom_found ne h]
  rfl

/-- Behind assignments the labels of the branches are found, in order: one at each semicolon that a
branch follows, and none behind the last branch. -/
theorem foundFrom_branches (branches : List Branch) {closing : Text} (closed : Arrowed closing)
    (arrowed : Arrowed a)
    (back : Text) :
    foundFrom back (a ++ .char ';' :: (branches.flatMap Branch.text ++ closing))
      = branches.map fun b => b.label.text := by
  induction branches generalizing a back with
  | nil =>
    have semicolon : Arrowed [.char ';'] := arrowed_of_not_mem (by decide)
    have missed : foundFrom back (a ++ (.char ';' :: closing) ++ []) = _ :=
      foundFrom_misses (misses_of_arrowed (arrowed.append (semicolon.append closed)))
    rw [List.append_nil] at missed
    exact missed.trans rfl
  | cons b branches ih =>
    have split : .char ';' :: ((b :: branches).flatMap Branch.text ++ closing)
        = .char ';' :: b.head ++ (b.body.text ++ (branches.flatMap Branch.text ++ closing)) := by
      simp only [List.flatMap_cons, Branch.text, List.append_assoc, List.cons_append]
    have later : b.body.text ++ (branches.flatMap Branch.text ++ closing)
        = b.body.bare ++ .char ';' :: (branches.flatMap Branch.text ++ closing) := by
      rw [Body.text, List.append_assoc, List.singleton_append]
    rw [foundFrom_misses (misses_arrowed arrowed), split,
      foundFrom_found (List.cons_ne_nil _ _) (caseLabel_semicolon b _ _), later, ih b.body.arrowed_bare]
    rfl

end

namespace Case

variable (c : Case)

theorem arrowed_closing : Arrowed c.closing := by
  have blank (gap : Gap) : Arrowed gap.text :=
    arrowed_of_not_mem fun mem => absurd (gap.isBlank mem) (by decide)
  have word (w : Text) (colonless : .char ':' ∉ w) : Arrowed w := arrowed_of_not_mem colonless
  have tail : Arrowed (c.tail.text ++ [.char ';']) := (blank c.tail).append (word _ (by decide))
  refine Arrowed.append ?_ ((blank c.ending).append ((word _ (by decide)).append tail))
  cases c.otherwise with
  | none => exact word [] (by decide)
  | some o => exact (blank o.lead).append ((word _ (by decide)).append o.body.arrowed_text)

/-- The labels that are found are those of the branches. -/
theorem caseLabels_body : caseLabels c.body = c.branches.map fun b => b.label.text := by
  have split : c.body
      = c.first.head ++ (c.first.body.text ++ (c.more.flatMap Branch.text ++ c.closing)) := by
    simp only [Case.body, Case.branches, List.flatMap_cons, Branch.text, List.append_assoc]
  have later : c.first.body.text ++ (c.more.flatMap Branch.text ++ c.closing)
      = c.first.body.bare ++ .char ';' :: (c.more.flatMap Branch.text ++ c.closing) := by
    rw [Body.text, List.append_assoc, List.singleton_append]
  have ne : c.first.head ≠ [] := by simp [Branch.head]
  show foundFrom [] c.body = _
  rw [split, foundFrom_found ne (caseLabel_start c.first _), later,
    foundFrom_branches c.more c.arrowed_closing c.first.body.arrowed_bare]
  rfl

end Case

/-! ## Whether there is an `ELSE` -/

/-- A text without an `l` does not mention `ELSE`. -/
theorem mentions_of_l {t : Text} (missing : ∀ c ∈ t, looseLetter c ≠ .char 'l') :
    Construct.mentions "else".toText t = false :=
  mentions_of_letter (by decide) missing

/-- `ELSE` is not mentioned in a text if it is not before and not behind a mark. -/
theorem mentions_mark {a b : Text} {h : CodePoint} (mark : isWord h = false)
    (left : Construct.mentions "else".toText a = false) (right : Construct.mentions "else".toText b = false) :
    Construct.mentions "else".toText (a ++ h :: b) = false :=
  mentions_append_cons (by decide) (by decide) mark left right

theorem looseLetter_of_isLabelChar {c : CodePoint} (h : isLabelChar c = true) :
    looseLetter c ≠ .char 'l' := by
  rw [isLabelChar, Bool.or_eq_true, Bool.or_eq_true] at h
  rcases h with (blank | decimal) | mark
  · have := forall_blank (P := fun c => looseLetter c != .char 'l') (by decide) blank
    simpa using this
  · intro letter
    have small : ¬c.isUpper = true := fun upper => by
      have := forall_upper (P := fun c => !isDecimal c) (by decide) upper
      simp [decimal] at this
    rw [looseLetter, if_neg small] at letter
    split_ifs at letter
    · cases letter
    · cases letter
    · cases letter
    · rw [letter] at decimal
      exact absurd decimal (by decide)
  · rw [List.contains_iff_mem] at mark
    have signs : ∀ d ∈ "-.,".toText, looseLetter d ≠ .char 'l' := by decide
    exact signs c mark

theorem Branch.exists_head (b : Branch) : ∃ m, b.head = m ++ [.char ':'] ∧ ∀ c ∈ m, isLabelChar c = true := by
  obtain ⟨m, same, fine, -⟩ := exists_of_label? (label?_branch b [])
  refine ⟨m, ?_, fine⟩
  have whole : b.head ++ (b.body.text ++ []) = m ++ [.char ':'] ++ (b.body.text ++ []) := by
    rw [same, List.append_assoc, List.singleton_append]
  exact List.append_cancel_right whole

theorem Body.mentions_text (b : Body) {rest : Text} (later : Construct.mentions "else".toText rest = false) :
    Construct.mentions "else".toText (b.text ++ rest) = false := by
  have last : Construct.mentions "else".toText (b.last.bare ++ .char ';' :: rest) = false :=
    mentions_mark (by decide) b.last.elseless later
  simp only [Body.text, Body.bare, List.append_assoc, List.singleton_append]
  induction b.init with
  | nil => exact last
  | cons s more ih =>
    simp only [List.flatMap_cons, Statement.text, List.append_assoc, List.singleton_append]
    exact mentions_mark (by decide) s.elseless ih

theorem mentions_branches (branches : List Branch) {rest : Text}
    (later : Construct.mentions "else".toText rest = false) :
    Construct.mentions "else".toText (branches.flatMap Branch.text ++ rest) = false := by
  induction branches with
  | nil => exact later
  | cons b branches ih =>
    obtain ⟨m, head, fine⟩ := b.exists_head
    simp only [List.flatMap_cons, Branch.text, head, List.append_assoc, List.singleton_append]
    have label := mentions_of_l fun c mem => looseLetter_of_isLabelChar (fine c mem)
    exact mentions_mark (by decide) label (b.body.mentions_text ih)

theorem stops_reverse_branches (b : Branch) (branches : List Branch) :
    Stops isWord ((b :: branches).flatMap Branch.text).reverse := by
  obtain ⟨front, last, same⟩ := (b :: branches).eq_nil_or_concat.resolve_left (List.cons_ne_nil _ _)
  rw [same, List.concat_eq_append, List.flatMap_append, List.flatMap_singleton, Branch.text, Body.text]
  simp only [List.reverse_append, List.reverse_singleton, List.append_assoc, List.singleton_append]
  exact stops_cons.mpr (by decide)

namespace Case

variable (c : Case)

/-- `ELSE` is mentioned just if something is done otherwise. -/
theorem hasElse_body : hasElse c.body = c.otherwise.isSome := by
  rw [hasElse, Case.body, Case.closing]
  cases c.otherwise with
  | none =>
    refine mentions_branches c.branches (mentions_of_l fun d mem => ?_)
    have blank (gap : Gap) {d : CodePoint} (mem : d ∈ gap.text) : looseLetter d ≠ .char 'l' :=
      looseLetter_of_isLabelChar (by rw [isLabelChar, gap.isBlank mem, Bool.true_or, Bool.true_or])
    have letters : ∀ d ∈ "END_CASE".toText, looseLetter d ≠ .char 'l' := by decide
    have mark : ∀ d ∈ [CodePoint.char ';'], looseLetter d ≠ .char 'l' := by decide
    simp only [otherwiseText, List.nil_append, List.mem_append] at mem
    rcases mem with mem | mem | mem | mem
    · exact blank c.ending mem
    · exact letters d mem
    · exact blank c.tail mem
    · exact mark d mem
  | some o =>
    have before : Stops isWord (c.branches.flatMap Branch.text ++ o.lead.text).reverse := by
      rw [List.reverse_append]
      exact o.lead.stops_reverse (stops_reverse_branches c.first c.more)
    have ne : o.body.text ≠ [] := by simp [Body.text]
    have found : Construct.mentions "else".toText (c.branches.flatMap Branch.text ++ o.lead.text ++
        ("ELSE".toText ++ (o.body.text ++
          (c.ending.text ++ ("END_CASE".toText ++ (c.tail.text ++ [.char ';'])))))) = true :=
      mentions_spelled (by decide) before (o.apart.append ne)
    simp only [otherwiseText, List.append_assoc] at found ⊢
    exact found

end Case

/-! ## The selector -/

namespace Selector

variable (s : Selector)

theorem isDotted_of_mem {d : CodePoint} (mem : d ∈ s.name) : (isWord d || d == .char '.') = true :=
  List.all_eq_true.mp (Bool.and_eq_true_iff.mp s.dotted).2 d mem

theorem exists_cons : ∃ d more, s.name = d :: more ∧ (isWord d || d == .char '.') = true := by
  have dotted := s.dotted
  cases same : s.name with
  | nil => rw [same] at dotted; cases dotted
  | cons d more => exact ⟨d, more, rfl, s.isDotted_of_mem (by rw [same]; exact List.mem_cons_self)⟩

theorem ne_of_dotted {d e : CodePoint} (h : (isWord d || d == .char '.') = true)
    (other : (isWord e || e == .char '.') = false) : d ≠ e := by
  rintro rfl
  rw [h] at other
  cases other

theorem isBlank_of_dotted {d : CodePoint} (h : (isWord d || d == .char '.') = true) : isBlank d = false := by
  rcases Bool.or_eq_true_iff.mp h with word | point
  · exact isBlank_of_isWord word
  · rw [beq_iff_eq.mp point]
    decide

theorem dropOne_optional {mark : CodePoint} {t : Text} (present : Bool) (other : t.head? ≠ some mark) :
    Source.dropOne mark ((if present then [mark] else []) ++ t) = t := by
  cases present with
  | true => rw [if_pos rfl, List.singleton_append, Source.dropOne, if_pos rfl]
  | false => rw [if_neg (by decide), List.nil_append, Program.dropOne_of_head other]

theorem head?_name (t : Text) {mark : CodePoint} (other : (isWord mark || mark == .char '.') = false) :
    (s.name ++ t).head? ≠ some mark := by
  obtain ⟨d, more, same, dotted⟩ := s.exists_cons
  rw [same]
  intro head
  exact ne_of_dotted dotted other (Option.some.inj head)

/-- The name is left when the marks before it are taken off. -/
theorem dropOne_text (t : Text) :
    Source.dropOne '"' (Source.dropOne '#' (s.text ++ t)) = s.name ++ (s.quote ++ t) := by
  have unquoted : Source.dropOne '"' (s.quote ++ (s.name ++ (s.quote ++ t))) = s.name ++ (s.quote ++ t) :=
    dropOne_optional s.isQuoted (s.head?_name _ (by decide))
  have bare : Source.dropOne '#' (s.hash ++ (s.quote ++ (s.name ++ (s.quote ++ t))))
      = s.quote ++ (s.name ++ (s.quote ++ t)) := by
    refine dropOne_optional s.isLocal ?_
    rw [quote]
    cases s.isQuoted with
    | true => simp
    | false => exact s.head?_name _ (by decide)
  simp only [text, List.append_assoc]
  rw [bare, unquoted]

theorem dropOne_dropWhile {t : Text} (blank : t.head?.any isBlank = true) :
    Source.dropOne '"' ((s.name ++ (s.quote ++ t)).dropWhile fun d => isWord d || d == .char '.') = t := by
  obtain ⟨d, more, rfl⟩ : ∃ d more, t = d :: more := by
    cases t with
    | nil => cases blank
    | cons d more => exact ⟨d, more, rfl⟩
  have blank : isBlank d = true := blank
  have stop : Stops (fun d => isWord d || d == .char '.') (s.quote ++ d :: more) := by
    rw [quote]
    cases s.isQuoted with
    | true => exact stops_cons.mpr (by decide)
    | false =>
      refine stops_cons.mpr (Bool.eq_false_iff.mpr fun dotted => ?_)
      rw [isBlank_of_dotted dotted] at blank
      cases blank
  rw [dropWhile_append_of_stops (fun d => s.isDotted_of_mem) stop]
  refine dropOne_optional s.isQuoted fun head => ?_
  cases head
  exact absurd blank (by decide)

theorem any_head?_name (t : Text) : (s.name ++ t).head?.any (fun d => isWord d || d == .char '.') = true := by
  obtain ⟨d, more, same, dotted⟩ := s.exists_cons
  rw [same]
  exact dotted

theorem stops_isBlank (t : Text) : Stops isBlank (s.text ++ t) := by
  rw [text, hash, quote]
  cases s.isLocal with
  | true => exact stops_cons.mpr (by decide)
  | false =>
    cases s.isQuoted with
    | true => exact stops_cons.mpr (by decide)
    | false =>
      obtain ⟨d, more, same, dotted⟩ := s.exists_cons
      rw [same]
      exact stops_cons.mpr (isBlank_of_dotted dotted)

theorem quote_not_mem_hash : .char '"' ∉ s.hash := by
  rw [hash]
  cases s.isLocal <;> decide

theorem quote_not_mem_name : .char '"' ∉ s.name :=
  fun mem => ne_of_dotted (s.isDotted_of_mem mem) (by decide : (isWord (.char '"') || _) = false) rfl

theorem replaceAll_text : Text.replaceAll quotedName s.text = s.hash ++ s.name := by
  have plain {t x y : Text} (unquoted : .char '"' ∉ t) (same : t = x ++ y) : .char '"' ∉ y :=
    fun mem => unquoted (by rw [same]; exact List.mem_append_right x mem)
  rw [text, quote]
  cases s.isQuoted with
  | false =>
    rw [if_neg (by decide), List.append_nil, List.nil_append]
    have unquoted : .char '"' ∉ s.hash ++ s.name :=
      fun mem => (List.mem_append.mp mem).elim s.quote_not_mem_hash s.quote_not_mem_name
    exact Text.replaceAll_of_none fun x y same _ => Substitution.quotedName_of_not_mem (plain unquoted same)
  | true =>
    obtain ⟨d, more, name, -⟩ := s.exists_cons
    have ne : s.name ≠ [] := by rw [name]; exact List.cons_ne_nil _ _
    have misses : Misses quotedName [] s.hash (.char '"' :: s.name ++ [.char '"']) := by
      refine Text.misses_of_ends fun x y same some => ?_
      obtain ⟨e, y, rfl⟩ := List.exists_cons_of_ne_nil some
      refine Substitution.quotedName_of_ne fun quote => plain s.quote_not_mem_hash same ?_
      rw [quote]
      exact List.mem_cons_self
    have pieces (back : Text) :=
      Text.cutFrom_whole (by simp) (quotedName_quoted ne s.quote_not_mem_name back [])
    rw [if_pos rfl, List.singleton_append, ← List.cons_append, Text.replaceAll, Text.cut,
      Text.cutFrom_misses misses, pieces, List.flatMap_append,
      Text.flatMap_text_plain _ _ fun c => rfl]
    simp [Piece.replaced]

theorem displayed_text : displayed s.text = s.hash ++ s.name := by
  have visible : ∀ d ∈ s.hash ++ s.name, isBlank d = false := by
    intro d mem
    rcases List.mem_append.mp mem with mark | inside
    · rw [hash] at mark
      split at mark
      · rw [List.mem_singleton.mp mark]
        decide
      · cases mark
    · exact isBlank_of_dotted (s.isDotted_of_mem inside)
  rw [displayed, s.replaceAll_text, Text.collapse_of_visible visible]

theorem dropLeading_displayed : Text.dropLeading '#' (displayed s.text) = s.name := by
  have stop : Stops (· == .char '#') s.name := by
    obtain ⟨d, more, same, dotted⟩ := s.exists_cons
    rw [same]
    exact stops_cons.mpr (beq_eq_false_iff_ne.mpr (ne_of_dotted dotted (by decide)))
  rw [displayed_text, Text.dropLeading]
  refine dropWhile_append_of_stops (fun d mem => ?_) stop
  rw [hash] at mem
  split at mem
  · rw [List.mem_singleton.mp mem]
    decide
  · cases mem

end Selector

namespace Case

variable (c : Case)

theorem any_isBlank_space (space : Space) (t : Text) : (space.text ++ t).head?.any isBlank = true := by
  obtain ⟨d, more, same⟩ := List.exists_cons_of_ne_nil space.ne_nil
  have blank : isBlank d = true := space.isBlank (by rw [same]; exact List.mem_cons_self)
  rw [same]
  exact blank

theorem length_ne_space (space : Space) (t : Text) : t.length ≠ (space.text ++ t).length := by
  have := List.length_pos_iff.mpr space.ne_nil
  rw [List.length_append]
  omega

theorem wordAhead_body : wordAhead c.body = false := by
  refine any_head_eq_false.mpr ?_
  have stops := c.apart.append (b := c.first.gap.text ++ [.char ':'] ++ c.first.body.text ++
    (c.more.flatMap Branch.text ++ c.closing)) (by simp [c.first.label.text_ne_nil])
  simpa only [body, branches, List.flatMap_cons, Branch.text, Branch.head, List.append_assoc] using stops

/-- The header of a statement gives the selector, and the rest of the statement is left. -/
theorem caseHeader_text : caseHeader [] c.text = some (c.selector.text, c.body) := by
  have word : dropLoose? "case".toText c.text = some (c.space.text ++ (c.selector.text ++ (c.space'.text ++
      ("OF".toText ++ c.body)))) := dropLoose?_spelled (by decide) _
  have of : dropLoose? "of".toText ("OF".toText ++ c.body) = some c.body := dropLoose?_spelled (by decide) _
  have stop : Stops isBlank ("OF".toText ++ c.body) := stops_cons.mpr (by decide)
  generalize "OF".toText ++ c.body = ending at word of stop
  have toSelector : (c.space.text ++ (c.selector.text ++ (c.space'.text ++ ending))).dropWhile isBlank
      = c.selector.text ++ (c.space'.text ++ ending) :=
    dropWhile_gap c.space.toGap (c.selector.stops_isBlank _)
  have behind := c.selector.dropOne_dropWhile (any_isBlank_space c.space' ending)
  have toOf : (c.space'.text ++ ending).dropWhile isBlank = ending := dropWhile_gap c.space'.toGap stop
  have regular : ¬((c.selector.text ++ (c.space'.text ++ ending)).length
        = (c.space.text ++ (c.selector.text ++ (c.space'.text ++ ending))).length ∨
      ending.length = (c.space'.text ++ ending).length ∨
      (!(c.selector.name ++ (c.selector.quote ++ (c.space'.text ++ ending))).head?.any
        fun d => isWord d || d == .char '.') = true) := by
    rintro (equal | equal | unnamed)
    · exact length_ne_space c.space _ equal
    · exact length_ne_space c.space' _ equal
    · rw [c.selector.any_head?_name] at unnamed
      cases unnamed
  simp only [caseHeader, word, toSelector, Selector.dropOne_text, behind, toOf, of, c.wordAhead_body,
    if_neg regular, Lexeme.taken_left]
  rfl

theorem search_caseHeader : Text.search caseHeader c.text = some ([], c.selector.text, c.body) := by
  have here := c.caseHeader_text
  obtain ⟨d, rest, same⟩ := List.exists_cons_of_ne_nil (show c.text ≠ [] from List.cons_ne_nil _ _)
  rw [same] at here ⊢
  rw [Text.search, Text.searchFrom, here]
  rfl

theorem branchStep_body (k : Int) : Run.branchStep k c.body = .ok (c.branchStep k) := by
  have labels : c.branches.map (fun b => b.label.text) = (c.branches.map Branch.label).map Label.text := by
    rw [List.map_map]
    rfl
  rw [Run.branchStep, c.caseLabels_body, labels, firstLabel?_text, List.find?_map, branchStep]
  have same : Label.holds k ∘ Branch.label = fun b : Branch => b.label.holds k := rfl
  rw [same]
  cases c.branches.find? fun b => b.label.holds k with
  | some b => rfl
  | none =>
    simp only [c.hasElse_body]
    cases c.otherwise.isSome <;> rfl

/-- **`CASE` statements.** If the selector is bound to a whole number, the statement tells of the
selector and its value, and then names the first branch whose label holds the value, or says that
there is none; after that the assignments are made. A value that is too long to be written stops the
run before anything is told. -/
theorem execute_case (run : Run) (instruction : Option Text) {k : Int}
    (bound : (run.env.lookup c.selector.name).map Binding.value = some (.int k)) :
    run.execute ⟨.case, instruction⟩ c.text
      = if Numeral.fits k then Run.assignmentsOf c.body ((run.step (c.selectorStep k)).step (c.branchStep k))
        else (run, some .longNumber) := by
  obtain ⟨binding, found, value⟩ := Option.map_eq_some_iff.mp bound
  show Run.caseOf c.text run = _
  rw [Run.caseOf, c.search_caseHeader]
  simp only [c.selector.dropLeading_displayed, List.nil_append]
  by_cases fits : Numeral.fits k = true
  · have shown : run.selectorStep c.selector.name = .ok (c.selectorStep k) := by
      simp only [Run.selectorStep, found, Run.shown, value, Value.shown, Value.intText, if_pos fits]
      rfl
    have told : (run.step (c.selectorStep k)).branchOf c.selector.name c.body
        = ((run.step (c.selectorStep k)).step (c.branchStep k), none) := by
      have kept : ((run.step (c.selectorStep k)).env.lookup c.selector.name).map Binding.value =
          some (.int k) := bound
      simp only [Run.branchOf, kept, c.branchStep_body]
      rfl
    rw [shown, if_pos fits, Run.narrate, Outcome.andThen, told]
    rfl
  · have stopped : run.selectorStep c.selector.name = .error .longNumber := by
      simp only [Run.selectorStep, found, Run.shown, value, Value.shown, Value.intText, if_neg fits]
      rfl
    rw [stopped, if_neg fits]
    rfl

/-- A statement with a list and a range, a label over two lines with a digit of another script, and
an `ELSE`. -/
def levels : Case where
  space := ⟨⟨"\t".toText, by decide⟩, by decide⟩
  selector := ⟨true, true, "DB1.Level".toText, by decide⟩
  space' := ⟨⟨"\t".toText, by decide⟩, by decide⟩
  first :=
    { lead := ⟨"\n ".toText, by decide⟩
      label :=
        ⟨.single ⟨false, "1".toText, by decide, by decide, by decide⟩,
          [(⟨" ".toText, by decide⟩, ⟨" ".toText, by decide⟩,
            .range ⟨false, "3".toText, by decide, by decide, by decide⟩ ⟨[], by decide⟩ ⟨[], by decide⟩
              ⟨false, "5".toText, by decide, by decide, by decide⟩)]⟩
      gap := ⟨[], by decide⟩
      body := ⟨[], ⟨" y ".toText, " 1".toText, by decide, by decide, by decide, by decide⟩⟩ }
  more :=
    [{ lead := ⟨"\n ".toText, by decide⟩
       label :=
        ⟨.range ⟨true, "٢".toText, by decide, by decide, by decide⟩ ⟨" ".toText, by decide⟩
          ⟨"\n".toText, by decide⟩
            ⟨false, "0".toText, by decide, by decide, by decide⟩, []⟩
       gap := ⟨"\t".toText, by decide⟩
       body :=
        ⟨[⟨" y ".toText, " 2".toText, by decide, by decide, by decide, by decide⟩],
          ⟨" z ".toText, " y".toText, by decide, by decide, by decide, by decide⟩⟩ }]
  apart := stops_cons.mpr (by decide)
  otherwise := some
    { lead := ⟨"\n".toText, by decide⟩
      body := ⟨[], ⟨" y ".toText, " 3".toText, by decide, by decide, by decide, by decide⟩⟩
      apart := stops_cons.mpr (by decide) }
  ending := ⟨"\n".toText, by decide⟩
  tail := ⟨[], by decide⟩

/-- The second label of the statement holds minus one. -/
theorem execute_case_levels :
    let run : Run := { env :=
      ⟨[("db1.level".toText, ⟨"DB1.Level".toText, .int (-1), "INT".toText, .cache⟩)]⟩ }
    levels.text = ("CASE\t#\"DB1.Level\"\tOF\n 1 , 3..5: y := 1;\n -٢ ..\n0\t: y := 2; z := y;\n" ++
      "ELSE y := 3;\nEND_CASE;").toText ∧
    (run.env.lookup levels.selector.name).map Binding.value = some (.int (-1)) ∧
    run.execute ⟨.case, none⟩ levels.text = Run.assignmentsOf levels.body
      ((run.step "Seletor: DB1.Level (valor atual: -1)".toText).step
        "→ Ramo correspondente: -٢ .. 0".toText) := by
  intro run
  have bound : (run.env.lookup levels.selector.name).map Binding.value = some (.int (-1)) := by decide
  have told := levels.execute_case run none bound
  have steps : levels.selectorStep (-1) = "Seletor: DB1.Level (valor atual: -1)".toText ∧
      levels.branchStep (-1) = "→ Ramo correspondente: -٢ .. 0".toText := by decide +kernel
  rw [if_pos (by decide +kernel), steps.1, steps.2] at told
  exact ⟨by decide +kernel, bound, told⟩

/-- No branch is named if a separating control stands next to a number of a label, if the value of
the selector is too long to be written, or if the name of the selector has a blank in it. -/
theorem branch_is_not_named :
    let run (name : String) (k : Int) : Run :=
      { env := ⟨[(name.toText.fold, ⟨name.toText, .int k, "INT".toText, .cache⟩)]⟩ }
    let steps (outcome : Outcome) := outcome.1.steps
    steps ((run "x" 2).execute ⟨.case, none⟩ "CASE x OF 1,\x1c2: y := 1; END_CASE;".toText)
        = ["Seletor: x (valor atual: 2)".toText] ∧
      steps ((run "x" (10 ^ 4300)).execute ⟨.case, none⟩ "CASE x OF 1: y := 1; END_CASE;".toText) = [] ∧
      steps ((run "Tank Mode" 1).execute ⟨.case, none⟩ "CASE \"Tank Mode\" OF 1: y := 1; END_CASE;".toText)
        = ["Estrutura CASE".toText, "y := 1 → 1".toText] := by
  decide +kernel

end Case

end SclNarrator.Selection
