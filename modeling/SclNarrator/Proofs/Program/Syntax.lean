import Mathlib.Data.List.TakeWhile
import SclNarrator.Proofs.Text.Stretch
import SclNarrator.Source.Structure

/-!
Programs as data, and their text. A program is a sequence of statements with blanks between them. A
statement assigns an expression to a name, or calls an instance with arguments. Names, blanks and
expressions carry the proof that they are such.
-/

namespace SclNarrator

namespace Program

/-- Whether a text is a plain identifier: a letter or `_`, then letters, digits and `_`. -/
def isIdentifier : Text → Bool
  | [] => false
  | c :: rest => isNameStart c && rest.all isNameChar

/-- Whether the parentheses of a text are nested properly, behind `depth` ones that are open. -/
def nestedFrom (depth : Nat) : Text → Bool
  | [] => depth == 0
  | c :: rest =>
    if c = '(' then nestedFrom (depth + 1) rest
    else if c = ')' then depth != 0 && nestedFrom (depth - 1) rest
    else nestedFrom depth rest

/-- Whether a character can stand in an expression: it is no quote, no `;` and no `:`. -/
def isOperandChar (c : CodePoint) : Bool := c != '\'' && c != '"' && c != ';' && c != ':'

/-- Whether a text can stand on the right of an arrow: it is not blank, its parentheses are nested
properly, and it has no quote, no `;`, no `:` and no `=>`. -/
def isOperand (t : Text) : Bool :=
  !t.blank && nestedFrom 0 t && t.all isOperandChar && !Text.hasPart ['=', '>'] t

structure Name where
  text : Text
  valid : isIdentifier text = true

structure Gap where
  text : Text
  valid : text.blank = true

theorem blank_nil : Text.blank [] = true := rfl

def Gap.none : Gap := ⟨[], blank_nil⟩

/-- The right side of an arrow, with the blanks around it. -/
structure Operand where
  text : Text
  valid : isOperand text = true

/-- An argument of a call: a value that goes in, or a place for what comes out. -/
structure Argument where
  lead : Gap
  name : Name
  gap : Gap
  output : Bool
  operand : Operand

def Argument.arrow (a : Argument) : Text := if a.output then ['=', '>'] else [':', '=']

def Argument.text (a : Argument) : Text :=
  a.lead.text ++ (a.name.text ++ (a.gap.text ++ (a.arrow ++ a.operand.text)))

def argumentsText (first : Argument) : List Argument → Text
  | [] => first.text
  | next :: more => first.text ++ .char ',' :: argumentsText next more

/-- A statement. A call has at least one argument. -/
inductive Statement where
  | assign (target : Name) (gap : Gap) (expression : Operand)
  | call (callee : Name) (gap : Gap) (first : Argument) (more : List Argument) (tail : Gap)

/-- The text of a statement, with the `;` that ends it. -/
def Statement.text : Statement → Text
  | assign target gap expression =>
    target.text ++ (gap.text ++ .char ':' :: .char '=' :: (expression.text ++ [.char ';']))
  | call callee gap first more tail =>
    callee.text ++ (gap.text ++ .char '(' ::
      (argumentsText first more ++ .char ')' :: (tail.text ++ [.char ';'])))

/-- The assignment that a statement makes. A call makes none. -/
def Statement.assignment? : Statement → Option Source.Assignment
  | assign target _ expression => some ⟨target.text, expression.text.trim⟩
  | call .. => none

end Program

/-- Statements, each behind blanks, and the blanks at the end. -/
structure Program where
  statements : List (Program.Gap × Program.Statement)
  tail : Program.Gap

namespace Program

/-- The text of statements with the blanks before them. -/
def statementsText (statements : List (Gap × Statement)) : Text :=
  statements.flatMap fun (gap, s) => gap.text ++ s.text

def text (program : Program) : Text := statementsText program.statements ++ program.tail.text

def assignments (program : Program) : List Source.Assignment :=
  program.statements.filterMap fun (_, s) => s.assignment?

/-- Blanks behind blanks. -/
def Gap.append (g h : Gap) : Gap :=
  ⟨g.text ++ h.text, by rw [Text.blank, List.all_append, Bool.and_eq_true]; exact ⟨g.valid, h.valid⟩⟩

def indent (gap : Gap) : Program → Program
  | ⟨[], tail⟩ => ⟨[], gap.append tail⟩
  | ⟨(lead, s) :: more, tail⟩ => ⟨(gap.append lead, s) :: more, tail⟩

theorem text_indent (gap : Gap) (program : Program) :
    (program.indent gap).text = gap.text ++ program.text := by
  obtain ⟨statements, tail⟩ := program
  cases statements with
  | nil => rfl
  | cons head more => simp [indent, text, statementsText, Gap.append]

theorem assignments_indent (gap : Gap) (program : Program) :
    (program.indent gap).assignments = program.assignments := by
  obtain ⟨statements, tail⟩ := program
  cases statements with
  | nil => rfl
  | cons head more => simp [indent, assignments, List.filterMap_cons]

/-! ## Nesting -/

theorem nestedFrom_append {depth : Nat} {t : Text} (h : nestedFrom depth t = true) (outer : Nat)
    (rest : Text) : nestedFrom (depth + outer) (t ++ rest) = nestedFrom outer rest := by
  induction t generalizing depth with
  | nil =>
    have : depth = 0 := by simpa [nestedFrom] using h
    simp [this]
  | cons c t ih =>
    rw [List.cons_append]
    simp only [nestedFrom] at h ⊢
    split at h
    · next opens => rw [if_pos opens, ← ih h, Nat.add_right_comm]
    · next notOpen =>
      rw [if_neg notOpen]
      split at h
      · next closes =>
        simp only [Bool.and_eq_true, bne_iff_ne, ne_eq] at h
        rw [if_pos closes, ← ih h.2]
        have inner : depth + outer - 1 = depth - 1 + outer := by omega
        have nested : (depth + outer != 0) = true := by simp; omega
        rw [inner, nested, Bool.true_and]
      · next notClose => rw [if_neg notClose, ih h]

theorem nestedFrom_end {depth : Nat} {front t : Text} (h : nestedFrom depth (front ++ t) = true) :
    ∃ inner, nestedFrom inner t = true := by
  induction front generalizing depth with
  | nil => exact ⟨depth, h⟩
  | cons c front ih =>
    rw [List.cons_append] at h
    simp only [nestedFrom] at h
    split at h
    · exact ih h
    · split at h
      · exact ih (Bool.and_eq_true_iff.mp h).2
      · exact ih h

@[simp] theorem parenBalance_nil : Source.parenBalance [] = 0 := rfl

theorem parenBalance_append (a b : Text) :
    Source.parenBalance (a ++ b) = Source.parenBalance a + Source.parenBalance b := by
  simp only [Source.parenBalance, List.count_append, Int.natCast_add]
  omega

theorem parenBalance_cons (c : CodePoint) (t : Text) :
    Source.parenBalance (c :: t) =
      (if c = '(' then 1 else if c = ')' then -1 else 0) + Source.parenBalance t := by
  simp only [Source.parenBalance, List.count_cons, beq_iff_eq]
  by_cases opens : c = '('
  · subst opens
    simp
    omega
  · by_cases closes : c = ')'
    · subst closes
      simp
      omega
    · simp [opens, closes]

theorem parenBalance_of_nested {depth : Nat} {t : Text} (h : nestedFrom depth t = true) :
    Source.parenBalance t = -(depth : Int) := by
  induction t generalizing depth with
  | nil =>
    have : depth = 0 := by simpa [nestedFrom] using h
    simp [this]
  | cons c t ih =>
    rw [parenBalance_cons]
    simp only [nestedFrom] at h
    split at h
    · next opens => rw [if_pos opens, ih h]; push_cast; omega
    · next notOpen =>
      rw [if_neg notOpen]
      split at h
      · next closes =>
        simp only [Bool.and_eq_true, bne_iff_ne, ne_eq] at h
        rw [if_pos closes, ih h.2]
        omega
      · next notClose => rw [if_neg notClose, ih h, Int.zero_add]

def isFlat (c : CodePoint) : Bool := c != .char '(' && c != .char ')'

theorem nestedFrom_flat {depth : Nat} {flat rest : Text} (h : ∀ c ∈ flat, isFlat c = true) :
    nestedFrom depth (flat ++ rest) = nestedFrom depth rest := by
  induction flat with
  | nil => rfl
  | cons c flat ih =>
    have plain := h c List.mem_cons_self
    simp only [isFlat, Bool.and_eq_true, bne_iff_ne, ne_eq] at plain
    rw [List.cons_append, nestedFrom, if_neg plain.1, if_neg plain.2]
    exact ih fun d mem => h d (List.mem_cons_of_mem _ mem)

theorem exists_paren_of_nested {depth : Nat} {front rest : Text}
    (h : nestedFrom depth (front ++ .char '(' :: rest) = true) :
    ∃ c after, rest.dropWhile isFlat = c :: after := by
  obtain ⟨inner, nested⟩ := nestedFrom_end h
  rw [nestedFrom, if_pos rfl] at nested
  cases left : rest.dropWhile isFlat with
  | cons c after => exact ⟨c, after, rfl⟩
  | nil =>
    have flat : ∀ c ∈ rest, isFlat c = true := List.dropWhile_eq_nil_iff.mp left
    have := @nestedFrom_flat (inner + 1) rest [] flat
    rw [List.append_nil, nested] at this
    simp [nestedFrom] at this

theorem opens_of_nested {t after : Text} {c : CodePoint} (h : nestedFrom 0 t = true)
    (first : t.dropWhile isFlat = c :: after) : c = '(' := by
  have split : t = t.takeWhile isFlat ++ c :: after := by
    rw [← first, List.takeWhile_append_dropWhile]
  have flat : ∀ d ∈ t.takeWhile isFlat, isFlat d = true := fun d => List.mem_takeWhile_imp
  rw [split, nestedFrom_flat flat, nestedFrom] at h
  split at h
  · next opens => exact opens
  · split at h
    · simp at h
    · next notOpen notClose =>
      have stop := stops_dropWhile isFlat t
      rw [first, stops_cons] at stop
      simp [isFlat, notOpen, notClose] at stop

/-! ## Names, blanks and expressions -/

theorem Name.cases (name : Name) :
    ∃ c rest, name.text = c :: rest ∧ isNameStart c = true ∧ ∀ d ∈ c :: rest, isNameChar d = true := by
  obtain ⟨text, valid⟩ := name
  cases text with
  | nil => simp [isIdentifier] at valid
  | cons c rest =>
    simp only [isIdentifier, Bool.and_eq_true, List.all_eq_true] at valid
    refine ⟨c, rest, rfl, valid.1, fun d mem => ?_⟩
    rcases List.mem_cons.mp mem with rfl | mem
    · exact isNameChar_of_isNameStart valid.1
    · exact valid.2 d mem

theorem Name.isNameChar (name : Name) {c : CodePoint} (h : c ∈ name.text) : isNameChar c = true := by
  obtain ⟨d, rest, same, -, all⟩ := name.cases
  exact all c (same ▸ h)

theorem Gap.isBlank (gap : Gap) {c : CodePoint} (h : c ∈ gap.text) : isBlank c = true :=
  List.all_eq_true.mp gap.valid c h

theorem Name.isFlat (name : Name) {c : CodePoint} (h : c ∈ name.text) : isFlat c = true := by
  rw [Program.isFlat, Bool.and_eq_true, bne_iff_ne, bne_iff_ne]
  have char := name.isNameChar h
  exact ⟨ne_of_isNameChar char (by decide), ne_of_isNameChar char (by decide)⟩

theorem Gap.isFlat (gap : Gap) {c : CodePoint} (h : c ∈ gap.text) : isFlat c = true :=
  forall_blank (by decide) (gap.isBlank h)

theorem Gap.stops (gap : Gap) {p : CodePoint → Bool} {b : Text}
    (noBlank : ∀ c, SclNarrator.isBlank c = true → p c = false) (h : Stops p b) :
    Stops p (gap.text ++ b) := by
  cases same : gap.text with
  | nil => exact h
  | cons c rest => exact stops_cons.mpr (noBlank c (gap.isBlank (same ▸ List.mem_cons_self)))

namespace Operand

variable (e : Operand)

theorem isOperandChar {c : CodePoint} (h : c ∈ e.text) : isOperandChar c = true := by
  have valid := e.valid
  simp only [isOperand, Bool.and_eq_true, List.all_eq_true] at valid
  exact valid.1.2 c h

theorem nested : nestedFrom 0 e.text = true := by
  have valid := e.valid
  simp only [isOperand, Bool.and_eq_true] at valid
  exact valid.1.1.2

theorem ne_nil : e.text ≠ [] := by
  intro h
  have valid := e.valid
  simp [isOperand, h, Text.blank] at valid

theorem hasArrow_infix {part : Text} (h : part <:+: e.text) : Source.hasArrow part = false := by
  have valid := e.valid
  simp only [isOperand, Bool.and_eq_true, Bool.not_eq_true'] at valid
  have noOutput : ¬ (['=', '>'] : Text) <:+: part := by
    intro inside
    have : Text.hasPart ['=', '>'] e.text = true := hasPart_iff.mpr (inside.trans h)
    rw [valid.2] at this
    cases this
  have noInput : ¬ ([':', '='] : Text) <:+: part := by
    intro inside
    have mem : (CodePoint.char ':') ∈ e.text := (inside.trans h).subset (by simp)
    have := e.isOperandChar mem
    simp [Program.isOperandChar] at this
  rw [Source.hasArrow, Bool.or_eq_false_iff, Bool.eq_false_iff, Bool.eq_false_iff]
  exact ⟨fun t => noInput (hasPart_iff.mp t), fun t => noOutput (hasPart_iff.mp t)⟩

end Operand
end Program
end SclNarrator
