import SclNarrator.Proofs.Expr.Agreement
import SclNarrator.Proofs.Program.Reference
import SclNarrator.Proofs.Run.Seeding

/-!
An assignment of a string literal with statements behind it. Three passes over the code look into
literals: calls are taken out of them, parentheses are counted in them, and tag names in double quotes
are replaced in them. A literal in which none of the three finds anything is opaque (`IsOpaque`).

What is proved: the text of an opaque literal is bound as it is, and all that follows is carried out.
For every other literal there is a program that is not carried out like this
(`bound_and_followed_iff`).

Asked for: nothing is bound to the empty name.

Correspondence (analyzer ↔ here):
  `_strip_calls`        ↔ `Source.stripCalls`
  `execute_assignments` ↔ `Source.assignments`, which counts the parentheses
  `substitute`          ↔ `Environment.substitute`
-/

namespace SclNarrator

namespace Substitution

/-- A piece with something in the place of a match. -/
def filled (g : Text → Text) : Piece Text → Text
  | .plain c => [c]
  | .found _ name => g name

theorem replaceAllM_eq {p : Pattern Text} {f : Text → Except Fault Text} {g : Text → Text} {t : Text}
    (h : ∀ name ∈ Text.findAll p t, f name = .ok (g name)) :
    replaceAllM p f t = .ok ((Text.cut p t).flatMap (filled g)) := by
  have mapped (k : Piece Text → Except Fault Text) (plain : ∀ c, k (.plain c) = .ok [c])
      (found : ∀ u name, k (.found u name) = f name) (pieces : List (Piece Text))
      (fills : ∀ name ∈ pieces.filterMap Piece.value?, f name = .ok (g name)) :
      pieces.mapM k = .ok (pieces.map (filled g)) := by
    induction pieces with
    | nil => rfl
    | cons piece pieces ih =>
      have later : ∀ name ∈ pieces.filterMap Piece.value?, f name = .ok (g name) := by
        intro name mem
        refine fills name ?_
        rw [List.filterMap_cons]
        split
        · exact mem
        · exact List.mem_cons_of_mem _ mem
      rw [List.mapM_cons, ih later]
      cases piece with
      | plain c =>
        rw [plain]
        rfl
      | found u name =>
        rw [found, fills name (by simp [Piece.value?])]
        rfl
  rw [replaceAllM, mapped _ (fun _ => rfl) (fun _ _ => rfl) _ h, ok_bind]
  simp [List.flatten_eq_flatMap, List.flatMap_map, pure, Except.pure]

end Substitution

/-! ## The value of a literal -/

theorem ofText_string {q : Text} (string : Item.IsString q) : Alternation.ofText q = ⟨[], [(q, [])]⟩ := by
  have found : stringLiteral [] (q ++ []) = some ((), []) := by
    rw [stringLiteral, string.read, Option.map_some]
  have pieces := Text.cutFrom_found string.ne found
  rw [List.append_nil] at pieces
  rw [Alternation.ofText, Text.cut, pieces]
  rfl

/-- An expression that is one literal once tag names are replaced has the text of the literal as its
value. An empty name would stand on both sides of it. -/
theorem evaluate_string {env : Environment} {expression q : Text} (string : Item.IsString q)
    (unnamed : [] ∉ env.names)
    (replaced : Substitution.replaceAllM quotedName env.source expression = .ok q) :
    env.evaluate expression = .text (Token.unquote q) := by
  have nowhere : Substitution.replaceNames env.names env.source 0 [] [] = .ok [] := by
    have nameless : Substitution.nameAt? env.names [] [] = none := by
      rw [Substitution.nameAt?, if_pos (by decide), List.find?_eq_none]
      intro name mem
      cases name with
      | nil => exact absurd mem unnamed
      | cons c name => simp [Text.dropPart?]
    rw [Substitution.replaceNames, nameless]
  have substituted : env.substitute expression = .ok q := by
    rw [Environment.substitute, replaced, ok_bind]
    split
    · rfl
    · rw [ofText_string string]
      simp only [Alternation.mapCodeM, nowhere, List.mapM_cons, List.mapM_nil]
      simp [Alternation.text, pure, Except.pure, bind, Except.bind]
  -- the literal stands where a name could
  let o : Leaf → Slot Operand := fun _ => .literal q
  let t : Term := .variable ⟨"x".toText, by decide⟩
  have valid : ∀ a, (o a).IsValid := fun _ => string
  have symbolic := Term.symbolize_operands valid t
  have parsed : Expr.parse ((t.operands o).flatMap Item.symbol) = .ok (t.read o) := by
    refine Term.parse_operands valid ?_
    intro f called
    cases called
  rw [← symbolic] at parsed
  have text : (Item.spaced t.items).flatMap (Item.text fun a => (o a).text Operand.text) = q := by
    show q ++ [] = q
    exact List.append_nil q
  rw [text] at parsed
  simp only [Environment.evaluate, Environment.trace, substituted, parsed, Trace.value, ok_bind]
  rfl

namespace Program

open Source (assignment topLevel call)
open Substitution (filled replaceAllM replaceAllM_eq)
open Text (Misses)

structure Literal where
  text : Text
  valid : .char '\'' ∉ text

def apostrophes (t : Text) : Text := .char '\'' :: t ++ [.char '\'']

def Literal.quoted (s : Literal) : Text := apostrophes s.text

def Statement.isAssign : Statement → Bool
  | assign .. => true
  | call .. => false

structure Straight extends Program where
  straight : statements.all (·.2.isAssign) = true

/-- The code that assigns a literal to a name and goes on with other assignments. -/
def literalCode (x : Name) (s : Literal) (p : Straight) : Text :=
  x.text ++ (" := ".toText ++ (s.quoted ++ (";".toText ++ p.text)))

/-- Whether none of the passes over the code finds something in a text: no call to take out, no name in
double quotes to replace, and no parenthesis that stays open. -/
structure IsOpaque (s : Text) : Prop where
  calls : Source.stripCalls s = s
  tags : Text.findAll quotedName s = []
  closed : Source.parenBalance s ≤ 0

/-! ## A literal in the code -/

theorem ne_of_mem_literal (s : Literal) : ∀ c ∈ s.text, c ≠ '\'' := by
  rintro c mem rfl
  exact s.valid mem

theorem cut_quoted (s : Literal) : Text.cut quotedName s.quoted =
    .plain '\'' :: (Text.cut quotedName s.text ++ [.plain '\'']) := by
  have opening : Misses quotedName [] [.char '\''] (s.text ++ [.char '\'']) :=
    ⟨Substitution.quotedName_of_ne (by decide), trivial⟩
  have inside : Text.LocalOn quotedName [.char '\''] s.text [.char '\''] := by
    intro x y _ _
    exact quotedName_append _ _ y (by decide)
  have pieces := Text.cutFrom_misses opening
  rw [List.singleton_append] at pieces
  rw [Literal.quoted, apostrophes, Text.cut, List.cons_append, pieces]
  simp only [List.map_cons, List.map_nil, List.reverse_singleton, List.append_nil, List.singleton_append]
  rw [Text.cutFrom_local inside]
  rfl

/-- What is left of a literal when tag names are replaced: each of them by the text of its value. -/
theorem replaced_quoted {s : Literal} {f : Text → Except Fault Text} {g : Text → Text}
    (h : ∀ name ∈ Text.findAll quotedName s.text, f name = .ok (g name)) :
    replaceAllM quotedName f s.quoted =
      .ok (apostrophes ((Text.cut quotedName s.text).flatMap (filled g))) := by
  rw [replaceAllM_eq (g := g), cut_quoted]
  · simp [filled, apostrophes]
  · intro name mem
    rw [Text.findAll, cut_quoted] at mem
    exact h name (by simpa [Text.findAll, Piece.value?] using mem)

theorem evaluate_quoted {env : Environment} {s : Literal} (unnamed : [] ∉ env.names)
    (tags : Text.findAll quotedName s.text = []) : env.evaluate s.quoted = .text s.text := by
  have replaced : replaceAllM quotedName env.source s.quoted = .ok s.quoted := by
    have := replaced_quoted (s := s) (f := env.source) (g := id) (by simp [tags])
    rwa [Text.cut_eq_of_findAll tags, Text.flatMap_text_plain _ _ fun _ => rfl] at this
  rw [evaluate_string (isString_apostrophes (ne_of_mem_literal s)) unnamed replaced]
  exact congrArg Value.text (unquote_apostrophes s.text)

/-- A text in which something shorter stands for every match is as long only if there is none. -/
theorem findAll_eq_nil_of_filled {t : Text}
    (h : (Text.cut quotedName t).flatMap (filled fun _ => ['0']) = t) :
    Text.findAll quotedName t = [] := by
  have shorter (pieces : List (Piece Text)) (long : ∀ u v : Text, .found u v ∈ pieces → 3 ≤ u.length) :
      (pieces.flatMap (filled fun _ => ['0'])).length + (pieces.filterMap Piece.value?).length ≤
        (pieces.flatMap Piece.text).length := by
    induction pieces with
    | nil => simp
    | cons piece pieces ih =>
      have later := ih fun u v mem => long u v (List.mem_cons_of_mem _ mem)
      cases piece with
      | plain c =>
        simp only [List.flatMap_cons, List.length_append, filled, Piece.text, List.filterMap_cons,
          Piece.value?, List.length_singleton]
        omega
      | found u v =>
        have long' : 3 ≤ u.length := long u v List.mem_cons_self
        simp only [List.flatMap_cons, List.length_append, filled, Piece.text, List.filterMap_cons,
          Piece.value?, List.length_cons, List.length_nil]
        omega
  have count := shorter (Text.cut quotedName t) fun u v mem => by
    obtain ⟨back, rest, -, matched⟩ := (Text.cuts_cut fronts_quotedName t).exists_of_found mem
    obtain ⟨whole, ne⟩ := quotedName_eq_some matched
    have length := congrArg List.length whole
    have := List.length_pos_iff.mpr ne
    simp only [List.length_append, List.length_cons] at length
    omega
  rw [h, Text.cut_text] at count
  exact List.length_eq_zero_iff.mp (by rw [Text.findAll]; omega)

/-- Where nothing is bound, a literal has its text as its value only if no tag name stands in it: each
would be replaced by a zero. -/
theorem findAll_eq_nil_of_evaluate {s : Literal} (h : Environment.evaluate {} s.quoted = .text s.text) :
    Text.findAll quotedName s.text = [] := by
  have replaced := replaced_quoted (s := s) (f := Environment.source {}) (g := fun _ => ['0']) fun _ _ => rfl
  have inner : ∀ c ∈ (Text.cut quotedName s.text).flatMap (filled fun _ => ['0']), c ≠ '\'' := by
    intro c mem
    obtain ⟨piece, among, inside⟩ := List.mem_flatMap.mp mem
    cases piece with
    | found u v =>
      rw [List.mem_singleton.mp inside]
      decide
    | plain d =>
      rw [List.mem_singleton.mp inside]
      refine ne_of_mem_literal s d ?_
      rw [← Text.cut_text quotedName s.text]
      exact List.mem_flatMap.mpr ⟨_, among, List.mem_singleton_self d⟩
  rw [evaluate_string (isString_apostrophes inner)
    (by simp [Environment.names, Environment.bindings]) replaced, unquote_apostrophes] at h
  exact findAll_eq_nil_of_filled (Value.text.inj h)

/-! ## The code around a literal -/

namespace Straight

variable (p : Straight)

theorem isAssign {gap : Gap} {s : Statement} (mem : (gap, s) ∈ p.statements) :
    ∃ target gap e, s = .assign target gap e := by
  have assign := List.all_eq_true.mp p.straight _ mem
  cases s with
  | assign target gap e => exact ⟨target, gap, e, rfl⟩
  | call callee gap first more tail => cases assign

/-- What holds of the text of every assignment and of every gap holds of the text of the program. -/
theorem forall_text {P : CodePoint → Prop} (blank : ∀ c, isBlank c = true → P c)
    (name : ∀ c, isNameChar c = true → P c) (operand : ∀ c, isOperandChar c = true → P c)
    (marks : ∀ c ∈ ":=;".toText, P c) : ∀ c ∈ p.text, P c := by
  intro c mem
  rcases List.mem_append.mp mem with inside | tail
  · obtain ⟨⟨gap, s⟩, among, part⟩ := List.mem_flatMap.mp inside
    obtain ⟨target, gap', e, rfl⟩ := p.isAssign among
    simp only [Statement.text, List.mem_append, List.mem_cons, List.not_mem_nil, or_false] at part
    rcases part with part | part | part | rfl | rfl | part | rfl
    · exact blank c (gap.isBlank part)
    · exact name c (target.isNameChar part)
    · exact blank c (gap'.isBlank part)
    · exact marks _ (by decide)
    · exact marks _ (by decide)
    · exact operand c (e.isOperandChar part)
    · exact marks _ (by decide)
  · exact blank c (p.tail.isBlank tail)

theorem not_mem_quote : .char '"' ∉ p.text := by
  intro mem
  refine p.forall_text (P := (· ≠ '"')) ?_ ?_ ?_ (by decide) _ mem rfl
  · rintro c blank rfl
    cases blank
  · rintro c char rfl
    cases char
  · rintro c operand rfl
    cases operand

theorem nested : nestedFrom 0 p.text = true := by
  have statements (statements : List (Gap × Statement)) (straight : statements.all (·.2.isAssign) = true)
      (rest : Text) (later : nestedFrom 0 rest = true) :
      nestedFrom 0 (statementsText statements ++ rest) = true := by
    induction statements with
    | nil => exact later
    | cons head statements ih =>
      obtain ⟨gap, s⟩ := head
      rw [List.all_cons, Bool.and_eq_true] at straight
      cases s with
      | call callee gap first more tail => cases straight.1
      | assign target gap' e =>
        have arrow : ∀ c ∈ [CodePoint.char ':', .char '='], isFlat c = true := by decide
        have ends : ∀ c ∈ [CodePoint.char ';'], isFlat c = true := by decide
        have text : statementsText ((gap, .assign target gap' e) :: statements) ++ rest =
            gap.text ++ (target.text ++ (gap'.text ++ ([.char ':', .char '='] ++ (e.text ++ ([.char ';'] ++
              (statementsText statements ++ rest)))))) := by
          simp [statementsText, Statement.text]
        rw [text, nestedFrom_flat fun c => gap.isFlat, nestedFrom_flat fun c => target.isFlat,
          nestedFrom_flat fun c => gap'.isFlat, nestedFrom_flat arrow, ← Nat.add_zero 0,
          nestedFrom_append e.nested, nestedFrom_flat ends]
        exact ih straight.2
  refine statements p.statements p.straight p.tail.text ?_
  have tail := @nestedFrom_flat 0 p.tail.text [] fun c => p.tail.isFlat
  rw [List.append_nil] at tail
  rw [tail]
  rfl

theorem keepNested_text {back : Text} (h : AtStatement back) :
    (Text.cutFrom call 0 back p.text).flatMap Source.keepNested = p.text := by
  rw [Program.text, keepNested_statements p.statements p.tail h, statementsText]
  congr 1
  refine List.flatMap_congr fun ⟨gap, s⟩ mem => ?_
  obtain ⟨target, gap', e, rfl⟩ := p.isAssign mem
  rfl

/-- Behind parentheses that are open no assignment counts; else each of them does. -/
theorem topLevel_text (balance : Int) : topLevel balance (Text.cut assignment p.text) =
    if 0 < balance then [] else p.assignments := by
  have gaps (gap : Gap) (rest : Text) : topLevel balance (Text.cut assignment (gap.text ++ rest)) =
      topLevel balance (Text.cut assignment rest) := by
    rw [topLevel_misses balance (misses_assignment_gap gap [] rest), parenBalance_flat fun c => gap.isFlat,
      Int.add_zero]
  have statements (statements : List (Gap × Statement)) (straight : statements.all (·.2.isAssign) = true) :
      topLevel balance (Text.cut assignment (statementsText statements ++ p.tail.text)) =
        if 0 < balance then [] else statements.filterMap (·.2.assignment?) := by
    induction statements with
    | nil =>
      have := gaps p.tail []
      rw [List.append_nil] at this
      rw [statementsText, List.flatMap_nil, List.nil_append, this]
      split <;> rfl
    | cons head statements ih =>
      obtain ⟨gap, s⟩ := head
      rw [List.all_cons, Bool.and_eq_true] at straight
      cases s with
      | call callee gap first more tail => cases straight.1
      | assign target gap' e =>
        have text : statementsText ((gap, .assign target gap' e) :: statements) ++ p.tail.text =
            gap.text ++ ((Statement.assign target gap' e).text ++
              (statementsText statements ++ p.tail.text)) := by
          simp [statementsText]
        have ne : (Statement.assign target gap' e).text ≠ [] := by simp [Statement.text]
        rw [text, gaps, topLevel_found balance ne (assignment_found target gap' e [] _),
          parenBalance_assign, Int.add_zero, ih straight.2]
        split
        · rfl
        · rfl
  exact statements p.statements p.straight

end Straight

/-- What stands between the name and the text of the literal. -/
def literalFront : Text := " := '".toText

theorem literalCode_eq (x : Name) (s : Literal) (p : Straight) :
    literalCode x s p = x.text ++ (literalFront ++ (s.text ++ .char '\'' :: .char ';' :: p.text)) := by
  simp [literalCode, Literal.quoted, apostrophes, literalFront, String.toText, Text.ofChars]

theorem encloses_literal (s : Literal) (p : Straight) : Encloses s.text '\'' (.char ';' :: p.text) := by
  refine ⟨by decide, fun z _ => afterQuoted?_append z ?_, ?_⟩
  · simp [p.not_mem_quote]
  · have flat : ∀ c ∈ [CodePoint.char '\'', .char ';'], isFlat c = true := by decide
    have skipped : (.char '\'' :: .char ';' :: p.text : Text).dropWhile isFlat = p.text.dropWhile isFlat :=
      List.dropWhile_append_of_pos flat
    rw [skipped]
    intro closes
    cases left : p.text.dropWhile isFlat with
    | nil => simp [left] at closes
    | cons c after =>
      obtain rfl := opens_of_nested p.nested left
      simp [left] at closes

theorem stripCalls_literalCode (x : Name) (s : Literal) (p : Straight) :
    Source.stripCalls (literalCode x s p) =
      x.text ++ (literalFront ++ (Source.stripCalls s.text ++ .char '\'' :: .char ';' :: p.text)) := by
  let space : Gap := ⟨" ".toText, by decide⟩
  have name : Misses call [] x.text (literalFront ++ (s.text ++ .char '\'' :: .char ';' :: p.text)) :=
    misses_call_name x space [] _ (by decide) (by decide) (by decide)
  have front (back : Text) : Misses call back literalFront (s.text ++ .char '\'' :: .char ';' :: p.text) := by
    refine ⟨?_, ?_, ?_, ?_, ?_, trivial⟩ <;> exact call_of_head (by decide) (by decide) (by decide)
  have ends (back : Text) : Misses call back [.char '\'', .char ';'] p.text := by
    refine ⟨?_, ?_, trivial⟩ <;> exact call_of_head (by decide) (by decide) (by decide)
  have behind (back : Text) :
      (Text.cutFrom call 0 back (.char '\'' :: .char ';' :: p.text)).flatMap Source.keepNested =
        .char '\'' :: .char ';' :: p.text := by
    have ready : AtStatement (.char ';' :: .char '\'' :: back) := by
      rw [AtStatement, dropWhile_of_stops (stops_cons.mpr (by decide))]
      simp
    have := keepNested_misses (ends back)
    rw [List.cons_append, List.singleton_append] at this
    rw [this]
    exact congrArg _ (p.keepNested_text ready)
  rw [literalCode_eq, Source.stripCalls, Text.cut, keepNested_misses name, keepNested_misses (front _),
    stripCalls_enclosed (encloses_literal s p) rfl, behind]

theorem statement?_literal {u : Text} (rest : Text) (h : .char '\'' ∉ u) :
    Source.statement? false (.char ' ' :: .char '\'' :: (u ++ .char '\'' :: .char ';' :: rest)) =
      some (.char ' ' :: apostrophes u, rest) := by
  have inside : Source.statement? true (u ++ .char '\'' :: .char ';' :: rest) =
      some (u ++ [.char '\''], rest) := by
    induction u with
    | nil => rfl
    | cons c u ih =>
      have other : (c != '\'') = true := by
        rw [bne_iff_ne]
        rintro rfl
        exact h List.mem_cons_self
      rw [List.cons_append, Source.statement?, if_pos rfl, other,
        ih fun mem => h (List.mem_cons_of_mem c mem)]
      rfl
  have opened : Source.statement? false (.char '\'' :: (u ++ .char '\'' :: .char ';' :: rest)) =
      some (apostrophes u, rest) := by
    rw [Source.statement?, if_neg (by decide), if_neg (by decide), if_neg (by simp)]
    show Option.map _ (Source.statement? true _) = _
    rw [inside]
    rfl
  rw [Source.statement?, if_neg (by decide), if_neg (by decide), if_neg (by simp)]
  show Option.map _ (Source.statement? false _) = _
  rw [opened]
  rfl

theorem trim_apostrophes (u : Text) : Text.trim (.char ' ' :: apostrophes u) = apostrophes u := by
  have left : Text.trimLeft (.char ' ' :: apostrophes u) = apostrophes u := rfl
  have right : Text.trimLeft (apostrophes u).reverse = (apostrophes u).reverse := by
    rw [apostrophes, List.reverse_append]
    rfl
  rw [Text.trim, left, Text.trimRight, right, List.reverse_reverse]

/-- The code with a literal holds the assignment of what is left of the literal, and behind it all
assignments or none, as the parentheses in the literal are closed or not. -/
theorem assignments_literalCode (x : Name) (s : Literal) (p : Straight) :
    Source.assignments (literalCode x s p) =
      ⟨x.text, apostrophes (Source.stripCalls s.text)⟩ ::
        if 0 < Source.parenBalance (Source.stripCalls s.text) then [] else p.assignments := by
  rw [Source.assignments, stripCalls_literalCode, Source.assignmentsIn]
  generalize left : Source.stripCalls s.text = u
  have clean : .char '\'' ∉ u := by
    rintro mem
    rw [← left] at mem
    exact s.valid (mem_of_mem_stripCalls mem)
  have text : x.text ++ (literalFront ++ (u ++ .char '\'' :: .char ';' :: p.text)) =
      (x.text ++ (literalFront ++ (u ++ [.char '\'', .char ';']))) ++ p.text := by simp
  have balance : Source.parenBalance (x.text ++ (literalFront ++ (u ++ [.char '\'', .char ';']))) =
      Source.parenBalance u := by
    have front : Source.parenBalance literalFront = 0 := by decide
    have ends : Source.parenBalance [.char '\'', .char ';'] = 0 := by decide
    rw [parenBalance_append, parenBalance_append, parenBalance_append, front, ends,
      parenBalance_flat fun c => x.isFlat]
    omega
  have found : assignment [] ((x.text ++ (literalFront ++ (u ++ [.char '\'', .char ';']))) ++ p.text) =
      some (⟨x.text, apostrophes u⟩, p.text) := by
    rw [← text]
    obtain ⟨c, name, same, start, -⟩ := x.cases
    have target := target?_name x (x := []) (b := literalFront ++ (u ++ .char '\'' :: .char ';' :: p.text))
      same (stops_cons.mpr (by decide)) (by simp [literalFront, String.toText, Text.ofChars])
    rw [if_pos start, ← same] at target
    have body : (literalFront ++ (u ++ .char '\'' :: .char ';' :: p.text)).dropWhile isBlank =
        .char ':' :: .char '=' :: .char ' ' :: .char '\'' :: (u ++ .char '\'' :: .char ';' :: p.text) := rfl
    rw [body] at target
    simp only [assignment, target, statement?_literal p.text clean, trim_apostrophes]
  have ne : x.text ++ (literalFront ++ (u ++ [.char '\'', .char ';'])) ≠ [] := by simp
  rw [text, topLevel_found 0 ne found, balance, Int.zero_add, p.topLevel_text]
  rfl

/-! ## Opaque literals -/

/-- Whether the text of a literal is bound to the name, with what is behind carried out after that. -/
def BoundAndFollowed (x : Name) (s : Literal) (p : Straight) (run : Run) : Prop :=
  let first := run.assign ⟨x.text, s.quoted⟩
  first.2 = none ∧
    first.1.env.lookup x.text = some ⟨x.text, .text s.text, "STRING".toText, .computed⟩ ∧
    Run.execute ⟨.plain, none⟩ (literalCode x s p) run = Run.assignAll p.assignments first.1

theorem lookupKey_name (x : Name) : Environment.lookupKey x.text = x.text.fold := by
  refine Environment.lookupKey_of_head? fun hash => ?_
  have := x.isNameChar (List.mem_of_mem_head? hash)
  cases this

theorem execute_literalCode (x : Name) (s : Literal) (p : Straight) (run : Run) :
    Run.execute ⟨.plain, none⟩ (literalCode x s p) run =
      (run.assign ⟨x.text, apostrophes (Source.stripCalls s.text)⟩).andThen (Run.assignAll
        (if 0 < Source.parenBalance (Source.stripCalls s.text) then [] else p.assignments)) := by
  show Run.assignAll (Source.assignments (literalCode x s p)) run = _
  rw [assignments_literalCode]
  rfl

theorem boundAndFollowed_of_isOpaque {x : Name} {s : Literal} (h : IsOpaque s.text) (p : Straight)
    {run : Run} (unnamed : [] ∉ run.env.names) : BoundAndFollowed x s p run := by
  have value : (run.env.made ⟨x.text, s.quoted⟩).value = .text s.text := by
    show (run.env.evaluate s.quoted).normalize = _
    rw [evaluate_quoted unnamed h.tags]
    rfl
  obtain ⟨env, bound⟩ : ∃ env, run.env.assign ⟨x.text, s.quoted⟩ = .ok env := by
    unfold Environment.assign Environment.bind
    rw [value]
    dsimp only
    split
    · exact ⟨_, rfl⟩
    · exact ⟨_, rfl⟩
  have speech : (run.env.made ⟨x.text, s.quoted⟩).value.shown run.places = .ok s.text := by
    rw [value]
    rfl
  have told := Run.assign_of_told bound speech
  refine ⟨by rw [told], ?_, ?_⟩
  · have type : (run.env.made ⟨x.text, s.quoted⟩).inferredType.name = "STRING".toText := by
      show (run.env.made ⟨x.text, s.quoted⟩).value.inferredType.name = _
      rw [value]
      rfl
    have binding := Environment.lookup_bind bound
    rw [value, type] at binding
    rw [told, Environment.lookup, lookupKey_name]
    exact binding
  · rw [execute_literalCode, h.calls, if_neg (by have := h.closed; omega)]
    show (run.assign ⟨x.text, s.quoted⟩).andThen _ = _
    rw [told]
    rfl

theorem text_of_normalize {v : Value} {t : Text} (h : v.normalize = .text t) : v = .text t := by
  cases v with
  | float x =>
    rw [Value.normalize] at h
    split at h
    · split at h <;> cases h
    · cases h
  | text t => exact h
  | none | bool b | int n | complex z => cases h

section Followed

variable {x : Name} {s : Literal} {p : Straight} {run : Run}
  (followed : Run.execute ⟨.plain, none⟩ (literalCode x s p) run =
    Run.assignAll p.assignments (run.assign ⟨x.text, s.quoted⟩).1)
include followed

theorem stripCalls_of_followed (fresh : run.assignments = [])
    (recorded : (run.assign ⟨x.text, s.quoted⟩).1.assignments = [run.env.made ⟨x.text, s.quoted⟩]) :
    Source.stripCalls s.text = s.text := by
  obtain ⟨made, -, after⟩ := Run.carried_assignAll p.assignments (run.assign ⟨x.text, s.quoted⟩).1
  obtain ⟨made', carried, after'⟩ := Run.carried_assignAll (Source.assignments (literalCode x s p)) run
  have same : made' = run.env.made ⟨x.text, s.quoted⟩ :: made := by
    have records := congrArg (fun o : Outcome => o.1.assignments) followed
    rw [after, recorded] at records
    rw [fresh, List.nil_append] at after'
    exact after'.symm.trans records
  have first := carried.written_prefix
  rw [same, assignments_literalCode, List.map_cons, List.cons_prefix_cons] at first
  have texts : apostrophes s.text = apostrophes (Source.stripCalls s.text) :=
    congrArg Source.Assignment.expression first.1
  exact (List.append_cancel_right (List.cons.inj texts).2).symm

/-- Behind an open parenthesis nothing would be carried out. -/
theorem parenBalance_of_followed (told : (run.assign ⟨x.text, s.quoted⟩).2 = none)
    (calls : Source.stripCalls s.text = s.text) (ne : p.assignments ≠ []) :
    Source.parenBalance s.text ≤ 0 := by
  rw [← Int.not_lt]
  intro unclosed
  rw [execute_literalCode, calls, if_pos unclosed] at followed
  obtain ⟨made, carried, after⟩ := Run.carried_assignAll p.assignments (run.assign ⟨x.text, s.quoted⟩).1
  have alone : (run.assign ⟨x.text, s.quoted⟩).andThen (Run.assignAll []) =
      ((run.assign ⟨x.text, s.quoted⟩).1, none) := by
    cases first : run.assign ⟨x.text, s.quoted⟩ with
    | mk next fault =>
      rw [first] at told
      obtain rfl : fault = none := told
      rfl
  rw [followed.symm.trans alone] at carried after
  have written := carried.written_eq
  rw [List.self_eq_append_right.mp after] at written
  exact ne written.symm

end Followed

/-- The program that assigns 1 to `y`. -/
def followUp : Straight where
  statements := [(.none, .assign ⟨"y".toText, by decide⟩ .none ⟨"1".toText, by decide⟩)]
  tail := .none
  straight := rfl

theorem isOpaque_of_boundAndFollowed {x : Name} {s : Literal}
    (h : BoundAndFollowed x s followUp { env := {} }) : IsOpaque s.text := by
  generalize start : ({ env := {} } : Run) = run at h
  have empty : run.env = {} := by rw [← start]
  have fresh : run.assignments = [] := by rw [← start]
  obtain ⟨told, binding, followed⟩ := h
  -- the name is bound afterwards, so the assignment was made, and its value is the text
  rcases run.assign_cases ⟨x.text, s.quoted⟩ with ⟨kept, -⟩ | ⟨bound, recorded⟩
  · rw [kept, empty] at binding
    cases binding
  rw [fresh, List.nil_append] at recorded
  have value : (run.env.evaluate s.quoted).normalize = .text s.text := by
    have here := Environment.lookup_bind bound
    rw [Environment.lookup, lookupKey_name, here] at binding
    exact congrArg Binding.value (Option.some.inj binding)
  rw [empty] at value
  have calls := stripCalls_of_followed followed fresh recorded
  exact ⟨calls, findAll_eq_nil_of_evaluate (text_of_normalize value),
    parenBalance_of_followed followed told calls (by decide)⟩

/-- The text of a literal is bound to a name, and every program of assignments behind it is carried out,
whatever names but the empty one are bound, if and only if the passes over the code find nothing in the
literal. -/
theorem bound_and_followed_iff (x : Name) (s : Literal) :
    (∀ (p : Straight) (run : Run), [] ∉ run.env.names → BoundAndFollowed x s p run) ↔ IsOpaque s.text := by
  constructor
  · intro h
    exact isOpaque_of_boundAndFollowed
      (h followUp { env := {} } (by simp [Environment.names, Environment.bindings]))
  · intro isOpaque p run unnamed
    exact boundAndFollowed_of_isOpaque isOpaque p unnamed

/-- Literals are looked into: a call in one is lost, a parenthesis that opens in one hides the next
assignment, and a tag name in one becomes its value. -/
theorem literals_are_looked_into :
    let after (code : String) := (Run.execute ⟨.plain, none⟩ code.toText { env := {} }).1
    let values (code : String) := (after code).assignments.map fun a => (a.target, a.value)
    values "X := 'f(a := 1)'; Y := 2;" = [("X".toText, .text []), ("Y".toText, .int 2)] ∧
      values "X := '('; Y := 2;" = [("X".toText, .text "(".toText)] ∧
      values "X := '\"Level\"'; Y := 2;" = [("X".toText, .text "0".toText), ("Y".toText, .int 2)] := by
  decide +kernel

end Program
end SclNarrator
