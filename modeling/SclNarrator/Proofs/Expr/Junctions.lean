import SclNarrator.Expr.Evaluate
import SclNarrator.Proofs.Expr.Acceptance

/-!
The operands that `&&` and `||` join outside of parentheses. A list of things that open and close
parentheses or join is split at those that join at depth zero (`Nesting.split`). What the grammar
derives from a tighter symbol is passed by the split as a whole (`nested_passes`), so the operands
of a list of tokens are what the two loosest levels of the grammar stand between: each has a tree
and a value of its own, and the values joined are the value of the whole (`exists_operands`).
Parentheses around all of the tokens leave no trace in the tree (`derives_inside`).
-/

namespace SclNarrator

inductive Junction where
  | and | or
  deriving DecidableEq

def Junction.op : Junction → BinaryOp
  | and => .and
  | or => .or

def Junction.level : Junction → Level
  | and => .and
  | or => .or

/-- Values joined from left to right, with conjunctions before disjunctions: `sum` is the disjunction of the
conjunctions that are complete, and `v` is the one at hand. -/
def Value.joined (sum : Option Value) (v : Value) : List (Junction × Value) → Value
  | [] => sum.elim v (·.disjunction v)
  | (.and, w) :: rest => joined sum (v.conjunction w) rest
  | (.or, w) :: rest => joined (some (sum.elim v (·.disjunction v))) w rest

/-! ## Splitting at depth zero -/

/-- How things in a list change the depth of parentheses, and which of them join. -/
structure Nesting (α : Type) where
  delta : α → Int
  junction? : α → Option Junction

namespace Nesting

variable {α β : Type} (n : Nesting α) {d : Int} {x : α} {xs ys : List α}

/-- The things before the first that joins at depth zero, and those behind each of them. -/
def split (d : Int) : List α → List α × List (Junction × List α)
  | [] => ([], [])
  | x :: rest =>
    match n.junction? x with
    | some j =>
      if d = 0 then ([], (j, (split 0 rest).1) :: (split 0 rest).2)
      else (x :: (split (d + n.delta x) rest).1, (split (d + n.delta x) rest).2)
    | none => (x :: (split (d + n.delta x) rest).1, (split (d + n.delta x) rest).2)

/-- Whether the parenthesis that opens a list is closed by the last of it and not before. -/
def closesLast (d : Int) : List α → Bool
  | [] => false
  | x :: rest => if n.delta x = -1 ∧ d = 1 then rest.isEmpty else closesLast (d + n.delta x) rest

def comap (f : β → α) : Nesting β := ⟨n.delta ∘ f, n.junction? ∘ f⟩

variable {n}

theorem split_of_some {j : Junction} (joins : n.junction? x = some j) :
    n.split 0 (x :: xs) = ([], (j, (n.split 0 xs).1) :: (n.split 0 xs).2) := by
  simp only [split, joins, if_true]

theorem split_of_depth (h : d ≠ 0 ∨ n.junction? x = none) :
    n.split d (x :: xs) = (x :: (n.split (d + n.delta x) xs).1, (n.split (d + n.delta x) xs).2) := by
  rw [split]
  split
  · next j joins =>
    have deep : d ≠ 0 := h.resolve_right (by simp [joins])
    rw [if_neg deep]
  · rfl

theorem split_map (f : β → α) (zs : List β) (d : Int) :
    n.split d (zs.map f) =
      (((n.comap f).split d zs).1.map f, ((n.comap f).split d zs).2.map fun g => (g.1, g.2.map f)) := by
  induction zs generalizing d with
  | nil => rfl
  | cons z zs ih =>
    rw [List.map_cons]
    cases joins : n.junction? (f z) with
    | none =>
      rw [split_of_depth (.inr joins), split_of_depth (n := n.comap f) (.inr joins), ih]
      rfl
    | some j =>
      by_cases deep : d = 0
      · subst deep
        rw [split_of_some joins, split_of_some (n := n.comap f) joins, ih]
        rfl
      · rw [split_of_depth (.inl deep), split_of_depth (n := n.comap f) (.inl deep), ih]
        rfl

theorem closesLast_map (f : β → α) (zs : List β) (d : Int) :
    n.closesLast d (zs.map f) = (n.comap f).closesLast d zs := by
  induction zs generalizing d with
  | nil => rfl
  | cons z zs ih =>
    rw [List.map_cons, closesLast, closesLast, ih, List.isEmpty_map]
    rfl

/-! ### Lists that are passed as a whole -/

/-- Whether the split goes over a list as a whole: at its end the depth is the one at its start, and nothing
in it joins at depth zero. -/
def Passes (n : Nesting α) (d : Int) (xs : List α) : Prop :=
  ∀ rest, n.split d (xs ++ rest) = (xs ++ (n.split d rest).1, (n.split d rest).2)

theorem passes_nil : n.Passes d [] := fun _ => rfl

theorem Passes.append (first : n.Passes d xs) (second : n.Passes d ys) : n.Passes d (xs ++ ys) := by
  intro rest
  rw [List.append_assoc, first, second, List.append_assoc]

theorem passes_singleton (flat : n.delta x = 0) (h : d ≠ 0 ∨ n.junction? x = none) : n.Passes d [x] := by
  intro rest
  rw [List.singleton_append, split_of_depth h, flat, Int.add_zero]
  rfl

theorem passes_of_flat (flat : ∀ x ∈ xs, n.delta x = 0 ∧ n.junction? x = none) (d : Int) : n.Passes d xs := by
  induction xs with
  | nil => exact passes_nil
  | cons x xs ih =>
    obtain ⟨here, later⟩ := List.forall_mem_cons.mp flat
    exact (passes_singleton here.1 (.inr here.2)).append (ih later)

theorem split_of_flat (flat : ∀ x ∈ xs, n.delta x = 0 ∧ n.junction? x = none) (d : Int) :
    n.split d xs = (xs, []) := by
  have passed := passes_of_flat flat d []
  simpa [split] using passed

theorem exists_split (n : Nesting α) (d : Int) (xs : List α) : ∃ rest, xs = (n.split d xs).1 ++ rest := by
  induction xs generalizing d with
  | nil => exact ⟨[], rfl⟩
  | cons x xs ih =>
    cases joins : n.junction? x with
    | none =>
      obtain ⟨rest, whole⟩ := ih (d + n.delta x)
      rw [split_of_depth (.inr joins)]
      exact ⟨rest, congrArg _ whole⟩
    | some j =>
      by_cases deep : d = 0
      · subst deep
        rw [split_of_some joins]
        exact ⟨x :: xs, rfl⟩
      · obtain ⟨rest, whole⟩ := ih (d + n.delta x)
        rw [split_of_depth (.inl deep)]
        exact ⟨rest, congrArg _ whole⟩

/-- Parentheses around a list that is passed one level deeper. -/
theorem Passes.enclose {opening closing : α} (inner : n.Passes (d + 1) xs)
    (opens : n.delta opening = 1 ∧ n.junction? opening = none)
    (closes : n.delta closing = -1 ∧ n.junction? closing = none) :
    n.Passes d (opening :: (xs ++ [closing])) := by
  intro rest
  have back : d + 1 + -1 = d := by omega
  rw [List.cons_append, List.append_assoc, split_of_depth (.inr opens.2), opens.1, inner,
    List.singleton_append, split_of_depth (.inr closes.2), closes.1, back]
  simp

/-! ### Lists that do not close what is open -/

/-- Whether a list leaves a parenthesis before it open and ends at the depth at which it starts. -/
def Keeps (n : Nesting α) (d : Int) (xs : List α) : Prop :=
  ∀ rest, n.closesLast d (xs ++ rest) = n.closesLast d rest

theorem keeps_nil : n.Keeps d [] := fun _ => rfl

theorem Keeps.append (first : n.Keeps d xs) (second : n.Keeps d ys) : n.Keeps d (xs ++ ys) := by
  intro rest
  rw [List.append_assoc, first, second]

theorem keeps_singleton (flat : n.delta x = 0) : n.Keeps d [x] := by
  intro rest
  simp [closesLast, flat]

theorem keeps_of_flat (flat : ∀ x ∈ xs, n.delta x = 0) (d : Int) : n.Keeps d xs := by
  induction xs with
  | nil => exact keeps_nil
  | cons x xs ih =>
    obtain ⟨here, later⟩ := List.forall_mem_cons.mp flat
    exact (keeps_singleton here).append (ih later)

theorem exists_last_of_closesLast (closed : n.closesLast d xs = true) :
    ∃ front last, xs = front ++ [last] ∧ n.delta last = -1 := by
  induction xs generalizing d with
  | nil => cases closed
  | cons x xs ih =>
    rw [closesLast] at closed
    split at closed
    · next closes =>
      obtain rfl := List.isEmpty_iff.mp closed
      exact ⟨[], x, rfl, closes.1⟩
    · obtain ⟨front, last, rfl, closes⟩ := ih closed
      exact ⟨x :: front, last, rfl, closes⟩

theorem Keeps.enclose {opening closing : α} (inner : n.Keeps (d + 1) xs) (deep : 0 < d)
    (opens : n.delta opening = 1) (closes : n.delta closing = -1) :
    n.Keeps d (opening :: (xs ++ [closing])) := by
  intro rest
  have back : d + 1 + -1 = d := by omega
  have first : ¬(n.delta opening = -1 ∧ d = 1) := by omega
  have last : ¬(n.delta closing = -1 ∧ d + 1 = 1) := by omega
  rw [List.cons_append, List.append_assoc, closesLast, if_neg first, opens, inner, List.singleton_append,
    closesLast, if_neg last, closes, back]

end Nesting

namespace Grammar

open Token

/-- Parentheses, `&&` and `||` as tokens without positions. -/
def marks : Nesting (TokenKind × Text) where
  delta s := if s = (.op, "(".toText) then 1 else if s = (.op, ")".toText) then -1 else 0
  junction? s :=
    if s = (.op, "&&".toText) then some .and else if s = (.op, "||".toText) then some .or else none

/-- Parentheses, `&&` and `||` among tokens. -/
def tokenMarks : Nesting Token := marks.comap Token.shape

/-! ## What the grammar derives is nested -/

/-- The symbols that have no operator `&&` or `||` outside of parentheses. -/
def Tight : Symbol → Prop
  | .level .or | .level .and => False
  | _ => True

theorem tight_operandOf {level : Level} (h : Tight (.level level)) : Tight (operandOf level) := by
  cases level with
  | or | and => exact h.elim
  | equality | relation | sum | product => trivial

/-- Properties of lists at a depth that hold of all that is put together from tokens at that depth and from
parentheses around what holds one level deeper. -/
structure Nested (Q : Int → List Token → Prop) : Prop where
  nil : ∀ {d : Int}, Q d []
  append : ∀ {d : Int} {xs ys : List Token}, Q d xs → Q d ys → Q d (xs ++ ys)
  single : ∀ {d : Int} {token : Token}, tokenMarks.delta token = 0 →
    0 < d ∨ tokenMarks.junction? token = none → Q d [token]
  enclose : ∀ {d : Int} {xs : List Token} {opening closing : Token}, opening.shape = (.op, "(".toText) →
    closing.shape = (.op, ")".toText) → 0 ≤ d → Q (d + 1) xs → Q d (opening :: (xs ++ [closing]))

theorem delta_eq_zero {token : Token} (opens : token.shape ≠ (.op, "(".toText))
    (closes : token.shape ≠ (.op, ")".toText)) : tokenMarks.delta token = 0 := by
  exact (if_neg opens).trans (if_neg closes)

theorem junction?_eq_none {token : Token} (and : token.shape ≠ (.op, "&&".toText))
    (or : token.shape ≠ (.op, "||".toText)) : tokenMarks.junction? token = none := by
  exact (if_neg and).trans (if_neg or)

theorem ne_of_shape {token : Token} {text mark : Text} (h : token.shape = (.op, text)) (apart : text ≠ mark) :
    token.shape ≠ (.op, mark) := by
  rw [h]
  exact fun same => apart (congrArg Prod.snd same)

theorem flat_of_shape {token : Token} {text : Text} (h : token.shape = (.op, text))
    (other : text ≠ "(".toText ∧ text ≠ ")".toText ∧ text ≠ "&&".toText ∧ text ≠ "||".toText) :
    tokenMarks.delta token = 0 ∧ tokenMarks.junction? token = none := by
  obtain ⟨opens, closes, and, or⟩ := other
  exact ⟨delta_eq_zero (ne_of_shape h opens) (ne_of_shape h closes),
    junction?_eq_none (ne_of_shape h and) (ne_of_shape h or)⟩

theorem flat_of_kind {token : Token} (h : token.kind ≠ .op) :
    tokenMarks.delta token = 0 ∧ tokenMarks.junction? token = none := by
  have ne (mark : Text) : token.shape ≠ (.op, mark) := fun same => h (congrArg Prod.fst same)
  exact ⟨delta_eq_zero (ne _) (ne _), junction?_eq_none (ne _) (ne _)⟩

/-- An operator opens and closes nothing, and joins only if it is one of the two loosest. -/
theorem Denotes.flat {token : Token} {level : Level} {op : BinaryOp} (h : Denotes token level op) :
    tokenMarks.delta token = 0 ∧ (Tight (.level level) → tokenMarks.junction? token = none) := by
  obtain ⟨kind, writes⟩ := h
  have shape : token.shape = (.op, token.text) := Prod.ext kind rfl
  generalize token.text = text at writes shape
  cases writes with
  | or | and =>
    exact ⟨delta_eq_zero (ne_of_shape shape (by decide)) (ne_of_shape shape (by decide)), False.elim⟩
  | eq | ne | lt | gt | le | ge | add | sub | mul | div | mod =>
    have flat := flat_of_shape shape (by decide)
    exact ⟨flat.1, fun _ => flat.2⟩

namespace Nested

variable {Q : Int → List Token → Prop} (nested : Nested Q) {d : Int}
include nested

theorem flat {token : Token} (h : tokenMarks.delta token = 0 ∧ tokenMarks.junction? token = none) :
    Q d [token] :=
  nested.single h.1 (.inr h.2)

theorem segments {tokens : List Token} {segments : List Segment} (first : Q d tokens)
    (marks : ∀ s ∈ segments, Q d [s.mark]) (inner : ∀ s ∈ segments, Q d s.tokens) :
    Q d (tokens ++ segments.flatMap Segment.written) := by
  induction segments generalizing tokens with
  | nil => simpa using first
  | cons s segments ih =>
    rw [List.forall_mem_cons] at marks inner
    rw [List.flatMap_cons, ← List.append_assoc]
    exact ih (nested.append first (nested.append marks.1 inner.1)) marks.2 inner.2

theorem of_derives {symbol : Symbol} {tokens : List Token} {e : Expr} (h : Derives symbol tokens e) :
    ∀ {d : Int}, 0 ≤ d → 0 < d ∨ Tight symbol → Q d tokens := by
  induction h with
  | @level level tokens e steps first operators operands ih ihs =>
    intro d le deep
    have inner : 0 < d ∨ Tight (operandOf level) := deep.imp_right tight_operandOf
    rw [stepTokens_eq]
    refine nested.segments (ih le inner) ?_ ?_
    · intro s mem
      obtain ⟨step, among, rfl⟩ := List.mem_map.mp mem
      have flat := (operators step among).flat
      exact nested.single flat.1 (deep.imp_right flat.2)
    · intro s mem
      obtain ⟨step, among, rfl⟩ := List.mem_map.mp mem
      exact ihs step among le inner
  | not mark _ ih | minus mark _ ih | plus mark _ ih =>
    intro d le _
    exact nested.append (nested.flat (flat_of_shape mark (by decide))) (ih le (.inr trivial))
  | primary _ ih =>
    intro d le _
    exact ih le (.inr trivial)
  | @literal token v decoded =>
    intro d _ _
    refine nested.flat (flat_of_kind fun kind => ?_)
    rw [Token.literal?, kind] at decoded
    cases decoded
  | constant kind _ | name kind _ =>
    intro d _ _
    exact nested.flat (flat_of_kind (by rw [kind]; decide))
  | @callEmpty token opening closing kind free opens closes =>
    intro d le _
    have parens : Q d [opening, closing] := nested.enclose opens closes le nested.nil
    exact nested.append (nested.flat (flat_of_kind (by rw [kind]; decide))) parens
  | @call token opening closing tokens e others kind free opens closes first commas args ih ihs =>
    intro d le _
    have deep : 0 ≤ d + 1 ∧ 0 < d + 1 := by omega
    have inner : Q (d + 1) (tokens ++ others.flatMap Segment.written) :=
      nested.segments (ih deep.1 (.inl deep.2))
        (fun s mem => nested.flat (flat_of_shape (commas s mem) (by decide)))
        (fun s mem => ihs s mem deep.1 (.inl deep.2))
    exact nested.append (nested.flat (flat_of_kind (by rw [kind]; decide)))
      (nested.enclose opens closes le inner)
  | parens opens closes _ ih =>
    intro d le _
    exact nested.enclose opens closes le (ih (by omega) (.inl (by omega)))

end Nested

theorem opens_of_shape {token : Token} (h : token.shape = (.op, "(".toText)) :
    tokenMarks.delta token = 1 ∧ tokenMarks.junction? token = none := by
  show marks.delta token.shape = 1 ∧ marks.junction? token.shape = none
  rw [h]
  decide

theorem closes_of_shape {token : Token} (h : token.shape = (.op, ")".toText)) :
    tokenMarks.delta token = -1 ∧ tokenMarks.junction? token = none := by
  show marks.delta token.shape = -1 ∧ marks.junction? token.shape = none
  rw [h]
  decide

theorem nested_passes : Nested tokenMarks.Passes where
  nil := Nesting.passes_nil
  append := Nesting.Passes.append
  single flat deep := Nesting.passes_singleton flat (deep.imp_left (by omega))
  enclose opens closes _ inner := inner.enclose (opens_of_shape opens) (closes_of_shape closes)

theorem nested_keeps : Nested fun d xs => 0 < d → tokenMarks.Keeps d xs where
  nil _ := Nesting.keeps_nil
  append first second deep := (first deep).append (second deep)
  single flat _ _ := Nesting.keeps_singleton flat
  enclose opens closes _ inner deep :=
    (inner (by omega)).enclose deep (opens_of_shape opens).1 (closes_of_shape closes).1

/-! ## Parentheses around the whole -/

/-- Tokens that open with a parenthesis which their last closes are derived from what stands between. -/
theorem derives_inside {symbol : Symbol} {tokens : List Token} {e : Expr} (h : Derives symbol tokens e)
    {opening : Token} (first : opening ∈ tokens.head?) (opens : opening.shape = (.op, "(".toText))
    {rest : List Token} (closed : tokenMarks.closesLast 0 (tokens ++ rest) = true) :
    rest = [] ∧ ∃ inner closing, tokens = opening :: (inner ++ [closing]) ∧ Derives (.level .or) inner e := by
  have other {sign : Token} {text : Text} (mark : sign.shape = (.op, text)) (apart : text ≠ "(".toText)
      (same : sign = opening) : False :=
    ne_of_shape mark apart (same ▸ opens)
  have named {token : Token} (kind : token.kind ≠ .op) (same : token = opening) : False :=
    kind (same ▸ congrArg Prod.fst opens)
  induction h generalizing rest with
  | @level level tokens e steps derived operators _ ih _ =>
    obtain ⟨token, others, rfl, -⟩ := exists_cons_of_derives derived
    rw [List.append_assoc] at closed
    obtain ⟨nothing, inner, closing, same, inside⟩ := ih first closed
    obtain ⟨empty, rfl⟩ := List.append_eq_nil_iff.mp nothing
    obtain rfl : steps = [] := by
      cases steps with
      | nil => rfl
      | cons s steps => cases empty
    refine ⟨rfl, inner, closing, ?_, inside⟩
    rw [stepTokens, List.flatMap_nil, List.append_nil, same]
  | not mark _ _ | minus mark _ _ | plus mark _ _ =>
    exact (other mark (by decide) (Option.some.inj first)).elim
  | primary _ ih => exact ih first closed
  | @literal token v decoded =>
    refine (named (fun kind => ?_) (Option.some.inj first)).elim
    rw [Token.literal?, kind] at decoded
    cases decoded
  | constant kind _ | name kind _ | callEmpty kind _ _ _ | call kind _ _ _ _ _ _ _ _ =>
    exact (named (by rw [kind]; decide) (Option.some.inj first)).elim
  | @parens opening' closing tokens e opens' closes inner _ =>
    obtain rfl : opening' = opening := Option.some.inj first
    have keeps := nested_keeps.of_derives inner (d := 0 + 1) (by decide) (.inl (by decide)) (by decide)
    have start : ¬(tokenMarks.delta opening' = -1 ∧ (0 : Int) = 1) := fun h => absurd h.2 (by decide)
    rw [List.cons_append, List.append_assoc, Nesting.closesLast, if_neg start,
      (opens_of_shape opens).1, keeps, List.singleton_append, Nesting.closesLast,
      if_pos ⟨(closes_of_shape closes).1, by decide⟩] at closed
    exact ⟨List.isEmpty_iff.mp closed, tokens, closing, rfl, inner⟩

/-! ## Derivations and positions -/

theorem exists_segments {ι : Type} {steps : List (ι × Segment)} {tokens : List Token}
    (same : tokens.map shape = (steps.flatMap fun s => s.2.written).map shape) :
    ∃ steps' : List (ι × Segment), tokens = steps'.flatMap (fun s => s.2.written) ∧
      (steps'.map fun s => (s.1, s.2.expr)) = (steps.map fun s => (s.1, s.2.expr)) ∧
      ∀ s' ∈ steps', ∃ s ∈ steps, s'.1 = s.1 ∧ s'.2.mark.shape = s.2.mark.shape ∧
        s'.2.tokens.map shape = s.2.tokens.map shape ∧ s'.2.expr = s.2.expr := by
  induction steps generalizing tokens with
  | nil => exact ⟨[], by simpa using same, rfl, by simp⟩
  | cons s steps ih =>
    rw [List.flatMap_cons, List.map_append] at same
    obtain ⟨front, later, rfl, here, rest⟩ := List.map_eq_append_iff.mp same
    obtain ⟨mark, operand, rfl, first, second⟩ := List.map_eq_cons_iff.mp here
    obtain ⟨steps', rfl, exprs, each⟩ := ih rest
    refine ⟨(s.1, ⟨mark, operand, s.2.expr⟩) :: steps', rfl, by rw [List.map_cons, List.map_cons, exprs], ?_⟩
    refine List.forall_mem_cons.mpr ⟨⟨s, List.mem_cons_self, rfl, first, second, rfl⟩, fun s' mem => ?_⟩
    obtain ⟨t, among, like⟩ := each s' mem
    exact ⟨t, List.mem_cons_of_mem s among, like⟩

theorem exists_arguments {others : List Segment} {tokens : List Token}
    (same : tokens.map shape = (others.flatMap Segment.written).map shape) :
    ∃ others' : List Segment, tokens = others'.flatMap Segment.written ∧
      others'.map Segment.expr = others.map Segment.expr ∧
      ∀ s' ∈ others', ∃ s ∈ others, s'.mark.shape = s.mark.shape ∧
        s'.tokens.map shape = s.tokens.map shape ∧ s'.expr = s.expr := by
  have unpaired (steps : List (Unit × Segment)) :
      (steps.flatMap fun s => s.2.written) = (steps.map Prod.snd).flatMap Segment.written := by
    rw [List.flatMap_map]
  have paired : (others.map ((), ·)).map Prod.snd = others := by simp
  rw [← paired, ← unpaired] at same
  obtain ⟨steps, rfl, exprs, each⟩ := exists_segments same
  refine ⟨steps.map Prod.snd, unpaired steps, ?_, fun s' mem => ?_⟩
  · have second := congrArg (List.map Prod.snd) exprs
    simp only [List.map_map] at second ⊢
    exact second
  · obtain ⟨step, among, rfl⟩ := List.mem_map.mp mem
    obtain ⟨t, member, -, like⟩ := each step among
    obtain ⟨s, other, rfl⟩ := List.mem_map.mp member
    exact ⟨s, other, like⟩

theorem exists_enclosed {opening closing : Token} (inner : List Token) {tokens : List Token}
    (same : tokens.map shape = (opening :: (inner ++ [closing])).map shape) :
    ∃ opening' inner' closing', tokens = opening' :: (inner' ++ [closing']) ∧
      opening'.shape = opening.shape ∧ inner'.map shape = inner.map shape ∧ closing'.shape =
        closing.shape := by
  obtain ⟨opening', rest, rfl, first, more⟩ := List.map_eq_cons_iff.mp same
  rw [List.map_append] at more
  obtain ⟨inner', last, rfl, inside, ends⟩ := List.map_eq_append_iff.mp more
  obtain ⟨closing', rfl, third⟩ := List.map_eq_singleton_iff.mp ends
  exact ⟨opening', inner', closing', rfl, first, inside, third⟩

theorem chain_congr {left : Expr} {steps steps' : List (BinaryOp × Segment)}
    (same : (steps'.map fun s => (s.1, s.2.expr)) = (steps.map fun s => (s.1, s.2.expr))) :
    chain left steps' = chain left steps := by
  have mapped (steps : List (BinaryOp × Segment)) : chain left steps =
      (steps.map fun s => (s.1, s.2.expr)).foldl (fun left s => .binary s.1 left s.2) left := by
    rw [List.foldl_map]
    rfl
  rw [mapped, mapped, same]

theorem literal?_congr {token token' : Token} (same : token'.shape = token.shape) :
    token'.literal? = token.literal? := by
  obtain ⟨kind, text⟩ := Prod.mk.inj same
  rw [Token.literal?, Token.literal?, kind, text]

theorem nameOf_congr {token token' : Token} (same : token'.shape = token.shape) :
    nameOf token' = nameOf token :=
  congrArg (Text.dropLeading '#') (Prod.mk.inj same).2

theorem Derives.of_shape {symbol : Symbol} {tokens tokens' : List Token} {e : Expr}
    (h : Derives symbol tokens e)
    (same : tokens'.map shape = tokens.map shape) : Derives symbol tokens' e := by
  have kind_eq {token token' : Token} (same : token'.shape = token.shape) : token'.kind = token.kind :=
    (Prod.mk.inj same).1
  induction h generalizing tokens' with
  | @level level tokens e steps first operators operands ih ihs =>
    rw [List.map_append] at same
    obtain ⟨front, later, rfl, here, rest⟩ := List.map_eq_append_iff.mp same
    obtain ⟨steps', rfl, exprs, each⟩ := exists_segments rest
    rw [← chain_congr exprs]
    refine .level (ih here) (fun s' mem => ?_) (fun s' mem => ?_)
    · obtain ⟨s, among, op, mark, -, -⟩ := each s' mem
      obtain ⟨kind, writes⟩ := operators s among
      rw [op]
      exact ⟨(kind_eq mark).trans kind, (Prod.mk.inj mark).2 ▸ writes⟩
    · obtain ⟨s, among, -, -, inner, expr⟩ := each s' mem
      rw [expr]
      exact ihs s among inner
  | not mark _ ih =>
    obtain ⟨sign, operand, rfl, first, rest⟩ := List.map_eq_cons_iff.mp same
    exact .not (first.trans mark) (ih rest)
  | minus mark _ ih =>
    obtain ⟨sign, operand, rfl, first, rest⟩ := List.map_eq_cons_iff.mp same
    exact .minus (first.trans mark) (ih rest)
  | plus mark _ ih =>
    obtain ⟨sign, operand, rfl, first, rest⟩ := List.map_eq_cons_iff.mp same
    exact .plus (first.trans mark) (ih rest)
  | primary _ ih => exact .primary (ih same)
  | literal decoded =>
    obtain ⟨token, rfl, first⟩ := List.map_eq_singleton_iff.mp same
    exact .literal ((literal?_congr first).trans decoded)
  | constant kind stands =>
    obtain ⟨token, rfl, first⟩ := List.map_eq_singleton_iff.mp same
    exact .constant ((kind_eq first).trans kind) (nameOf_congr first ▸ stands)
  | name kind free =>
    obtain ⟨token, rfl, first⟩ := List.map_eq_singleton_iff.mp same
    rw [← nameOf_congr first] at free ⊢
    exact .name ((kind_eq first).trans kind) free
  | callEmpty kind free opens closes =>
    obtain ⟨token, parens, rfl, head, rest⟩ := List.map_eq_cons_iff.mp same
    obtain ⟨opening, inner, closing, rfl, first, inside, last⟩ := exists_enclosed [] rest
    obtain rfl := List.map_eq_nil_iff.mp inside
    rw [← nameOf_congr head] at free ⊢
    exact .callEmpty ((kind_eq head).trans kind) free (first.trans opens) (last.trans closes)
  | @call token opening closing tokens e others kind free opens closes first commas args ih ihs =>
    obtain ⟨token', parens, rfl, head, rest⟩ := List.map_eq_cons_iff.mp same
    obtain ⟨opening', inner, closing', rfl, start, inside, last⟩ := exists_enclosed _ rest
    rw [List.map_append] at inside
    obtain ⟨front, later, rfl, here, more⟩ := List.map_eq_append_iff.mp inside
    obtain ⟨others', rfl, exprs, each⟩ := exists_arguments more
    rw [← exprs, ← nameOf_congr head]
    rw [← nameOf_congr head] at free
    refine .call ((kind_eq head).trans kind) free (start.trans opens) (last.trans closes) (ih here)
      (fun s' mem => ?_) (fun s' mem => ?_)
    · obtain ⟨s, among, mark, -, -⟩ := each s' mem
      exact mark.trans (commas s among)
    · obtain ⟨s, among, -, inner, expr⟩ := each s' mem
      rw [expr]
      exact ihs s among inner
  | parens opens closes _ ih =>
    obtain ⟨opening, inner, closing, rfl, first, inside, last⟩ := exists_enclosed _ same
    exact .parens (first.trans opens) (last.trans closes) (ih inside)

/-! ## Values of operands -/

def Worth (env : Environment) (tokens : List Token) (v : Value) : Prop :=
  ∃ e, Derives (.level .or) tokens e ∧ e.eval env = .ok v ∧ v ≠ .none

variable {env : Environment} {v : Value}

theorem eval_chain {op : BinaryOp} (f : Value → Value → Value)
    (total : ∀ a b, Value.binary op a b = .ok (f a b))
    (left : Expr) {steps : List (BinaryOp × Segment)} (same : ∀ s ∈ steps, s.1 = op)
    (value : (chain left steps).eval env = .ok v) (present : v ≠ .none) :
    ∃ (a : Value) (valued : List ((BinaryOp × Segment) × Value)), left.eval env = .ok a ∧ a ≠ .none ∧
      valued.map Prod.fst = steps ∧ (∀ p ∈ valued, p.1.2.expr.eval env = .ok p.2 ∧ p.2 ≠ .none) ∧
      v = (valued.map Prod.snd).foldl f a := by
  have is_present {w w' : Value} (h : w.present = .ok w') : w' = w ∧ w ≠ .none := by
    cases w <;> cases h <;> exact ⟨rfl, by simp⟩
  induction steps generalizing left with
  | nil => exact ⟨v, [], value, present, rfl, by simp, rfl⟩
  | cons s steps ih =>
    obtain ⟨first, same⟩ := List.forall_mem_cons.mp same
    obtain ⟨c, valued, made, -, rfl, values, joined⟩ := ih (.binary s.1 left s.2.expr) same value
    rw [Expr.eval, first] at made
    obtain ⟨a, here, further⟩ := ok_of_bind made
    obtain ⟨a', there, right⟩ := ok_of_bind further
    obtain ⟨b, next, further'⟩ := ok_of_bind right
    obtain ⟨b', there', result⟩ := ok_of_bind further'
    obtain ⟨rfl, known⟩ := is_present there
    obtain ⟨rfl, known'⟩ := is_present there'
    rw [total] at result
    cases result
    exact ⟨a', (s, b') :: valued, here, known, rfl, List.forall_mem_cons.mpr ⟨⟨next, known'⟩, values⟩, joined⟩

theorem Derives.whole {tokens : List Token} {e : Expr} (h : Derives (.level .equality) tokens e) :
    Derives (.level .or) tokens e :=
  Derives.loosen (j := 0) (k := 2) h (by decide)

theorem split_steps {j : Junction} {tokens rest : List Token} {steps : List (BinaryOp × Segment)}
    (first : tokenMarks.Passes 0 tokens) (joins : ∀ s ∈ steps, tokenMarks.junction? s.2.mark = some j)
    (operands : ∀ s ∈ steps, tokenMarks.Passes 0 s.2.tokens) (stop : (tokenMarks.split 0 rest).1 = []) :
    tokenMarks.split 0 (tokens ++ (stepTokens steps ++ rest)) =
      (tokens, (steps.map fun s => (j, s.2.tokens)) ++ (tokenMarks.split 0 rest).2) := by
  induction steps generalizing tokens with
  | nil =>
    rw [stepTokens, List.flatMap_nil, List.nil_append, first, stop, List.append_nil]
    rfl
  | cons s steps ih =>
    rw [List.forall_mem_cons] at joins operands
    have later := ih operands.1 joins.2 operands.2
    have next : stepTokens (s :: steps) ++ rest = s.2.mark :: (s.2.tokens ++ (stepTokens steps ++ rest)) := by
      simp [stepTokens, Segment.written]
    rw [first, next, Nesting.split_of_some joins.1, later]
    simp

theorem Denotes.joins {j : Junction} {token : Token} {op : BinaryOp} (h : Denotes token j.level op) :
    op = j.op ∧ tokenMarks.junction? token = some j := by
  obtain ⟨kind, writes⟩ := h
  have shape : token.shape = (.op, token.text) := Prod.ext kind rfl
  generalize token.text = text at writes shape
  have found : tokenMarks.junction? token = marks.junction? (.op, text) := congrArg marks.junction? shape
  cases j <;> cases writes <;> exact ⟨rfl, found.trans (by decide)⟩

/-- The operands of `&&`, with their values. -/
theorem exists_conjuncts {tokens : List Token} {e : Expr} (h : Derives (.level .and) tokens e)
    (value : e.eval env = .ok v) (present : v ≠ .none) :
    ∃ (first : List Token) (a : Value) (others : List (List Token × Value)), Worth env first a ∧
      (∀ o ∈ others, Worth env o.1 o.2) ∧ (others.map Prod.snd).foldl Value.conjunction a = v ∧
      ∀ rest, (tokenMarks.split 0 rest).1 = [] → tokenMarks.split 0 (tokens ++ rest) =
        (first, (others.map fun o => (.and, o.1)) ++ (tokenMarks.split 0 rest).2) := by
  cases h with
  | @level _ tokens e steps first operators operands =>
    obtain ⟨a, valued, start, known, rfl, values, rfl⟩ := eval_chain Value.conjunction
      (fun _ _ => (rfl : Value.binary .and _ _ = _)) _
        (fun s mem => (Denotes.joins (j := .and) (operators s mem)).1) value present
    have passes {τ : List Token} {e : Expr} (h : Derives (.level .equality) τ e) : tokenMarks.Passes 0 τ :=
      nested_passes.of_derives h (Int.le_refl 0) (.inr trivial)
    have inner : ∀ p ∈ valued, Derives (.level .equality) p.1.2.tokens p.1.2.expr := fun p mem =>
      operands p.1 (List.mem_map_of_mem mem)
    refine ⟨tokens, a, valued.map fun p => (p.1.2.tokens, p.2), ⟨e, first.whole, start, known⟩, ?_, ?_, ?_⟩
    · intro o mem
      obtain ⟨p, among, rfl⟩ := List.mem_map.mp mem
      exact ⟨p.1.2.expr, (inner p among).whole, values p among⟩
    · rw [List.map_map]
      rfl
    · intro rest stop
      have joins : ∀ s ∈ valued.map Prod.fst, tokenMarks.junction? s.2.mark = some .and :=
        fun s mem => (Denotes.joins (j := .and) (operators s mem)).2
      rw [List.append_assoc, split_steps (passes first) joins (fun s mem => passes (operands s mem)) stop,
        List.map_map, List.map_map]
      rfl

/-- The operands of a conjunction, before operands that are joined to it. -/
def conjoined (conjuncts : List (List Token × Value)) (others : List (Junction × List Token × Value)) :
    List (Junction × List Token × Value) :=
  (conjuncts.map fun o => (.and, o)) ++ others

section Conjoined

variable {conjuncts : List (List Token × Value)} {others : List (Junction × List Token × Value)}

theorem worth_conjoined (worths : ∀ o ∈ conjuncts, Worth env o.1 o.2)
    (worths' : ∀ o ∈ others, Worth env o.2.1 o.2.2) :
    ∀ o ∈ conjoined conjuncts others, Worth env o.2.1 o.2.2 := by
  intro o mem
  rcases List.mem_append.mp mem with mem | mem
  · obtain ⟨c, among, rfl⟩ := List.mem_map.mp mem
    exact worths c among
  · exact worths' o mem

theorem tokens_conjoined : (conjoined conjuncts others).map (fun o => (o.1, o.2.1)) =
    (conjuncts.map fun o => (.and, o.1)) ++ others.map fun o => (o.1, o.2.1) := by
  simp [conjoined]

theorem joined_conjoined (sum : Option Value) (v : Value) :
    Value.joined sum v ((conjoined conjuncts others).map fun o => (o.1, o.2.2)) =
      Value.joined sum ((conjuncts.map Prod.snd).foldl Value.conjunction v)
        (others.map fun o => (o.1, o.2.2)) := by
  induction conjuncts generalizing v with
  | nil => rfl
  | cons c conjuncts ih => exact ih (v.conjunction c.2)

end Conjoined

/-- Behind the first operand of `||`: the operands of all conjunctions, with their values. -/
theorem exists_disjuncts {valued : List ((BinaryOp × Segment) × Value)}
    (operators : ∀ p ∈ valued, Denotes p.1.2.mark .or p.1.1)
    (operands : ∀ p ∈ valued, Derives (.level .and) p.1.2.tokens p.1.2.expr)
    (values : ∀ p ∈ valued, p.1.2.expr.eval env = .ok p.2 ∧ p.2 ≠ .none) :
    ∃ others : List (Junction × List Token × Value), (∀ o ∈ others, Worth env o.2.1 o.2.2) ∧
      tokenMarks.split 0 (stepTokens (valued.map Prod.fst)) = ([], others.map fun o => (o.1, o.2.1)) ∧
      ∀ sum v, Value.joined sum v (others.map fun o => (o.1, o.2.2)) =
        (valued.map Prod.snd).foldl Value.disjunction (sum.elim v (·.disjunction v)) := by
  induction valued with
  | nil => exact ⟨[], by simp, rfl, fun _ _ => rfl⟩
  | cons p valued ih =>
    rw [List.forall_mem_cons] at operators operands values
    obtain ⟨others, worths, splits, joins⟩ := ih operators.2 operands.2 values.2
    obtain ⟨first, a, conjuncts, worth, worths', joined, inner⟩ :=
      exists_conjuncts operands.1 values.1.1 values.1.2
    have tail := inner (stepTokens (valued.map Prod.fst)) (by rw [splits])
    have tokens : stepTokens ((p :: valued).map Prod.fst) =
        p.1.2.mark :: (p.1.2.tokens ++ stepTokens (valued.map Prod.fst)) := by
      simp [stepTokens, Segment.written]
    refine ⟨(.or, first, a) :: conjoined conjuncts others, ?_, ?_, ?_⟩
    · exact List.forall_mem_cons.mpr ⟨worth, worth_conjoined worths' worths⟩
    · rw [tokens, Nesting.split_of_some (Denotes.joins (j := .or) operators.1).2, tail, splits, List.map_cons,
        tokens_conjoined]
    · intro sum v
      rw [List.map_cons, Value.joined, joined_conjoined, joins, joined]
      rfl

/-- The operands that are joined outside of parentheses have values of their own, and these values joined are
the value of the whole. -/
theorem exists_operands {tokens : List Token} (h : Worth env tokens v) :
    ∃ (first : List Token) (a : Value) (others : List (Junction × List Token × Value)), Worth env first a ∧
      (∀ o ∈ others, Worth env o.2.1 o.2.2) ∧
      tokenMarks.split 0 tokens = (first, others.map fun o => (o.1, o.2.1)) ∧
      Value.joined none a (others.map fun o => (o.1, o.2.2)) = v := by
  obtain ⟨e, derived, value, present⟩ := h
  cases derived with
  | @level _ tokens e steps start operators operands =>
    obtain ⟨c, valued, here, known, rfl, values, rfl⟩ := eval_chain Value.disjunction
      (fun _ _ => (rfl : Value.binary .or _ _ = _)) _
        (fun s mem => (Denotes.joins (j := .or) (operators s mem)).1) value present
    obtain ⟨others, worths, splits, joins⟩ := exists_disjuncts
      (fun p mem => operators p.1 (List.mem_map_of_mem mem))
      (fun p mem => operands p.1 (List.mem_map_of_mem mem)) values
    obtain ⟨first, a, conjuncts, worth, worths', joined, inner⟩ := exists_conjuncts start here known
    have whole := inner (stepTokens (valued.map Prod.fst)) (by rw [splits])
    refine ⟨first, a, conjoined conjuncts others, worth, worth_conjoined worths' worths, ?_, ?_⟩
    · rw [whole, splits, tokens_conjoined]
    · rw [joined_conjoined, joins, joined]
      rfl

end Grammar
end SclNarrator
