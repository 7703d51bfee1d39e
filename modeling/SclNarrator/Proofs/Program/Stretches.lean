import SclNarrator.Proofs.Expr.Literals
import SclNarrator.Proofs.Program.Reference
import SclNarrator.Proofs.Text.Keyword
import SclNarrator.Run.Execute

/-!
Where the texts that a run works on stand in the code. What is evaluated as a condition, an operand or a
parameter is a stretch of the code that it is read from, and so are the bodies of an `IF` structure. A
header that is taken out of the code starts with a letter that no word character touches
(`IsHeader`). An assignment has an identifier as its target, and an expression whose apostrophes pair up
(`assignment_eq_some`).
-/

namespace SclNarrator

/-! ## Texts -/

namespace Text

theorem trim_infix (t : Text) : trim t <:+: t := by
  have front : trimLeft t <:+ t := List.dropWhile_suffix _
  exact (trimRight_front _).isInfix.trans front.isInfix

theorem count_trim {c : CodePoint} (visible : isBlank c = false) (t : Text) :
    (trim t).count c = t.count c := by
  have left (t : Text) : (trimLeft t).count c = t.count c := by
    have unseen : c ∉ t.takeWhile isBlank := fun mem => by
      rw [List.mem_takeWhile_imp mem] at visible
      cases visible
    have whole := congrArg (List.count c) (List.takeWhile_append_dropWhile (p := isBlank) (l := t))
    rwa [List.count_append, List.count_eq_zero_of_not_mem unseen, Nat.zero_add] at whole
  rw [trim, trimRight, List.count_reverse, left, List.count_reverse, left]

theorem infix_of_mem_partsAt {separator : CodePoint} {t u : Text} (h : u ∈ partsAt separator t) :
    u <:+: t := by
  obtain ⟨first, later, split, whole⟩ := @partsAt_eq_cons t separator
  rw [split, List.mem_cons] at h
  rw [whole]
  rcases h with rfl | mem
  · exact (List.prefix_append ..).isInfix
  · obtain ⟨before, behind, rfl⟩ := List.append_of_mem mem
    exact ⟨first ++ (before.flatMap (separator :: ·) ++ [separator]),
      behind.flatMap (separator :: ·), by simp⟩

theorem search_eq_some {α : Type} {p : Pattern α} {t before after : Text} {v : α}
    (h : search p t = some (before, v, after)) : ∃ y, t = before ++ y ∧ p before.reverse y =
      some (v, after) := by
  have general (t : Text) : ∀ back, searchFrom p back t = some (before, v, after) →
      ∃ y, back.reverse ++ t = before ++ y ∧ p before.reverse y = some (v, after) := by
    induction t with
    | nil =>
      intro back found
      obtain ⟨⟨a, left⟩, here, same⟩ := Option.map_eq_some_iff.mp found
      cases same
      exact ⟨[], rfl, by rwa [List.reverse_reverse]⟩
    | cons c t ih =>
      intro back found
      rw [searchFrom] at found
      split at found
      · next here =>
        cases found
        exact ⟨c :: t, rfl, by rwa [List.reverse_reverse]⟩
      · have later := ih (c :: back) found
        rwa [List.reverse_cons, List.append_assoc, List.singleton_append] at later
  exact general t [] h

end Text

namespace Source

def arrows : List Text := [[.char ':', .char '='], [.char '=', .char '>']]

theorem arrow?_eq_some {t arrow tail : Text} (h : arrow? t = some (arrow, tail)) :
    t = arrow ++ tail ∧ arrow ∈ arrows := by
  unfold arrow? at h
  split at h
  · cases h
    exact ⟨rfl, by decide⟩
  · cases h
    exact ⟨rfl, by decide⟩
  · cases h

end Source

namespace Program

open Source (assignment call)

/-! ## Assignments -/

theorem identifier?_eq_some {t name rest : Text} (h : Source.identifier? t = some (name, rest)) :
    t = name ++ rest ∧ isIdentifier name = true := by
  cases t with
  | nil => cases h
  | cons c t =>
    rw [Source.identifier?] at h
    split at h
    · next start =>
      cases h
      refine ⟨by rw [List.cons_append, List.takeWhile_append_dropWhile], ?_⟩
      rw [isIdentifier, start, Bool.true_and, List.all_eq_true]
      exact fun d mem => List.mem_takeWhile_imp mem
    · cases h

theorem target?_eq_some {t name body : Text} (h : Source.target? t = some (name, body)) :
    isIdentifier name = true ∧ name <:+: t ∧ .char ':' :: .char '=' :: body <:+ t := by
  unfold Source.target? at h
  split at h
  · cases h
  · next name' rest found =>
    split at h
    · next body' arrow =>
      obtain ⟨rfl, rfl⟩ := Prod.mk.inj (Option.some_inj.mp h)
      obtain ⟨whole, identifier⟩ := identifier?_eq_some found
      have suffix : name' ++ rest <:+ t := whole ▸ (suffix_dropOne _ _).trans (suffix_dropOne _ _)
      refine ⟨identifier, (List.prefix_append _ _).isInfix.trans suffix.isInfix, ?_⟩
      rw [← arrow]
      exact (List.dropWhile_suffix _).trans
        ((suffix_dropOne _ _).trans ((List.suffix_append _ _).trans suffix))
    · cases h

/-- The text before the `;` that ends a statement has apostrophes that pair up, counted from outside of a
literal. -/
theorem statement?_eq_some {inside : Bool} {t body after : Text}
    (h : Source.statement? inside t = some (body, after)) :
    t = body ++ .char ';' :: after ∧ (body.count (.char '\'') + inside.toNat) % 2 = 0 := by
  induction t generalizing inside body with
  | nil => cases h
  | cons c t ih =>
    rw [Source.statement?] at h
    cases inside with
    | true =>
      rw [if_pos rfl] at h
      obtain ⟨⟨body', after'⟩, later, same⟩ := Option.map_eq_some_iff.mp h
      cases same
      obtain ⟨rfl, even⟩ := ih later
      refine ⟨rfl, ?_⟩
      by_cases quote : c = '\''
      · subst quote
        simp only [bne_self_eq_false, Bool.toNat_false] at even
        rw [List.count_cons_self, Bool.toNat_true]
        omega
      · have other : (c != '\'') = true := by simpa using quote
        rw [other] at even
        rwa [List.count_cons_of_ne quote]
    | false =>
      rw [if_neg (by simp)] at h
      split at h
      · next mark =>
        cases h
        exact ⟨by rw [mark]; rfl, rfl⟩
      · split at h
        · cases h
        · obtain ⟨⟨body', after'⟩, later, same⟩ := Option.map_eq_some_iff.mp h
          cases same
          obtain ⟨rfl, even⟩ := ih later
          refine ⟨rfl, ?_⟩
          by_cases quote : c = '\''
          · subst quote
            simp only [beq_self_eq_true, Bool.toNat_true] at even
            rw [List.count_cons_self, Bool.toNat_false]
            omega
          · have other : (c == '\'') = false := by simpa using quote
            rw [other] at even
            rwa [List.count_cons_of_ne quote]

theorem assignment_eq_some {back t rest : Text} {a : Source.Assignment}
    (h : assignment back t = some (a, rest)) :
    (∃ m, m ≠ [] ∧ t = m ++ rest) ∧ isIdentifier a.target = true ∧ a.target <:+: t ∧
      a.expression <:+: t ∧ a.expression.count (.char '\'') % 2 = 0 := by
  unfold assignment at h
  split at h
  · cases h
  · next name body found =>
    obtain ⟨identifier, inside, arrow⟩ := target?_eq_some found
    have suffix : body <:+ t := (List.suffix_cons _ _).trans ((List.suffix_cons _ _).trans arrow)
    split at h
    · cases h
    · cases h
    · next expression rest' _ found' =>
      cases h
      obtain ⟨whole, even⟩ := statement?_eq_some found'
      obtain ⟨front, rfl⟩ := suffix
      have part : expression <:+: front ++ body := ⟨front, .char ';' :: rest, by rw [whole]; simp⟩
      refine ⟨⟨front ++ (expression ++ [.char ';']), by simp, by rw [whole]; simp⟩, identifier, inside,
        (Text.trim_infix _).trans part, ?_⟩
      rw [Text.count_trim (by decide)]
      exact even

/-! ## Calls -/

/-- A call is an instance, an opening parenthesis, the parameters, a closing parenthesis, and blanks and a
`;` behind it. -/
theorem call_eq_some {back t rest : Text} {c : Source.Call} (h : call back t = some (c, rest)) :
    ∃ front after, t = front ++ (c.parameters ++ .char ')' :: after) ∧ front ≠ [] ∧
      rest = Source.dropOne ';' (after.dropWhile isBlank) := by
  unfold call at h
  split at h
  · cases h
  · next r inst =>
    split at h
    · next body opens =>
      simp only at h
      split at h
      · next after closes =>
        split at h
        · cases h
          have inside : r.dropWhile isBlank <:+ t :=
            (List.dropWhile_suffix _).trans (suffix_of_afterInstance? inst)
          obtain ⟨front, rfl⟩ := inside
          rw [drop_length_takeWhile] at closes
          have whole : body = _ ++ .char ')' :: after := closes ▸ List.takeWhile_append_dropWhile.symm
          refine ⟨front ++ [.char '('], after, ?_, by simp, rfl⟩
          rw [opens, List.append_assoc, List.singleton_append, ← whole]
        · cases h
      · cases h
    · cases h

theorem exists_dropOne (c : CodePoint) (t : Text) :
    ∃ front, t = front ++ Source.dropOne c t ∧ ∀ d ∈ front, d = c := by
  cases t with
  | nil => exact ⟨[], rfl, by simp⟩
  | cons d t =>
    rw [Source.dropOne]
    split
    · next same => exact ⟨[d], rfl, by simpa using same⟩
    · exact ⟨[], rfl, by simp⟩

theorem call_front {back t rest : Text} {c : Source.Call} (h : call back t = some (c, rest)) :
    ∃ x s, t = x ++ s ++ rest ∧ s ≠ [] ∧ ∀ d ∈ s, isWord d = false := by
  obtain ⟨front, after, rfl, -, rfl⟩ := call_eq_some h
  obtain ⟨mark, left, marks⟩ := exists_dropOne ';' (after.dropWhile isBlank)
  refine ⟨front ++ c.parameters, .char ')' :: (after.takeWhile isBlank ++ mark), ?_, by simp, ?_⟩
  · have whole := List.takeWhile_append_dropWhile (p := isBlank) (l := after)
    rw [left] at whole
    simp [whole]
  · refine List.forall_mem_cons.mpr ⟨by decide, fun d mem => ?_⟩
    rcases List.mem_append.mp mem with blank | mem
    · exact isWord_of_isBlank (List.mem_takeWhile_imp blank)
    · rw [marks d mem]
      decide

theorem fronts_call : Text.Fronts call := by
  intro back t c rest h
  obtain ⟨x, s, whole, ne, -⟩ := call_front h
  exact ⟨x ++ s, by simp [ne], whole⟩

theorem infix_of_mem_parameterList {c : Source.Call} {p : Source.Parameter} (h : p ∈ c.parameterList) :
    p.expression <:+: c.parameters := by
  obtain ⟨t, part, found⟩ := List.mem_filterMap.mp h
  refine List.IsInfix.trans ?_ (Text.infix_of_mem_partsAt part)
  simp only [Source.parameter?] at found
  split at found
  · cases found
  · split at found
    · cases found
    · next arrow rest same =>
      cases found
      have inner : rest <:+ ((t.dropWhile isBlank).dropWhile isWord).dropWhile isBlank := by
        rw [(Source.arrow?_eq_some same).1]
        exact List.suffix_append arrow rest
      have drops := ((List.dropWhile_suffix isBlank).trans (List.dropWhile_suffix isWord)).trans
        (List.dropWhile_suffix isBlank (l := t))
      exact (Text.trim_infix _).trans (inner.trans drops).isInfix

/-! ## Branches -/

/-- Whether all texts of an `IF` structure are stretches of a code. -/
structure Within (block : Source.IfBlock) (code : Text) : Prop where
  before : block.before <:+: code
  branches : ∀ b ∈ block.branches, b.1 <:+: code ∧ b.2 <:+: code
  otherwise : ∀ body ∈ block.otherwise, body <:+: code
  after : block.after <:+: code

theorem text_ofPieces (pieces : List (Piece (Option Source.IfWord))) :
    (Source.Skeleton.ofPieces pieces).before ++
      (Source.Skeleton.ofPieces pieces).tokens.flatMap Source.IfToken.text
      = pieces.flatMap Piece.text := by
  induction pieces with
  | nil => rfl
  | cons piece pieces ih =>
    rw [List.flatMap_cons, ← ih]
    cases piece with
    | plain c => rfl
    | found t word =>
      cases word with
      | none => simp [Source.Skeleton.ofPieces]
      | some word => simp [Source.Skeleton.ofPieces, Source.IfToken.text, Piece.text]

theorem suffix_dropSemicolon (t : Text) : Source.IfBlock.dropSemicolon t <:+ t := by
  unfold Source.IfBlock.dropSemicolon
  split
  · next rest same =>
    have drops := List.dropWhile_suffix isBlank (l := t)
    rw [same] at drops
    exact (List.suffix_cons _ _).trans drops
  · exact List.suffix_rfl

theorem within_of_close? {code before : Text} (outer : before <:+: code) {tokens : List Source.IfToken}
    {phase : Source.IfBlock.Phase} {depth : Nat} {text : Text} {branches : List (Text × Text)}
    {block : Source.IfBlock}
    (h : Source.IfBlock.close? before phase depth text branches tokens = some block)
    (rest : text ++ tokens.flatMap Source.IfToken.text <:+: code)
    (condition : ∀ c, phase = .body c → c <:+: code)
    (met : ∀ b ∈ branches, b.1 <:+: code ∧ b.2 <:+: code) : Within block code := by
  induction tokens generalizing phase depth text branches with
  | nil => cases h
  | cons token tokens ih =>
    rw [List.flatMap_cons, ← List.append_assoc] at rest
    have here : text <:+: code :=
      (((List.prefix_append text _).trans (List.prefix_append _ _)).isInfix).trans rest
    have later : token.after ++ tokens.flatMap Source.IfToken.text <:+: code := by
      refine List.IsInfix.trans ?_ rest
      exact ⟨text ++ token.spelling, [], by simp [Source.IfToken.text]⟩
    have after := (suffix_dropSemicolon
      (token.after ++ tokens.flatMap Source.IfToken.text)).isInfix.trans later
    have more (c : Text) (inside : c <:+: code) : ∀ b ∈ branches ++ [(c, text)], b.1 <:+: code ∧
        b.2 <:+: code := by
      intro b mem
      rcases List.mem_append.mp mem with mem | mem
      · exact met b mem
      · rw [List.mem_singleton.mp mem]
        exact ⟨inside, here⟩
    rw [Source.IfBlock.close?] at h
    split at h
    · exact ih h rest condition met
    · split at h
      · exact ih h rest condition met
      · simp only at h
        split at h
        · split at h
          · cases h
          · refine ih h later ?_ met
            rintro c ⟨⟩
            exact (Text.trim_infix text).trans here
        · cases h
        · cases h
        · next c _ => exact ih h later (by simp) (more c (condition c rfl))
        · next c _ => exact ih h later (by simp) (more c (condition c rfl))
        · next c _ _ _ =>
          cases h
          exact ⟨outer, more c (condition c rfl), by simp, after⟩
        · cases h
        · cases h
        · cases h
          exact ⟨outer, met, by simpa using here, after⟩

/-- The texts of the `IF` structure that is found in a code are stretches of it. -/
theorem within_of_split? {code : Text} {block : Source.IfBlock}
    (h : Source.IfBlock.split? code = some block) :
    Within block code := by
  have run (tokens : List Source.IfToken) : ∀ before, before ++ tokens.flatMap Source.IfToken.text <:+: code →
      Source.IfBlock.firstOf? before tokens = some block → Within block code := by
    induction tokens with
    | nil => exact fun _ _ none => by cases none
    | cons token tokens ih =>
      intro before whole found
      rw [Source.IfBlock.firstOf?] at found
      rw [List.flatMap_cons, ← List.append_assoc] at whole
      split at found
      · refine within_of_close? ?_ found ?_ (by simp) (by simp)
        · exact (((List.prefix_append before _).trans (List.prefix_append _ _)).isInfix).trans whole
        · refine List.IsInfix.trans ?_ whole
          exact ⟨before ++ token.spelling, [], by simp [Source.IfToken.text]⟩
      · exact ih _ whole found
  have whole := (text_ofPieces (Text.cut Source.ifPart code)).trans (Text.cut_text _ code)
  exact run _ _ ⟨[], [], (List.append_nil _).trans whole⟩ h

/-! ## Operands of conditions -/

theorem stripParens_infix (condition : Text) : Source.stripParens condition <:+: condition := by
  simp only [Source.stripParens]
  split
  · have inner : (condition.trim.drop 1).dropLast <:+: condition.trim :=
      (List.dropLast_prefix _).isInfix.trans (List.drop_suffix 1 _).isInfix
    exact (Text.trim_infix _).trans (inner.trans (Text.trim_infix condition))
  · exact Text.trim_infix condition

theorem infix_of_mem_operandTexts {code : Text} (pieces : List (Piece Source.LogicPart)) :
    ∀ (depth : Int) (text : Text), text ++ pieces.flatMap Piece.text <:+: code →
      ∀ u ∈ Source.operandTexts depth text pieces, u <:+: code := by
  induction pieces with
  | nil => simp [Source.operandTexts]
  | cons piece pieces ih =>
    intro depth text whole
    rw [List.flatMap_cons, ← List.append_assoc] at whole
    have here : text <:+: code :=
      (((List.prefix_append text _).trans (List.prefix_append _ _)).isInfix).trans whole
    have later : [] ++ pieces.flatMap Piece.text <:+: code :=
      List.IsInfix.trans ⟨text ++ piece.text, [], by simp⟩ whole
    cases piece with
    | plain c => exact ih _ _ whole
    | found t part =>
      cases part with
      | joining =>
        rw [Source.operandTexts]
        split
        · exact List.forall_mem_cons.mpr ⟨here, ih 0 [] later⟩
        · exact ih depth _ whole
      | opening | closing | quoted => exact ih _ _ whole

theorem infix_of_mem_logicOperands {condition u : Text} (h : u ∈ Source.logicOperands condition) :
    u <:+: condition := by
  obtain ⟨mem, -⟩ := List.mem_filter.mp h
  obtain ⟨v, among, rfl⟩ := List.mem_map.mp mem
  have whole : [] ++ (Text.cut Source.logicPart (Source.stripParens condition)).flatMap Piece.text
      <:+: condition := by
    rw [List.nil_append, Text.cut_text]
    exact stripParens_infix condition
  exact (Text.trim_infix v).trans (infix_of_mem_operandTexts _ 0 [] whole v among)

/-! ## Headers -/

/-- Whether a pattern leaves an end of the text that it reads, and takes stretches of it. -/
def Reaches {α : Type} (p : Pattern α) (texts : α → List Text) : Prop :=
  ∀ back t v rest, p back t = some (v, rest) → rest <:+ t ∧ ∀ u ∈ texts v, u <:+: t

section Reaches

variable {α : Type} {p : Pattern α} {texts : α → List Text}

theorem shortestBefore_eq_some {back t u after : Text} {v : α}
    (h : Source.shortestBefore p back t = some ((u, v), after)) :
    ∃ y, t = u ++ y ∧ p (u.reverse ++ back) y = some (v, after) := by
  induction t generalizing back u with
  | nil => cases h
  | cons c t ih =>
    rw [Source.shortestBefore] at h
    split at h
    · next here =>
      cases h
      exact ⟨t, rfl, here⟩
    · obtain ⟨⟨⟨u', v'⟩, after'⟩, later, same⟩ := Option.map_eq_some_iff.mp h
      cases same
      obtain ⟨y, rfl, here⟩ := ih later
      exact ⟨y, rfl, by simpa using here⟩

theorem reaches_shortestBefore (h : Reaches p texts) :
    Reaches (Source.shortestBefore p) fun v => v.1 :: texts v.2 := by
  rintro back t ⟨u, v⟩ rest found
  obtain ⟨y, rfl, here⟩ := shortestBefore_eq_some found
  obtain ⟨suffix, inside⟩ := h _ _ _ _ here
  refine ⟨suffix.trans (List.suffix_append u y),
    List.forall_mem_cons.mpr ⟨(List.prefix_append u y).isInfix, ?_⟩⟩
  exact fun w mem => (inside w mem).trans (List.suffix_append u y).isInfix

theorem reaches_afterBlanks (h : Reaches p texts) (least : Nat) :
    Reaches (Source.afterBlanks least p) texts := by
  intro back t v rest found
  have run (count : Nat) : Source.afterAtMost p least back t count = some (v, rest) →
      rest <:+ t ∧ ∀ u ∈ texts v, u <:+: t := by
    induction count with
    | zero =>
      intro found
      rw [Source.afterAtMost] at found
      split at found
      · exact h _ _ _ _ found
      · cases found
    | succ count ih =>
      intro found
      rw [Source.afterAtMost] at found
      split at found
      · cases found
      · split at found
        · next here =>
          cases found
          obtain ⟨suffix, inside⟩ := h _ _ _ _ here
          have drops := List.drop_suffix (count + 1) t
          exact ⟨suffix.trans drops, fun u mem => (inside u mem).trans drops.isInfix⟩
        · exact ih found
  exact run _ found

theorem reaches_afterWord (h : Reaches p texts) (word : Text) : Reaches (Source.afterWord word p) texts := by
  intro back t v rest found
  unfold Source.afterWord at found
  split at found
  · next left dropped =>
    obtain ⟨m, rfl, -⟩ := dropLoose?_eq_some dropped
    obtain ⟨suffix, inside⟩ := h _ _ _ _ found
    have drops := List.suffix_append m left
    exact ⟨suffix.trans drops, fun u mem => (inside u mem).trans drops.isInfix⟩
  · cases found

theorem Reaches.mono {texts' : α → List Text} (h : Reaches p texts) (fewer : ∀ v, texts' v ⊆ texts v) :
    Reaches p texts' := by
  intro back t v rest found
  obtain ⟨suffix, inside⟩ := h back t v rest found
  exact ⟨suffix, fun u mem => inside u (fewer v mem)⟩

end Reaches

theorem reaches_doWord : Reaches Source.doWord fun _ => [] := by
  refine reaches_afterBlanks (fun back t v rest found => ?_) 1
  split at found
  · next left dropped =>
    split at found
    · cases found
    · cases found
      obtain ⟨m, rfl, -⟩ := dropLoose?_eq_some dropped
      exact ⟨List.suffix_append m rest, by simp⟩
  · cases found

theorem reaches_untilEnd : Reaches Source.untilEnd fun _ => [] := by
  intro back t v rest found
  refine ⟨?_, by simp⟩
  have drops := List.dropWhile_suffix isBlank (l := t)
  unfold Source.untilEnd at found
  split at found
  · cases found
    exact List.nil_suffix
  · next same =>
    cases found
    rw [same] at drops
    exact (List.suffix_cons _ _).trans drops
  · obtain ⟨left, dropped, same⟩ := Option.map_eq_some_iff.mp found
    cases same
    obtain ⟨m, whole, -⟩ := word_of_dropKeyword? (by decide) dropped
    rw [whole] at drops
    exact (List.suffix_append m rest).trans drops

theorem reaches_stepPart : Reaches Source.stepPart fun _ => [] := by
  intro back t v rest found
  unfold Source.stepPart at found
  split at found
  · next here =>
    cases found
    have inner := reaches_afterBlanks
      (reaches_afterWord (reaches_afterBlanks (reaches_shortestBefore reaches_doWord) 1)
      "by".toText) 1
    exact ⟨(inner _ _ _ _ here).1, by simp⟩
  · obtain ⟨⟨_, left⟩, here, same⟩ := Option.map_eq_some_iff.mp found
    cases same
    exact ⟨(reaches_doWord _ _ _ _ here).1, by simp⟩

theorem reaches_stopPart : Reaches Source.stopPart fun _ => [] :=
  (reaches_afterBlanks (reaches_afterWord (reaches_afterBlanks (reaches_shortestBefore reaches_stepPart) 1)
    "to".toText) 1).mono (by simp)

theorem reaches_forBody : Reaches Source.forBody fun _ => [] := by
  intro back t v rest found
  simp only [Source.forBody] at found
  split at found
  · cases found
  · split at found
    · next body arrow =>
      obtain ⟨⟨_, left⟩, here, same⟩ := Option.map_eq_some_iff.mp found
      cases same
      have inner := (reaches_afterBlanks (reaches_shortestBefore reaches_stopPart) 0 _ _ _ _ here).1
      refine ⟨inner.trans ?_, by simp⟩
      have drops := (List.dropWhile_suffix isBlank).trans ((suffix_dropOne '"' _).trans
        ((List.dropWhile_suffix isWord).trans ((suffix_dropOne '"' _).trans (suffix_dropOne '#' t))))
      rw [arrow] at drops
      exact (List.suffix_cons _ _).trans ((List.suffix_cons _ _).trans drops)
    · cases found

/-- A header that a pattern takes at a point: no word touches it on its left, it starts with a letter, and
leaves an end of the text. -/
structure IsHeader (back y rest : Text) : Prop where
  before : Stops isWord back
  start : y.head?.any isNameStart = true
  rest : rest <:+ y

theorem isNameStart_of_looseLetter {c k : CodePoint} (h : looseLetter c = k)
    (plain : k ≠ 's' ∧ k ≠ 'i' ∧ k ≠ 'k') (letter : isNameStart k = true) : isNameStart c = true := by
  unfold looseLetter at h
  split at h
  · next upper => exact forall_upper (P := isNameStart) (by decide) upper
  · split at h
    · exact absurd h.symm plain.1
    · split at h
      · exact absurd h.symm plain.2.1
      · split at h
        · exact absurd h.symm plain.2.2
        · rwa [h]

/-- Whether a word starts with a letter that few others stand for. -/
def StartsPlainly (word : Text) : Prop :=
  ∃ k more, word = k :: more ∧ (k ≠ 's' ∧ k ≠ 'i' ∧ k ≠ 'k') ∧ isNameStart k = true

theorem StartsPlainly.isNameStart {word m rest : Text} (h : StartsPlainly word)
    (loose : m.map looseLetter = word) :
    (m ++ rest).head?.any isNameStart = true := by
  obtain ⟨k, more, rfl, plain, letter⟩ := h
  cases m with
  | nil => cases loose
  | cons c m =>
    rw [List.map_cons] at loose
    exact isNameStart_of_looseLetter (List.cons.inj loose).1 plain letter

theorem isHeader_of_headerWord {α : Type} {p : Pattern α} {texts : α → List Text}
    {word back y rest : Text} {v : α}
    (reaches : Reaches p texts) (plain : StartsPlainly word)
    (h : Source.headerWord word p back y = some (v, rest)) :
    IsHeader back y rest ∧ ∀ u ∈ texts v, u <:+: y := by
  unfold Source.headerWord at h
  split at h
  · cases h
  · next before =>
    obtain ⟨suffix, inside⟩ := reaches_afterWord reaches word _ _ _ _ h
    refine ⟨⟨any_head_eq_false.mp (by simpa [wordAhead] using before), ?_, suffix⟩, inside⟩
    unfold Source.afterWord at h
    split at h
    · next left dropped =>
      obtain ⟨m, rfl, loose⟩ := dropLoose?_eq_some dropped
      exact plain.isNameStart loose
    · cases h

theorem isHeader_forHeader {back y rest : Text} {v : Source.ForHeader}
    (h : Source.forHeader back y = some (v, rest)) : IsHeader back y rest :=
  (isHeader_of_headerWord (reaches_afterBlanks reaches_forBody 1) ⟨'f', _, rfl, by decide, by decide⟩ h).1

theorem isHeader_of_condition {ending : Pattern Unit} (reaches : Reaches ending fun _ => [])
    {word back y rest condition : Text} (plain : StartsPlainly word)
    (h : (Source.headerWord word (Source.afterBlanks 1 (Source.shortestBefore ending)) back y).map
      (fun found => (found.1.1, found.2)) = some (condition, rest)) :
    IsHeader back y rest ∧ condition <:+: y := by
  obtain ⟨⟨⟨condition', _⟩, rest'⟩, found, same⟩ := Option.map_eq_some_iff.mp h
  cases same
  obtain ⟨header, inside⟩ := isHeader_of_headerWord
    (reaches_afterBlanks (reaches_shortestBefore reaches) 1) plain found
  exact ⟨header, inside _ List.mem_cons_self⟩

theorem isHeader_whileHeader {back y rest condition : Text}
    (h : Source.whileHeader back y = some (condition, rest)) : IsHeader back y rest ∧ condition <:+: y :=
  isHeader_of_condition reaches_doWord ⟨'w', _, rfl, by decide, by decide⟩ h

theorem isHeader_untilHeader {back y rest condition : Text}
    (h : Source.untilHeader back y = some (condition, rest)) : IsHeader back y rest ∧ condition <:+: y :=
  isHeader_of_condition reaches_untilEnd ⟨'u', _, rfl, by decide, by decide⟩ h

/-- What follows the selector of a `CASE` statement, with its `#` and its double quotes. -/
def afterSelector (t : Text) : Text :=
  Source.dropOne '"' ((Source.dropOne '"' (Source.dropOne '#' t)).dropWhile fun c => isWord c || c == '.')

/-- The selector of a `CASE` statement is a stretch without blanks. -/
theorem exists_selector (t : Text) : ∃ written, t = written ++ afterSelector t ∧ ∀ c ∈ written,
    isBlank c = false := by
  obtain ⟨mark, body, marks⟩ := exists_dropOne '#' t
  obtain ⟨quote, named, quotes⟩ := exists_dropOne '"' (Source.dropOne '#' t)
  unfold afterSelector
  generalize Source.dropOne '"' (Source.dropOne '#' t) = name at *
  obtain ⟨word, split, words⟩ : ∃ word, name = word ++ name.dropWhile (fun c => isWord c || c == '.') ∧
      ∀ c ∈ word, (isWord c || c == '.') = true :=
    ⟨_, List.takeWhile_append_dropWhile.symm,
      fun c mem => List.mem_takeWhile_imp (p := fun c => isWord c || c == '.') mem⟩
  generalize name.dropWhile (fun c => isWord c || c == '.') = left at *
  obtain ⟨quote', ends, quotes'⟩ := exists_dropOne '"' left
  refine ⟨mark ++ (quote ++ (word ++ quote')), ?_, ?_⟩
  · calc t = mark ++ (quote ++ (word ++ left)) := by rw [← split, ← named, ← body]
      _ = mark ++ (quote ++ (word ++ (quote' ++ Source.dropOne '"' left))) := by rw [← ends]
      _ = mark ++ (quote ++ (word ++ quote')) ++ Source.dropOne '"' left := by simp only [List.append_assoc]
  · intro c mem
    simp only [List.mem_append] at mem
    rcases mem with mem | mem | mem | mem
    · rw [marks c mem]; decide
    · rw [quotes c mem]; decide
    · rcases Bool.or_eq_true_iff.mp (words c mem) with word | point
      · exact isBlank_of_isWord word
      · rw [beq_iff_eq.mp point]; decide
    · rw [quotes' c mem]; decide

theorem isHeader_caseHeader {back y rest written : Text}
    (h : Source.caseHeader back y = some (written, rest)) :
    IsHeader back y rest ∧ written <:+: y ∧ ∀ c ∈ written, isBlank c = false := by
  unfold Source.caseHeader at h
  split at h
  · cases h
  · next before =>
    split at h
    · cases h
    · next left dropped =>
      obtain ⟨m, rfl, loose⟩ := dropLoose?_eq_some dropped
      simp only at h
      split at h
      · cases h
      · split at h
        · next tail found =>
          split at h
          · cases h
          · cases h
            rw [← afterSelector] at *
            obtain ⟨written, whole, tight⟩ := exists_selector (left.dropWhile isBlank)
            generalize afterSelector (left.dropWhile isBlank) = after at *
            have inside : left.dropWhile isBlank <:+ m ++ left :=
              (List.dropWhile_suffix _).trans (List.suffix_append m left)
            rw [whole] at inside ⊢
            rw [Lexeme.taken_left]
            have plain : StartsPlainly "case".toText := ⟨'c', _, rfl, by decide, by decide⟩
            refine ⟨⟨any_head_eq_false.mp (by simpa [wordAhead] using before), plain.isNameStart loose, ?_⟩,
              (List.prefix_append _ after).isInfix.trans inside.isInfix, tight⟩
            obtain ⟨m', tail, -⟩ := dropLoose?_eq_some found
            have drops := List.dropWhile_suffix isBlank (l := after)
            rw [tail] at drops
            exact (List.suffix_append m' rest).trans (drops.trans ((List.suffix_append _ after).trans inside))
        · cases h

end Program
end SclNarrator
