import SclNarrator.Proofs.Program.Calls

/-!
Calls in a stretch of text with a quote mark on either side. The pattern for calls knows nothing of
literals, so it matches inside of them; but no match goes on over the mark behind the stretch, and the
mark before it makes no call an operand. So calls are taken out of an enclosed stretch as they are taken
out of the stretch alone (`stripCalls_enclosed`).
-/

namespace SclNarrator.Program

open Source (call)
open Text (LocalOn cutFrom)

/-- Whether a character encloses a literal or the name of a tag. -/
def isQuoteMark (c : CodePoint) : Bool := c == '\'' || c == '"'

theorem isQuoteMark_cases {c : CodePoint} (h : isQuoteMark c = true) : c = '\'' ∨ c = '"' := by
  simpa [isQuoteMark] using h

/-- Whether what starts in the stretch `u` ends before the quote mark behind it: no name in double
quotes goes on over the mark, and no parenthesis is closed behind it. -/
structure Encloses (u : Text) (mark : CodePoint) (rest : Text) : Prop where
  isMark : isQuoteMark mark = true
  quoted : ∀ z, z <:+ u →
    Source.afterQuoted? (z ++ mark :: rest) = (Source.afterQuoted? z).map (· ++ mark :: rest)
  closing : ((mark :: rest).dropWhile isFlat).head? ≠ some (.char ')')

/-- A stretch without double quotes before a mark with none behind it: the name in double quotes would
have to start at the mark. -/
theorem quoted_of_not_mem {u rest z : Text} {mark : CodePoint} (inner : .char '"' ∉ u)
    (outer : .char '"' ∉ rest) (suffix : z <:+ u) :
    Source.afterQuoted? (z ++ mark :: rest) = (Source.afterQuoted? z).map (· ++ mark :: rest) := by
  have noQuote : .char '"' ∉ z := fun mem => inner (suffix.subset mem)
  cases z with
  | nil =>
    have unclosed : rest.dropWhile (· != .char '"') = [] := by
      rw [List.dropWhile_eq_nil_iff]
      intro c mem
      rw [bne_iff_ne]
      rintro rfl
      exact outer mem
    show Source.afterQuoted? (mark :: rest) = none
    unfold Source.afterQuoted? quotedName
    split
    · next body same =>
      cases same
      rw [unclosed]
      cases rest.takeWhile (· != .char '"') <;> rfl
    · rfl
  | cons c z =>
    have head : (c :: z).head? ≠ some (.char '"') := by
      intro same
      exact noQuote (by simp_all)
    rw [afterQuoted?_of_head head, afterQuoted?_of_head (by simpa using head)]
    rfl

/-- A name in double quotes that is closed in a text is the same with a text without double quotes
behind it, and one that is not closed stays so. -/
theorem quotedName_append (back back' z : Text) {b : Text} (h : .char '"' ∉ b) :
    quotedName back (z ++ b) = (quotedName back' z).map fun (name, rest) => (name, rest ++ b) := by
  have stop : ∀ d ∈ b, (d != .char '"') = true := by
    intro d mem
    rw [bne_iff_ne]
    rintro rfl
    exact h mem
  unfold quotedName
  cases z with
  | nil =>
    rw [List.nil_append]
    split
    · next body => exact absurd List.mem_cons_self h
    · rfl
  | cons c body =>
    by_cases opens : c = '"'
    · subst opens
      simp only [List.cons_append]
      cases left : body.dropWhile (· != .char '"') with
      | nil =>
        -- nothing closes the name, neither in the text nor behind it
        have unclosed : (body ++ b).dropWhile (· != .char '"') = [] := by
          rw [List.dropWhile_eq_nil_iff] at left ⊢
          intro d mem
          exact (List.mem_append.mp mem).elim (left d) (stop d)
        rw [unclosed]
        cases (body ++ b).takeWhile (· != .char '"') <;> cases body.takeWhile (· != .char '"') <;> rfl
      | cons d after =>
        obtain ⟨same, rest⟩ := takeWhile_append_of_ne_nil left b
        rw [same, rest]
        cases body.takeWhile (· != .char '"') <;> rfl
    · rw [List.cons_append]
      split
      · next same => exact absurd (List.cons.inj same).1 opens
      · split
        · next same => exact absurd (List.cons.inj same).1 opens
        · rfl

theorem afterQuoted?_append (z : Text) {b : Text} (h : .char '"' ∉ b) :
    Source.afterQuoted? (z ++ b) = (Source.afterQuoted? z).map (· ++ b) := by
  unfold Source.afterQuoted?
  rw [quotedName_append [] [] z h, Option.map_map, Option.map_map]
  rfl

/-! ## What the pattern reads before the mark -/

theorem afterWord?_append (y : Text) {b : Text} (stop : Stops isWord b) :
    Source.afterWord? (y ++ b) = (Source.afterWord? y).map (· ++ b) := by
  cases y with
  | nil => rw [List.nil_append, afterWord?_of_stops stop]; rfl
  | cons c y =>
    rw [List.cons_append, Source.afterWord?, Source.afterWord?, dropWhile_append_stops y stop]
    split <;> rfl

theorem dropOne_append (c : CodePoint) (y : Text) {b : Text} (h : b.head? ≠ some c) :
    Source.dropOne c (y ++ b) = Source.dropOne c y ++ b := by
  cases y with
  | nil => rw [List.nil_append, dropOne_of_head h]; rfl
  | cons d y =>
    rw [List.cons_append, Source.dropOne, Source.dropOne]
    split <;> rfl

/-- What is left behind a name in double quotes is an end of the text. -/
theorem suffix_of_afterQuoted? {t rest : Text} (h : Source.afterQuoted? t = some rest) : rest <:+ t := by
  unfold Source.afterQuoted? quotedName at h
  split at h
  · next body =>
    split at h
    · cases h
    · cases h
    · next left _ =>
      cases h
      refine List.IsSuffix.trans ?_ (List.suffix_cons _ _)
      have : body.dropWhile (· != .char '"') <:+ body := List.dropWhile_suffix _
      rw [left] at this
      exact (List.suffix_cons _ _).trans this
  · cases h

theorem suffix_of_afterWord? {t rest : Text} (h : Source.afterWord? t = some rest) : rest <:+ t := by
  cases t with
  | nil => cases h
  | cons c t =>
    rw [Source.afterWord?] at h
    split at h
    · cases h
      exact (List.dropWhile_suffix _).trans (List.suffix_cons _ _)
    · cases h

theorem suffix_dropOne (c : CodePoint) (t : Text) : Source.dropOne c t <:+ t := by
  cases t with
  | nil => exact List.suffix_rfl
  | cons d t =>
    rw [Source.dropOne]
    split
    · exact List.suffix_cons _ _
    · exact List.suffix_rfl

theorem suffix_of_orElse {a b : Option Text} {t rest : Text} (h : (a <|> b) = some rest)
    (first : ∀ left, a = some left → left <:+ t) (second : ∀ left, b = some left → left <:+ t) :
    rest <:+ t := by
  cases a with
  | none => exact second rest h
  | some left => exact first rest h

theorem suffix_of_member {t rest : Text} (h : (Source.afterQuoted? t <|> Source.afterWord? t) = some rest) :
    rest <:+ t :=
  suffix_of_orElse h (fun _ => suffix_of_afterQuoted?) fun _ => suffix_of_afterWord?

/-- What is left behind the first name of an instance is an end of the text. -/
theorem suffix_of_first {t rest : Text}
    (h : (Source.afterQuoted? t <|> Source.afterWord? (Source.dropOne '#' t)) = some rest) : rest <:+ t :=
  suffix_of_orElse h (fun _ => suffix_of_afterQuoted?) fun _ word =>
    (suffix_of_afterWord? word).trans (suffix_dropOne '#' t)

theorem afterMembers_of_head {t : Text} (h : t.head? ≠ some (.char '.')) (fuel : Nat) :
    Source.afterMembers fuel t = t := by
  cases fuel with
  | zero => rfl
  | succ fuel =>
    unfold Source.afterMembers
    split
    · exact absurd rfl h
    · rfl

section

variable {u rest : Text} {mark : CodePoint}

theorem Encloses.stops_isWord (h : Encloses u mark rest) : Stops isWord (mark :: rest) := by
  rcases isQuoteMark_cases h.isMark with rfl | rfl <;> exact stops_cons.mpr (by decide)

theorem Encloses.stops_isBlank (h : Encloses u mark rest) : Stops isBlank (mark :: rest) := by
  rcases isQuoteMark_cases h.isMark with rfl | rfl <;> exact stops_cons.mpr (by decide)

theorem Encloses.head?_ne (h : Encloses u mark rest) {c : CodePoint} (other : isQuoteMark c = false) :
    (mark :: rest).head? ≠ some c := by
  intro same
  obtain rfl : mark = c := by simpa using same
  rw [h.isMark] at other
  cases other

theorem Encloses.part? (h : Encloses u mark rest) {y : Text} (suffix : y <:+ u) :
    (Source.afterQuoted? (y ++ mark :: rest) <|> Source.afterWord? (y ++ mark :: rest)) =
      (Source.afterQuoted? y <|> Source.afterWord? y).map (· ++ mark :: rest) := by
  rw [h.quoted y suffix, afterWord?_append y h.stops_isWord]
  cases Source.afterQuoted? y <;> rfl

/-- Each member takes at least its point, so a fuel that is as large as the text does not show. -/
theorem Encloses.afterMembers (h : Encloses u mark rest) {y : Text} (suffix : y <:+ u) {n m : Nat}
    (enough : y.length ≤ n) (enough' : y.length ≤ m) :
    Source.afterMembers m (y ++ mark :: rest) = Source.afterMembers n y ++ mark :: rest := by
  have atMark := afterMembers_of_head (h.head?_ne (c := '.') (by decide))
  induction n generalizing y m with
  | zero =>
    obtain rfl : y = [] := List.length_eq_zero_iff.mp (Nat.le_zero.mp enough)
    exact atMark m
  | succ n ih =>
    cases m with
    | zero =>
      obtain rfl : y = [] := List.length_eq_zero_iff.mp (Nat.le_zero.mp enough')
      rfl
    | succ m =>
      cases y with
      | nil => exact atMark (m + 1)
      | cons c y =>
        have inner : y <:+ u := (List.suffix_cons c y).trans suffix
        by_cases isPoint : c = '.'
        · subst isPoint
          simp only [List.cons_append, Source.afterMembers]
          rw [h.part? inner]
          cases part : (Source.afterQuoted? y <|> Source.afterWord? y) with
          | none => rfl
          | some left =>
            have shorter := suffix_of_member part
            have length := shorter.length_le
            rw [List.length_cons] at enough enough'
            exact ih (shorter.trans inner) (by omega) (by omega)
        · rw [List.cons_append, afterMembers_of_head (by simpa using isPoint),
            afterMembers_of_head (by simpa using isPoint), List.cons_append]

theorem Encloses.afterInstance? (h : Encloses u mark rest) {y : Text} (suffix : y <:+ u) :
    Source.afterInstance? (y ++ mark :: rest) =
      (Source.afterInstance? y).map (· ++ mark :: rest) := by
  have hash : (mark :: rest).head? ≠ some (.char '#') := h.head?_ne (by decide)
  have parts : (Source.afterQuoted? (y ++ mark :: rest) <|>
        Source.afterWord? (Source.dropOne '#' (y ++ mark :: rest))) =
      (Source.afterQuoted? y <|> Source.afterWord? (Source.dropOne '#' y)).map (· ++ mark :: rest) := by
    rw [h.quoted y suffix, dropOne_append _ y hash, afterWord?_append _ h.stops_isWord]
    cases Source.afterQuoted? y <;> rfl
  unfold Source.afterInstance?
  rw [parts]
  cases part : (Source.afterQuoted? y <|> Source.afterWord? (Source.dropOne '#' y)) with
  | none => rfl
  | some left =>
    simp only [Option.map_some, Option.some.injEq]
    exact h.afterMembers ((suffix_of_first part).trans suffix) (Nat.le_refl _) (by simp)

/-- What the pattern matches before the mark it matches without the mark. -/
theorem Encloses.call_append (h : Encloses u mark rest) {y back back' : Text} (suffix : y <:+ u)
    (same : Source.isOperandAfter back = Source.isOperandAfter back') :
    call back (y ++ mark :: rest) =
      (call back' y).map fun (v, left) => (v, left ++ mark :: rest) := by
  have opening : (mark :: rest).head? ≠ some (.char '(') := h.head?_ne (by decide)
  have semicolon : (mark :: rest).head? ≠ some (.char ';') := h.head?_ne (by decide)
  have inst := h.afterInstance? suffix
  cases name : Source.afterInstance? y with
  | none =>
    rw [name] at inst
    rw [call_of_no_instance inst, call_of_no_instance name]
    rfl
  | some left =>
    rw [name] at inst
    have blanks := dropWhile_append_stops left h.stops_isBlank
    cases next : left.dropWhile isBlank with
    | nil =>
      rw [next, List.nil_append] at blanks
      rw [call_of_no_paren inst (by rw [blanks]; exact opening),
        call_of_no_paren name (by rw [next]; simp)]
      rfl
    | cons c w =>
      rw [next, List.cons_append] at blanks
      by_cases opens : c = '('
      · subst opens
        rw [call_of_paren inst blanks, call_of_paren name next, taken_append, same]
        cases inner : w.dropWhile isFlat with
        | nil =>
          -- the parenthesis is not closed before the mark, nor is it behind it
          have flat : ∀ c ∈ w, isFlat c = true := List.dropWhile_eq_nil_iff.mp inner
          rw [List.dropWhile_append_of_pos flat]
          have closing := h.closing
          split
          · next after found =>
            rw [found] at closing
            simp at closing
          · rfl
        | cons p after =>
          obtain ⟨parameters, left'⟩ := takeWhile_append_of_ne_nil inner (mark :: rest)
          rw [parameters, left']
          by_cases closes : p = ')'
          · subst closes
            simp only [List.cons_append]
            split
            · rw [dropWhile_append_stops _ h.stops_isBlank, dropOne_append _ _ semicolon]
              rfl
            · rfl
          · split
            · next found =>
              cases found
              exact absurd rfl closes
            · split
              · next found =>
                cases found
                exact absurd rfl closes
              · rfl
      · rw [call_of_no_paren inst (by simpa [blanks] using opens),
          call_of_no_paren name (by simpa [next] using opens)]
        rfl

end

/-- What stands before an enclosed stretch matters to a call in it only if it makes the call an
operand. -/
theorem isOperandAfter_append (x : Text) {back : Text} (h : Source.isOperandAfter back = false) :
    Source.isOperandAfter (x ++ back) = Source.isOperandAfter x := by
  unfold Source.isOperandAfter at h ⊢
  cases inner : x.dropWhile isBlank with
  | nil =>
    have blank : ∀ c ∈ x, isBlank c = true := List.dropWhile_eq_nil_iff.mp inner
    rw [List.dropWhile_append_of_pos blank]
    exact h
  | cons c rest => rw [(takeWhile_append_of_ne_nil inner back).2]; rfl

/-- Calls are taken out of an enclosed stretch as if it stood alone, and the scan goes on behind it. -/
theorem stripCalls_enclosed {u rest back : Text} {mark : CodePoint} (h : Encloses u mark rest)
    (before : Source.isOperandAfter back = false) :
    (cutFrom call 0 back (u ++ mark :: rest)).flatMap Source.keepNested =
      Source.stripCalls u ++
        (cutFrom call 0 (u.reverse ++ back) (mark :: rest)).flatMap Source.keepNested := by
  have apart : LocalOn call back u (mark :: rest) := by
    intro x y same _
    exact h.call_append ⟨x, same.symm⟩ (isOperandAfter_append x.reverse before)
  rw [Text.cutFrom_local apart, List.flatMap_append]
  rfl

end SclNarrator.Program
