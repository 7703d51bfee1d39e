import SclNarrator.Proofs.Number.Numeral
import SclNarrator.Proofs.Source.Parts
import SclNarrator.Source.Structure

/-!
Labels of `CASE` branches. A label is a list of whole numbers and ranges with commas between them,
as it is written: digits of any script, and blanks around the commas and between the ends of a
range. Such a label is read whole, up to its colon (`label?_text`), and what is read holds just the
numbers that the written label holds (`labelHolds_text`). Whatever is read as a label has no other
characters than a written one (`exists_of_label?`), so it ends at the first colon and reaches over
no semicolon.
-/

namespace SclNarrator.Selection

open Source (afterNumber? afterRange? afterRanges label? labelNumber rangeHolds anyHolds labelHolds)

/-- Blanks that may stand next to a number: the separating controls of ASCII are not among them. -/
structure Margin where
  text : Text
  valid : ∀ c ∈ text, Numeral.isMargin c = true

/-- A whole number as it is written: not too many digits, behind a minus or not. -/
structure Number where
  negative : Bool
  digits : Text
  ne_nil : digits ≠ []
  valid : ∀ c ∈ digits, isDecimal c = true
  short : digits.length ≤ Numeral.digitLimit

inductive Item where
  | single (n : Number)
  | range (low : Number) (before behind : Margin) (high : Number)

/-- Numbers and ranges, each of the others behind a comma with blanks around it. -/
structure Label where
  first : Item
  more : List (Margin × Margin × Item)

namespace Number

def text (n : Number) : Text := Numeral.signed n.negative n.digits

def value (n : Number) : Int :=
  if n.negative then -(Numeral.digitsValue n.digits : Int) else Numeral.digitsValue n.digits

end Number

namespace Item

def text : Item → Text
  | single n => n.text
  | range low before behind high => low.text ++ (before.text ++ ("..".toText ++ (behind.text ++ high.text)))

/-- Whether a number is the one that is written, or lies in the range. -/
def holds (k : Int) : Item → Bool
  | single n => n.value == k
  | range low _ _ high => decide (low.value ≤ k) && decide (k ≤ high.value)

end Item

namespace Label

/-- The text of the numbers and ranges behind commas. -/
def moreText : List (Margin × Margin × Item) → Text
  | [] => []
  | (before, behind, item) :: more =>
      before.text ++ .char ',' :: (behind.text ++ (item.text ++ moreText more))

def text (l : Label) : Text := l.first.text ++ moreText l.more

/-- Whether one of the numbers and ranges of a label holds a number. -/
def holds (k : Int) (l : Label) : Bool := l.first.holds k || l.more.any fun part => part.2.2.holds k

end Label

/-! ## Reading a label -/

section

variable {rest : Text}

/-- The blanks next to a number as blanks. -/
def Margin.gap (m : Margin) : Program.Gap :=
  ⟨m.text, List.all_eq_true.mpr fun c mem => Numeral.isBlank_of_isMargin (m.valid c mem)⟩

theorem Margin.text_gap (m : Margin) : m.gap.text = m.text := rfl

theorem isDecimal_of_isBlank {c : CodePoint} (h : isBlank c = true) : isDecimal c = false := by
  rw [Bool.eq_false_iff]
  intro decimal
  rw [Numeral.isBlank_of_isDecimal decimal] at h
  cases h

theorem dropWhile_gap (gap : Program.Gap) (stop : Stops isBlank rest) :
    (gap.text ++ rest).dropWhile isBlank = rest :=
  dropWhile_append_of_stops (fun _ mem => gap.isBlank mem) stop

theorem Number.exists_cons (n : Number) :
    ∃ c more, n.text = c :: more ∧ (c = .char '-' ∨ isDecimal c = true) := by
  obtain ⟨d, digits, same⟩ := List.exists_cons_of_ne_nil n.ne_nil
  cases negative : n.negative with
  | true => exact ⟨.char '-', n.digits, by rw [Number.text, negative]; rfl, .inl rfl⟩
  | false =>
    refine ⟨d, digits, ?_, .inr (n.valid d (by rw [same]; exact List.mem_cons_self))⟩
    rw [Number.text, negative, ← same]
    rfl

theorem Number.stops_isBlank (n : Number) : Stops isBlank (n.text ++ rest) := by
  obtain ⟨c, more, same, start⟩ := n.exists_cons
  rw [same]
  refine stops_cons.mpr ?_
  rcases start with rfl | decimal
  · decide
  · exact Numeral.isBlank_of_isDecimal decimal

theorem Label.text_ne_nil (l : Label) : l.text ≠ [] := by
  have number (n : Number) (t : Text) : n.text ++ t ≠ [] := by
    obtain ⟨c, more, same, -⟩ := n.exists_cons
    rw [same]
    exact List.cons_ne_nil _ _
  rw [Label.text]
  cases l.first with
  | single n => exact number n _
  | range low before behind high =>
    rw [Item.text, List.append_assoc]
    exact number low _

theorem afterNumber?_text (n : Number) (stop : Stops isDecimal rest) :
    afterNumber? (n.text ++ rest) = some rest := by
  obtain ⟨d, digits, same⟩ := List.exists_cons_of_ne_nil n.ne_nil
  have decimal : isDecimal d = true := n.valid d (by rw [same]; exact List.mem_cons_self)
  have unsigned : Source.dropOne '-' (n.text ++ rest) = n.digits ++ rest := by
    rw [Number.text]
    cases n.negative with
    | true => rfl
    | false =>
      show Source.dropOne '-' (n.digits ++ rest) = _
      rw [same, List.cons_append, Source.dropOne, if_neg (Numeral.ne_of_isDecimal decimal (by decide))]
  have first : (n.digits ++ rest).head?.any isDecimal = true := by rw [same]; exact decimal
  rw [afterNumber?, unsigned]
  simp only [if_pos first, dropWhile_append_of_stops n.valid stop]

/-- Whether a text goes on with blanks and then a mark that ends a number or a range. -/
def Marked (t : Text) : Prop :=
  ∃ (gap : Program.Gap) (c : CodePoint) (after : Text), t = gap.text ++ c :: after ∧
    (c = .char ',' ∨ c = .char ':')

theorem Marked.stops_isDecimal (h : Marked rest) : Stops isDecimal rest := by
  obtain ⟨gap, c, after, rfl, mark⟩ := h
  refine gap.stops (fun _ => isDecimal_of_isBlank) (stops_cons.mpr ?_)
  rcases mark with rfl | rfl <;> decide

theorem afterRange?_text (item : Item) (marked : Marked rest) :
    afterRange? (item.text ++ rest) = some rest := by
  have stop := marked.stops_isDecimal
  cases item with
  | single n =>
    obtain ⟨gap, c, after, rfl, mark⟩ := marked
    have left : (gap.text ++ c :: after).dropWhile isBlank = c :: after :=
      dropWhile_gap gap (stops_cons.mpr (by rcases mark with rfl | rfl <;> decide))
    rw [Item.text, afterRange?, afterNumber?_text n stop]
    simp only [left]
    rcases mark with rfl | rfl <;> rfl
  | range low before behind high =>
    have points : Stops isDecimal (before.text ++ ("..".toText ++ (behind.text ++ (high.text ++ rest)))) :=
      before.gap.stops (fun _ => isDecimal_of_isBlank) (stops_cons.mpr (by decide))
    have toPoints : (before.text ++ ("..".toText ++ (behind.text ++ (high.text ++ rest)))).dropWhile isBlank
        = "..".toText ++ (behind.text ++ (high.text ++ rest)) :=
      dropWhile_gap before.gap (stops_cons.mpr (by decide))
    have toHigh : (behind.text ++ (high.text ++ rest)).dropWhile isBlank = high.text ++ rest :=
      dropWhile_gap behind.gap high.stops_isBlank
    simp only [Item.text, List.append_assoc]
    rw [afterRange?, afterNumber?_text low points]
    simp only [toPoints]
    show some ((afterNumber? ((behind.text ++ (high.text ++ rest)).dropWhile isBlank)).getD _) = some rest
    rw [toHigh, afterNumber?_text high stop]
    rfl

theorem marked_moreText (more : List (Margin × Margin × Item)) (gap : Program.Gap) (after : Text) :
    Marked (Label.moreText more ++ (gap.text ++ .char ':' :: after)) := by
  cases more with
  | nil => exact ⟨gap, .char ':', after, rfl, .inr rfl⟩
  | cons part more =>
    obtain ⟨before, behind, item⟩ := part
    refine ⟨before.gap, .char ',', behind.text ++ (item.text ++ Label.moreText more) ++
      (gap.text ++ .char ':' :: after), ?_, .inl rfl⟩
    simp only [Label.moreText, Margin.text_gap, List.append_assoc, List.cons_append]

theorem Item.stops_isBlank (item : Item) : Stops isBlank (item.text ++ rest) := by
  cases item with
  | single n => exact n.stops_isBlank
  | range low before behind high =>
    rw [Item.text, List.append_assoc]
    exact low.stops_isBlank

/-- The numbers and ranges behind commas are read up to the colon. -/
theorem afterRanges_moreText (more : List (Margin × Margin × Item)) (gap : Program.Gap)
    (after : Text) {fuel : Nat}
    (enough : more.length ≤ fuel) :
    afterRanges fuel (Label.moreText more ++ (gap.text ++ .char ':' :: after)) =
      gap.text ++ .char ':' :: after := by
  induction more generalizing fuel with
  | nil =>
    have left : (gap.text ++ .char ':' :: after).dropWhile isBlank = .char ':' :: after :=
      dropWhile_gap gap (stops_cons.mpr (by decide))
    cases fuel with
    | zero => rfl
    | succ fuel =>
      show afterRanges (fuel + 1) (gap.text ++ .char ':' :: after) = _
      rw [afterRanges, left]
      rfl
  | cons part more ih =>
    obtain ⟨before, behind, item⟩ := part
    obtain _ | fuel := fuel
    · simp at enough
    have toComma : (before.text ++ .char ',' :: (behind.text ++ (item.text ++ (Label.moreText more ++
        (gap.text ++ .char ':' :: after))))).dropWhile isBlank = _ :=
      dropWhile_gap before.gap (stops_cons.mpr (by decide))
    have toItem : (behind.text ++
        (item.text ++ (Label.moreText more ++ (gap.text ++ .char ':' :: after)))).dropWhile
        isBlank = _ := dropWhile_gap behind.gap item.stops_isBlank
    simp only [Label.moreText, List.append_assoc, List.cons_append]
    rw [afterRanges, toComma]
    simp only [toItem, afterRange?_text item (marked_moreText more gap after)]
    exact ih (Nat.le_of_succ_le_succ enough)

theorem length_le_length_moreText (more : List (Margin × Margin × Item)) :
    more.length ≤ (Label.moreText more).length := by
  induction more with
  | nil => exact Nat.zero_le _
  | cons part more ih =>
    simp only [Label.moreText, List.length_append, List.length_cons]
    omega

/-- A written label is read whole, up to a colon that does not belong to `:=`. -/
theorem label?_text (label : Label) (lead gap : Program.Gap) (other : rest.head? ≠ some (.char '=')) :
    label? (lead.text ++ (label.text ++ (gap.text ++ .char ':' :: rest))) = some (label.text, rest) := by
  have start : (lead.text ++ (label.text ++ (gap.text ++ .char ':' :: rest))).dropWhile isBlank
      = label.text ++ (gap.text ++ .char ':' :: rest) := by
    refine dropWhile_gap lead ?_
    rw [Label.text, List.append_assoc]
    exact label.first.stops_isBlank
  have first : afterRange? (label.text ++ (gap.text ++ .char ':' :: rest))
      = some (Label.moreText label.more ++ (gap.text ++ .char ':' :: rest)) := by
    rw [Label.text, List.append_assoc]
    exact afterRange?_text label.first (marked_moreText label.more gap rest)
  have more : afterRanges (Label.moreText label.more ++ (gap.text ++ .char ':' :: rest)).length
      (Label.moreText label.more ++ (gap.text ++ .char ':' :: rest)) = gap.text ++ .char ':' :: rest := by
    refine afterRanges_moreText label.more gap rest ?_
    rw [List.length_append]
    exact (length_le_length_moreText label.more).trans (Nat.le_add_right _ _)
  have colon : (gap.text ++ .char ':' :: rest).dropWhile isBlank = .char ':' :: rest :=
    dropWhile_gap gap (stops_cons.mpr (by decide))
  rw [label?, start]
  simp only [first, more, colon, Lexeme.taken_left]
  exact if_neg other

end

/-! ## What is read as a label -/

def isLabelChar (c : CodePoint) : Bool := isBlank c || isDecimal c || "-.,".toText.contains c

/-- Whether one text is an end of another and only characters of labels stand before it. -/
def Follows (t rest : Text) : Prop := ∃ m, t = m ++ rest ∧ ∀ c ∈ m, isLabelChar c = true

section

variable {t u rest : Text}

theorem Follows.refl (t : Text) : Follows t t := ⟨[], rfl, by simp⟩

theorem Follows.trans (first : Follows t u) (second : Follows u rest) : Follows t rest := by
  obtain ⟨m, rfl, fine⟩ := first
  obtain ⟨m', rfl, fine'⟩ := second
  refine ⟨m ++ m', by rw [List.append_assoc], fun c mem => ?_⟩
  exact (List.mem_append.mp mem).elim (fine c) (fine' c)

theorem Follows.cons {c : CodePoint} (fine : isLabelChar c = true) (h : Follows t rest) :
    Follows (c :: t) rest := by
  obtain ⟨m, rfl, others⟩ := h
  exact ⟨c :: m, rfl, List.forall_mem_cons.mpr ⟨fine, others⟩⟩

theorem follows_dropWhile {p : CodePoint → Bool} (fine : ∀ c, p c = true → isLabelChar c = true) (t : Text) :
    Follows t (t.dropWhile p) :=
  ⟨t.takeWhile p, List.takeWhile_append_dropWhile.symm, fun c mem => fine c (List.mem_takeWhile_imp mem)⟩

theorem follows_blanks (t : Text) : Follows t (t.dropWhile isBlank) :=
  follows_dropWhile (fun c blank => by rw [isLabelChar, blank, Bool.true_or, Bool.true_or]) t

theorem follows_afterNumber? (h : afterNumber? t = some rest) : Follows t rest := by
  rw [afterNumber?] at h
  split at h
  · cases h
    have sign : Follows t (Source.dropOne '-' t) := by
      cases t with
      | nil => exact Follows.refl []
      | cons c t =>
        rw [Source.dropOne]
        split
        · next minus =>
          subst minus
          exact (Follows.refl t).cons (by decide)
        · exact Follows.refl _
    refine sign.trans (follows_dropWhile (fun c decimal => ?_) _)
    rw [isLabelChar, decimal, Bool.or_true, Bool.true_or]
  · cases h

theorem follows_afterRange? (h : afterRange? t = some rest) : Follows t rest := by
  rw [afterRange?] at h
  split at h
  · cases h
  · next number low =>
    have front := follows_afterNumber? low
    split at h
    · next high points =>
      cases h
      cases read : afterNumber? (high.dropWhile isBlank) with
      | none => exact front
      | some rest =>
        have blanks := follows_blanks number
        rw [points] at blanks
        have inner : Follows (.char '.' :: .char '.' :: high) rest :=
          (((follows_blanks high).trans (follows_afterNumber? read)).cons (by decide)).cons (by decide)
        exact front.trans (blanks.trans inner)
    · cases h
      exact front

theorem follows_afterRanges (fuel : Nat) (t : Text) : Follows t (afterRanges fuel t) := by
  induction fuel generalizing t with
  | zero => exact Follows.refl t
  | succ fuel ih =>
    rw [afterRanges]
    split
    · next item comma =>
      split
      · next rest read =>
        have blanks := follows_blanks t
        rw [comma] at blanks
        have inner : Follows (.char ',' :: item) rest :=
          ((follows_blanks item).trans (follows_afterRange? read)).cons (by decide)
        exact (blanks.trans inner).trans (ih rest)
      · exact Follows.refl t
    · exact Follows.refl t

/-- What is read as a label has only the characters of labels before its colon. -/
theorem exists_of_label? {v : Text} (h : label? t = some (v, rest)) :
    ∃ m, t = m ++ .char ':' :: rest ∧ (∀ c ∈ m, isLabelChar c = true) ∧ rest.head? ≠ some (.char '=') := by
  rw [label?] at h
  split at h
  · cases h
  · next first read =>
    have front := (follows_blanks t).trans (follows_afterRange? read)
    have whole := (front.trans (follows_afterRanges first.length first)).trans (follows_blanks _)
    simp only at h
    split at h
    · next after colon =>
      rw [colon] at whole
      split at h
      · cases h
      · next other =>
        cases h
        obtain ⟨m, same, fine⟩ := whole
        exact ⟨m, same, fine, other⟩
    · cases h

end

/-! ## What a label holds -/

section

variable {k : Int} {lead trail : Text}

theorem labelNumber_text (n : Number) (before : ∀ c ∈ lead, Numeral.isMargin c = true)
    (behind : ∀ c ∈ trail, Numeral.isMargin c = true) : labelNumber (lead ++ (n.text ++ trail)) =
      .ok n.value := by
  rw [labelNumber, Number.text, Numeral.read_of_isDecimal before behind n.ne_nil n.valid n.short]
  rfl

theorem Number.mem_text {n : Number} {c : CodePoint} (mem : c ∈ n.text) :
    c = .char '-' ∨ isDecimal c = true := by
  rw [Number.text, Numeral.signed] at mem
  split at mem
  · exact (List.mem_cons.mp mem).imp_right (n.valid c)
  · exact .inr (n.valid c mem)

theorem ne_of_isMargin {c d : CodePoint} (h : Numeral.isMargin c = true)
    (other : isBlank d = false) : c ≠ d := by
  rintro rfl
  rw [Numeral.isBlank_of_isMargin h] at other
  cases other

theorem not_mem_number {n : Number} {c : CodePoint} (before : ∀ c ∈ lead, Numeral.isMargin c = true)
    (behind : ∀ c ∈ trail, Numeral.isMargin c = true) (blank : isBlank c = false)
    (digit : isDecimal c = false)
    (sign : c ≠ .char '-') : c ∉ lead ++ (n.text ++ trail) := by
  intro mem
  rcases List.mem_append.mp mem with mem | mem
  · exact ne_of_isMargin (before c mem) blank rfl
  rcases List.mem_append.mp mem with mem | mem
  · rcases n.mem_text mem with minus | decimal
    · exact sign minus
    · exact Numeral.ne_of_isDecimal decimal digit rfl
  · exact ne_of_isMargin (behind c mem) blank rfl

theorem splitOnce?_points {body rest : Text} (pointless : .char '.' ∉ body) :
    Text.splitOnce? "..".toText (body ++ ("..".toText ++ rest)) = some (body, rest) := by
  refine splitOnce?_append (by decide) fun x y same ne => ?_
  obtain ⟨c, y, rfl⟩ := List.exists_cons_of_ne_nil ne
  rintro ⟨after, front⟩
  have first : .char '.' = c := (List.cons.inj front).1
  exact pointless (by rw [same, ← first]; simp)

theorem rangeHolds_text (item : Item) (before : ∀ c ∈ lead, Numeral.isMargin c = true)
    (behind : ∀ c ∈ trail, Numeral.isMargin c = true) :
    rangeHolds k (lead ++ (item.text ++ trail)) = .ok (item.holds k) := by
  cases item with
  | single n =>
    have pointless : .char '.' ∉ lead ++ (n.text ++ trail) :=
      not_mem_number before behind (by decide) (by decide) (by decide)
    have whole : Text.splitOnce? ['.', '.'] (lead ++ (n.text ++ trail)) = none := by
      rw [Option.eq_none_iff_forall_ne_some]
      rintro ⟨body, rest⟩ found
      rw [(splitOnce?_eq_some (by decide) found).1] at pointless
      exact pointless (List.mem_append_right body (List.mem_append_left rest (by decide)))
    rw [Item.text, rangeHolds, whole]
    simp only [labelNumber_text n before behind]
    rfl
  | range low before' behind' high =>
    have pointless : .char '.' ∉ lead ++ (low.text ++ before'.text) :=
      not_mem_number before before'.valid (by decide) (by decide) (by decide)
    have same : lead ++ ((Item.range low before' behind' high).text ++ trail)
        = lead ++ (low.text ++ before'.text) ++ ("..".toText ++ (behind'.text ++ (high.text ++ trail))) := by
      simp only [Item.text, List.append_assoc]
    have parted : Text.splitOnce? ['.', '.'] (lead ++ ((Item.range low before' behind' high).text ++ trail))
        = some (lead ++ (low.text ++ before'.text), behind'.text ++ (high.text ++ trail)) := by
      rw [same]
      exact splitOnce?_points pointless
    rw [rangeHolds, parted]
    simp only [labelNumber_text low before before'.valid,
      labelNumber_text high behind'.valid behind, Item.holds]
    by_cases above : low.value ≤ k
    · simp [above, bind, Except.bind, pure, Except.pure]
    · simp [above, bind, Except.bind, pure, Except.pure]

theorem comma_not_mem (item : Item) (before : ∀ c ∈ lead, Numeral.isMargin c = true)
    (behind : ∀ c ∈ trail, Numeral.isMargin c = true) : .char ',' ∉ lead ++ (item.text ++ trail) := by
  cases item with
  | single n => exact not_mem_number before behind (by decide) (by decide) (by decide)
  | range low before' behind' high =>
    have left : .char ',' ∉ lead ++ (low.text ++ before'.text) :=
      not_mem_number before before'.valid (by decide) (by decide) (by decide)
    have right : .char ',' ∉ behind'.text ++ (high.text ++ trail) :=
      not_mem_number behind'.valid behind (by decide) (by decide) (by decide)
    have points : .char ',' ∉ "..".toText := by decide
    simp only [Item.text, List.mem_append, not_or] at left right ⊢
    exact ⟨left.1, ⟨left.2.1, left.2.2, points, right.1, right.2.1⟩, right.2.2⟩

/-- The parts of a label hold what its numbers and ranges hold. The blanks before a comma belong to
the part before it, and those behind it to the next. -/
theorem anyHolds_partsAt (item : Item) (more : List (Margin × Margin × Item))
    (before : ∀ c ∈ lead, Numeral.isMargin c = true) :
    anyHolds k (Text.partsAt ',' (lead ++ (item.text ++ Label.moreText more)))
      = .ok (item.holds k || more.any fun part => part.2.2.holds k) := by
  induction more generalizing item lead with
  | nil =>
    have last : ∀ c ∈ ([] : Text), Numeral.isMargin c = true := by simp
    rw [Label.moreText, partsAt_of_not_mem (comma_not_mem item before last), anyHolds,
      rangeHolds_text item before last]
    cases item.holds k <;> rfl
  | cons part more ih =>
    obtain ⟨margin, margin', next⟩ := part
    have whole : lead ++ (item.text ++ Label.moreText ((margin, margin', next) :: more))
        = lead ++ (item.text ++ margin.text) ++ .char ',' ::
          (margin'.text ++ (next.text ++ Label.moreText more)) := by
      simp only [Label.moreText, List.append_assoc]
    rw [whole, partsAt_append_cons (comma_not_mem item before margin.valid), anyHolds,
      rangeHolds_text item before margin.valid]
    cases item.holds k with
    | true => rfl
    | false => exact ih next margin'.valid

/-- A written label holds the numbers that its parts hold. -/
theorem labelHolds_text (label : Label) : labelHolds k label.text = .ok (label.holds k) :=
  @anyHolds_partsAt k [] label.first label.more (by simp)

theorem firstLabel?_text (labels : List Label) :
    Source.firstLabel? k (labels.map Label.text) = .ok ((labels.find? (Label.holds k)).map Label.text) := by
  induction labels with
  | nil => rfl
  | cons label labels ih =>
    rw [List.map_cons, Source.firstLabel?, labelHolds_text]
    cases hit : label.holds k with
    | true => rw [List.find?_cons_of_pos hit]; rfl
    | false => rw [List.find?_cons_of_neg (by rw [hit]; decide)]; exact ih

end

end SclNarrator.Selection
