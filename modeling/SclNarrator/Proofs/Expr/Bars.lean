import SclNarrator.Proofs.Expr.Junctions
import SclNarrator.Proofs.Expr.Variables

/-!
Characters at which the scanner always stops: blanks, parentheses, `&` and `|`. No kind of token but
strings and the operators of these signs goes over one of them, so what is scanned before it does
not depend on what follows. A text whose strings are complete and whose code has none of the signs
is scanned into tokens that neither join nor nest (`flat_of_shapes`), and in front of a bar it is
scanned as it is alone (`shapes_append`).
-/

namespace SclNarrator

/-- Parentheses and the signs that `AND` and `OR` are written with. -/
def isHard (c : CodePoint) : Bool := c == '(' || c == ')' || c == '&' || c == '|'

/-- Whether the scanner always stops before a character. -/
def isBar (c : CodePoint) : Bool := isBlank c || isHard c

/-- Whether a text is over or goes on with a bar. -/
def Barred (t : Text) : Prop := Stops (fun c => !isBar c) t

theorem eq_of_isHard {c : CodePoint} (h : isHard c = true) :
    c = '(' ∨ c = ')' ∨ c = '&' ∨ c = '|' := by
  simpa [isHard, or_assoc] using h

theorem not_of_isBar {p : CodePoint → Bool}
    (blanks : (rangeMembers blankRanges).all fun n => !p (CodePoint.ofNat n))
    (signs : p '(' = false ∧ p ')' = false ∧ p '&' = false ∧ p '|' = false) {c : CodePoint}
    (h : isBar c = true) : p c = false := by
  rw [isBar, Bool.or_eq_true] at h
  rcases h with blank | hard
  · have := forall_blank (P := fun c => !p c) blanks blank
    simpa using this
  · rcases eq_of_isHard hard with rfl | rfl | rfl | rfl
    · exact signs.1
    · exact signs.2.1
    · exact signs.2.2.1
    · exact signs.2.2.2

theorem Barred.stops {p : CodePoint → Bool} {t : Text} (h : Barred t)
    (blanks : (rangeMembers blankRanges).all fun n => !p (CodePoint.ofNat n))
    (signs : p '(' = false ∧ p ')' = false ∧ p '&' = false ∧ p '|' = false) : Stops p t := by
  intro c first
  have bar : isBar c = true := by simpa using h c first
  exact not_of_isBar blanks signs bar

theorem isWord_of_isBar {c : CodePoint} (h : isBar c = true) : isWord c = false :=
  not_of_isBar (p := isWord) (by decide +kernel) (by decide) h

theorem Barred.head?_ne {c : CodePoint} {t : Text} (bar : Barred t) (h : isBar c = false) :
    t.head? ≠ some c := by
  intro first
  have : (!isBar c) = false := bar c first
  rw [h] at this
  cases this

theorem barred_cons {c : CodePoint} {t : Text} (h : isBar c = true) : Barred (c :: t) :=
  stops_cons.mpr (by rw [h]; rfl)

/-- What is found in front of a text, with more behind it. -/
def extend {κ : Type} (v : Text) (found : κ × Text) : κ × Text := (found.1, found.2 ++ v)

/-- A part without bars is found before a bar as it is found at the end. -/
theorem dropPart?_barred {part : Text} (plain : ∀ c ∈ part, isBar c = false) {v : Text}
    (bar : Barred v) (u : Text) :
    Text.dropPart? part (u ++ v) = (Text.dropPart? part u).map (· ++ v) := by
  induction part generalizing u with
  | nil => rfl
  | cons k part ih =>
    rw [List.forall_mem_cons] at plain
    cases u with
    | cons c u =>
      rw [List.cons_append, Text.dropPart?, Text.dropPart?]
      split
      · exact ih plain.2 u
      · rfl
    | nil =>
      cases v with
      | nil => rfl
      | cons c v =>
        have other : k ≠ c := by
          rintro rfl
          have := stops_cons.mp bar
          rw [plain.1] at this
          cases this
        exact if_neg other

namespace Lexeme

variable {u v : Text}

theorem taken_extend (u r v : Text) : taken (u ++ v) (r ++ v) = extend v (taken u r) := by
  have size : (u ++ v).length - (r ++ v).length = u.length - r.length := by
    simp only [List.length_append]
    omega
  rw [taken, taken, size, List.take_append_of_le_length (Nat.sub_le ..)]
  rfl

theorem blanks?_append (stop : Stops isBlank v ∨ u.blank = false) :
    blanks? (u ++ v) = (blanks? u).map (extend v) := by
  have run : run isBlank (u ++ v) = extend v (run isBlank u) := by
    rcases stop with stop | solid
    · rw [Lexeme.run, Lexeme.run, takeWhile_append_stops u stop, dropWhile_append_stops u stop]
      rfl
    · obtain ⟨c, rest, left⟩ := List.exists_cons_of_ne_nil (l := u.dropWhile isBlank) (by
        rw [ne_eq, List.dropWhile_eq_nil_iff]
        simpa [Text.blank] using solid)
      obtain ⟨front, back⟩ := takeWhile_append_of_ne_nil left v
      rw [Lexeme.run, Lexeme.run, front, back, left]
      rfl
  rw [blanks?, blanks?, run]
  obtain ⟨front, back⟩ := Lexeme.run isBlank u
  cases front with
  | nil => rfl
  | cons c front => rfl

/-- The first thing found is the same with more behind, if each thing is. -/
theorem findSome?_extend {α β γ : Type} {f : α → Option γ} {g : α → Option β} {h : β → γ} {xs : List α}
    (same : ∀ x ∈ xs, f x = (g x).map h) : xs.findSome? f = (xs.findSome? g).map h := by
  induction xs with
  | nil => rfl
  | cons x xs ih =>
    rw [List.forall_mem_cons] at same
    rw [List.findSome?_cons, List.findSome?_cons, same.1]
    cases g x with
    | none => exact ih same.2
    | some b => rfl

theorem durationMark?_append (bar : Barred v) : durationMark? (u ++ v) = (durationMark? u).map (· ++ v) := by
  have letters : ∀ w ∈ ["ltime", "time", "lt", "t"], ∀ k ∈ w.toText, isWord k = true := by decide
  have stop : Stops isWord v := bar.stops (by decide +kernel) (by decide)
  have hash : v.head? ≠ some (.char '#') := bar.head?_ne (by decide)
  refine findSome?_extend fun word mem => ?_
  rw [dropLoose?_append (letters word mem) stop]
  cases dropLoose? word.toText u with
  | none => rfl
  | some rest =>
    cases rest with
    | cons c rest =>
      by_cases mark : c = '#'
      · subst mark
        rfl
      · simp [mark]
    | nil =>
      cases v with
      | nil => rfl
      | cons c v =>
        have other : c ≠ '#' := fun same => hash (by rw [same]; rfl)
        simp [other]

theorem duration?_append (bar : Barred v) : duration? (u ++ v) = (duration? u).map (extend v) := by
  have stop : Stops isDurationChar v := bar.stops (by decide) (by decide)
  have digit : Stops CodePoint.isDigit v := bar.stops (by decide) (by decide)
  have minus : v.head? ≠ some '-' := bar.head?_ne (by decide)
  have signed (body : Text) : (if (body ++ v).head? = some '-' then (body ++ v).tail else body ++ v) =
      (if body.head? = some '-' then body.tail else body) ++ v := by
    cases body with
    | nil => exact if_neg minus
    | cons c body => by_cases sign : c = '-' <;> simp [sign]
  rw [duration?, duration?, durationMark?_append bar]
  cases durationMark? u with
  | none => rfl
  | some body =>
    simp only [Option.map_some, signed]
    generalize (if body.head? = some '-' then body.tail else body) = tail
    cases tail with
    | cons c rest =>
      simp only [List.cons_append]
      split
      · rw [dropWhile_append_stops rest stop, taken_extend]
        rfl
      · rfl
    | nil =>
      cases v with
      | nil => rfl
      | cons c v => simp [stops_cons.mp digit]

theorem based?_append (bar : Barred v) : based? (u ++ v) = (based? u).map (extend v) := by
  have marks : ∀ m ∈ ["2#", "8#", "16#"], ∀ c ∈ m.toText, isBar c = false := by decide
  have stop : Stops (fun c => isHex c || c == '_') v := bar.stops (by decide) (by decide)
  refine findSome?_extend fun mark mem => ?_
  rw [dropPart?_barred (marks mark mem) bar]
  cases Text.dropPart? mark.toText u with
  | none => rfl
  | some body =>
    simp only [Option.map_some, run, takeWhile_append_stops body stop, dropWhile_append_stops body stop]
    cases body.takeWhile fun c => isHex c || c == '_' with
    | nil => rfl
    | cons c digits => rfl

theorem exponent?_append (bar : Barred v) :
    Decimal.exponent? (u ++ v) = (Decimal.exponent? u).map (extend v) := by
  have stop : Stops isDecimal v := bar.stops (by decide +kernel) (by decide)
  have signed (negative : Bool) (t : Text) :
      signedExponent negative (t ++ v) = (signedExponent negative t).map (extend v) := by
    rw [signedExponent, signedExponent, takeWhile_append_stops t stop, dropWhile_append_stops t stop]
    split <;> rfl
  cases u with
  | nil =>
    cases v with
    | nil => rfl
    | cons c v =>
      have other {k : CodePoint} (h : isBar k = false) : c ≠ k :=
        fun same => bar.head?_ne h (by rw [same]; rfl)
      have noMark : ¬(c = 'e' ∨ c = 'E') := not_or.mpr ⟨other (by decide), other (by decide)⟩
      simp [Decimal.exponent?, noMark]
  | cons c u =>
    by_cases mark : c = 'e' ∨ c = 'E'
    · rw [List.cons_append, exponent?_cons mark, exponent?_cons mark]
      cases u with
      | nil =>
        rw [List.nil_append, if_neg (bar.head?_ne (by decide)), if_neg (bar.head?_ne (by decide))]
        exact signed false []
      | cons d u =>
        rw [List.cons_append, List.head?_cons, List.tail_cons, List.head?_cons, List.tail_cons]
        by_cases minus : some d = some (.char '-')
        · rw [if_pos minus, if_pos minus]
          exact signed true u
        · rw [if_neg minus, if_neg minus]
          by_cases plus : some d = some (.char '+')
          · rw [if_pos plus, if_pos plus]
            exact signed false u
          · rw [if_neg plus, if_neg plus]
            exact signed false (d :: u)
    · simp [Decimal.exponent?, mark]

theorem parts?_append (bar : Barred v) : Decimal.parts? (u ++ v) = (Decimal.parts? u).map (extend v) := by
  have stop : Stops isDecimal v := bar.stops (by decide +kernel) (by decide)
  have exponent (whole fraction t : Text) :
      withExponent whole fraction (t ++ v) = (withExponent whole fraction t).map (extend v) := by
    rw [withExponent, withExponent, exponent?_append bar]
    split
    · rfl
    · cases Decimal.exponent? t <;> rfl
  rw [parts?_eq, parts?_eq, takeWhile_append_stops u stop, dropWhile_append_stops u stop]
  cases u.dropWhile isDecimal with
  | nil =>
    rw [List.nil_append, if_neg (bar.head?_ne (by decide))]
    exact exponent _ [] []
  | cons c rest =>
    rw [List.cons_append, List.head?_cons, List.tail_cons, List.head?_cons, List.tail_cons,
      takeWhile_append_stops rest stop, dropWhile_append_stops rest stop]
    by_cases point : some c = some (.char '.')
    · rw [if_pos point, if_pos point]
      exact exponent _ _ _
    · rw [if_neg point, if_neg point]
      exact exponent _ [] (c :: rest)

theorem number?_append (bar : Barred v) : number? (u ++ v) = (number? u).map (extend v) := by
  rw [number?, number?, parts?_append bar, Option.map_map, Option.map_map]
  congr 1
  funext found
  exact taken_extend u found.2 v

theorem afterMembers_of_barred (bar : Barred v) (fuel : Nat) : afterMembers fuel v = v := by
  have point : v.head? ≠ some (.char '.') := bar.head?_ne (by decide)
  cases fuel with
  | zero => rfl
  | succ fuel =>
    cases v with
    | nil => rfl
    | cons c v =>
      have other : c ≠ '.' := fun same => point (by rw [same]; rfl)
      simp [afterMembers, other]

theorem afterMembers_append (bar : Barred v) (fuel more : Nat) (t : Text) (enough : t.length ≤ fuel) :
    afterMembers (fuel + more) (t ++ v) = afterMembers fuel t ++ v := by
  have stop : Stops isWord v := bar.stops (by decide +kernel) (by decide)
  have start : Stops isNameStart v := bar.stops (by decide) (by decide)
  induction fuel generalizing t with
  | zero =>
    obtain rfl := List.eq_nil_of_length_eq_zero (Nat.le_zero.mp enough)
    exact afterMembers_of_barred bar _
  | succ fuel ih =>
    rw [Nat.succ_add]
    cases t with
    | nil => exact afterMembers_of_barred bar _
    | cons c t =>
      by_cases point : c = '.'
      · subst point
        cases t with
        | nil =>
          cases v with
          | nil => rfl
          | cons d v => simp [afterMembers, stops_cons.mp start]
        | cons d t =>
          have shorter : (t.dropWhile isWord).length ≤ fuel := by
            have := (t.dropWhile_suffix isWord).length_le
            simp only [List.length_cons] at enough
            omega
          have later := ih (t.dropWhile isWord) shorter
          rw [← dropWhile_append_stops t stop] at later
          by_cases opens : isNameStart d = true
          · simpa [afterMembers, opens] using later
          · simp [afterMembers, opens]
      · simp [afterMembers, point]

theorem name?_append (bar : Barred v) : name? (u ++ v) = (name? u).map (extend v) := by
  have hash : v.head? ≠ some '#' := bar.head?_ne (by decide)
  have stop : Stops isWord v := bar.stops (by decide +kernel) (by decide)
  have start : Stops isNameStart v := bar.stops (by decide) (by decide)
  have bare : (if (u ++ v).head? = some '#' then (u ++ v).tail else u ++ v) =
      (if u.head? = some '#' then u.tail else u) ++ v := by
    cases u with
    | nil => exact if_neg hash
    | cons c u => by_cases sign : c = '#' <;> simp [sign]
  rw [name?, name?, bare]
  generalize (if u.head? = some '#' then u.tail else u) = body
  cases body with
  | nil =>
    cases v with
    | nil => rfl
    | cons c v => simp [stops_cons.mp start]
  | cons c rest =>
    simp only [List.cons_append]
    split
    · rw [dropWhile_append_stops rest stop, List.length_append, afterMembers_append bar _ _ _ (Nat.le_refl _),
        taken_extend]
      rfl
    · rfl

/-- An operator without bars ends before a bar, and one of the signs does not start with another character. -/
theorem operator?_append {c : CodePoint} (soft : isHard c = false) (bar : Barred v) :
    operator? (c :: u ++ v) = (operator? (c :: u)).map (extend v) := by
  have kinds : ∀ op ∈ operators, (∀ k ∈ op, isBar k = false) ∨ op.head?.any isHard = true := by decide
  refine findSome?_extend fun op mem => ?_
  rcases kinds op mem with plain | hard
  · rw [dropPart?_barred plain bar]
    cases Text.dropPart? op (c :: u) <;> rfl
  · cases op with
    | nil => cases hard
    | cons k op =>
      have other : k ≠ c := by
        rintro rfl
        rw [List.head?_cons, Option.any_some, soft] at hard
        cases hard
      rw [List.cons_append, Text.dropPart?, if_neg other, Text.dropPart?, if_neg other]
      rfl

theorem hash?_append (c : CodePoint) (u v : Text) :
    hash? (c :: u ++ v) = (hash? (c :: u)).map (extend v) := by
  by_cases sign : c = '#'
  · subst sign
    rfl
  · simp [hash?, sign]

/-- Whether a text has complete strings only, and none of the signs outside of them. -/
inductive Barless : Text → Prop where
  | nil : Barless []
  | code {c : CodePoint} {t : Text} (soft : isHard c = false) (plain : Term.isQuotable c = true)
      (later : Barless t) : Barless (c :: t)
  | string {q t : Text} (quoted : Item.IsString q) (later : Barless t) : Barless (q ++ t)

/-- The stretch at the start of a text is the same before a bar, unless it is blank and the bar is, too. -/
theorem next?_append (h : Barless u) (ne : u ≠ []) (bar : Barred v)
    (stop : Stops isBlank v ∨ u.blank = false) :
    next? (u ++ v) = (next? u).map fun found => (found.1, extend v found.2) := by
  cases h with
  | nil => exact absurd rfl ne
  | string quoted later =>
    rw [List.append_assoc, next?_string quoted, next?_string quoted]
    rfl
  | @code c t soft plain later =>
    rw [next?, next?, blanks?_append stop, duration?_append bar, based?_append bar, number?_append bar,
      name?_append bar, operator?_append soft bar, hash?_append, List.cons_append, string?_eq_none plain,
      string?_eq_none plain]
    simp only [Option.orElse_eq_orElse, Option.orElse_eq_or, Option.map_or, Option.map_map, Option.map_none]
    rfl

theorem Barless.append (h : Barless u) (later : Barless v) : Barless (u ++ v) := by
  induction h with
  | nil => exact later
  | code soft plain _ ih => exact .code soft plain ih
  | string quoted _ ih =>
    rw [List.append_assoc]
    exact .string quoted ih

theorem barless_of_code (h : ∀ c ∈ u, isHard c = false ∧ Term.isQuotable c = true) : Barless u := by
  induction u with
  | nil => exact .nil
  | cons c u ih =>
    obtain ⟨here, later⟩ := List.forall_mem_cons.mp h
    exact .code here.1 here.2 (ih later)

theorem Barless.of_append {x rest : Text} (h : Barless (x ++ rest))
    (plain : ∀ c ∈ x, Term.isQuotable c = true) :
    Barless rest := by
  induction x with
  | nil => exact h
  | cons c x ih =>
    obtain ⟨here, later⟩ := List.forall_mem_cons.mp plain
    generalize same : c :: x ++ rest = t at h
    cases h with
    | nil => cases same
    | code _ _ h =>
      obtain ⟨rfl, rfl⟩ := List.cons.inj same
      exact ih h later
    | string quoted _ =>
      -- a string starts with a quote
      obtain ⟨d, more, rfl, quote⟩ := exists_quote quoted
      obtain ⟨rfl, -⟩ := List.cons.inj same
      rcases quote with rfl | rfl <;> cases here

theorem isQuotable_of_isDull {c : CodePoint} (h : Quoting.isDull c = true) : Term.isQuotable c = true := by
  simp only [Quoting.isDull, Bool.and_eq_true] at h
  rw [Term.isQuotable, Bool.and_eq_true]
  exact h.1

theorem Lexed.isQuotable {kind? : Option TokenKind} {x rest : Text} (h : Lexed kind? x rest)
    (code : kind? ≠ some .string) : ∀ c ∈ x, Term.isQuotable c = true := by
  intro c mem
  refine isQuotable_of_isDull ?_
  match kind?, h with
  | none, h => exact (h c mem).1
  | some .op, h => exact (h c mem).1
  | some .time, h => exact h c mem
  | some .based, h => exact h c mem
  | some .number, h => exact h c mem
  | some .string, h => exact absurd rfl code
  | some .name, h => exact h.1 c mem

/-- What a stretch leaves of such a text is such a text, and it is no parenthesis and joins nothing. -/
theorem Barless.next? {kind? : Option TokenKind} {x rest : Text} (h : Barless u)
    (found : Lexeme.next? u = some (kind?, x, rest)) :
    Barless rest ∧ ∀ kind ∈ kind?, Grammar.marks.delta (kind, x) = 0 ∧
      Grammar.marks.junction? (kind, x) = none := by
  have marked {kind : TokenKind} {x : Text} (soft : kind = .op → Stops isHard x) :
      Grammar.marks.delta (kind, x) = 0 ∧ Grammar.marks.junction? (kind, x) = none := by
    have other {m : Text} (hard : m.head?.any isHard = true) : (kind, x) ≠ (.op, m) := by
      rintro same
      obtain ⟨rfl, rfl⟩ := Prod.mk.inj same
      rw [any_head_eq_false.mpr (soft rfl)] at hard
      cases hard
    exact ⟨(if_neg (other (by decide))).trans (if_neg (other (by decide))),
      (if_neg (other (by decide))).trans (if_neg (other (by decide)))⟩
  obtain ⟨whole, ne, lexed⟩ := next?_eq_some found
  cases h with
  | nil =>
    obtain ⟨rfl, -⟩ := List.append_eq_nil_iff.mp whole.symm
    exact absurd rfl ne
  | string quoted later =>
    rw [next?_string quoted] at found
    cases found
    exact ⟨later, fun kind mem => marked fun op => by cases mem; cases op⟩
  | @code c t soft plain later =>
    obtain ⟨d, y, rfl⟩ := List.exists_cons_of_ne_nil ne
    obtain ⟨rfl, rest⟩ := List.cons.inj whole
    have code : kind? ≠ some .string := by
      rintro rfl
      obtain ⟨q, inner, same, quote⟩ := lexed
      obtain ⟨rfl, -⟩ := List.cons.inj same
      rcases quote with ⟨rfl, -⟩ | ⟨rfl, -⟩ <;> cases plain
    refine ⟨Barless.of_append (whole ▸ .code soft plain later) (lexed.isQuotable code),
      fun kind _ => marked fun _ => ?_⟩
    exact stops_cons.mpr soft

end Lexeme

/-! ## Shapes of tokens -/

namespace Token

open Lexeme

variable {t u v : Text}

/-- The tokens of a text without their positions, if it has tokens. -/
def shapes (t : Text) : Option (List (TokenKind × Text)) := (scan t).toOption.map (List.map shape)

theorem shapes_nil : shapes [] = some [] := rfl

theorem stretch_induction {motive : Text → Prop} (nil : motive [])
    (stray : ∀ u, u ≠ [] → next? u = none → motive u)
    (step : ∀ u kind? x rest, u ≠ [] → next? u = some (kind?, x, rest) → motive rest → motive u) (u : Text) :
    motive u := by
  induction size : u.length using Nat.strongRecOn generalizing u with
  | _ size ih =>
    subst size
    by_cases ne : u = []
    · subst ne
      exact nil
    cases found : next? u with
    | none => exact stray u ne found
    | some stretch =>
      obtain ⟨kind?, x, rest⟩ := stretch
      obtain ⟨whole, nonempty, -⟩ := next?_eq_some found
      have shorter : rest.length < u.length := by
        have := List.length_pos_iff.mpr nonempty
        rw [whole, List.length_append]
        omega
      exact step u kind? x rest ne found (ih rest.length shorter rest rfl)

theorem shapes_scanFrom (t : Text) (position : Nat) :
    (scanFrom position 0 t).toOption.map (List.map shape) = shapes t := by
  suffices general : ∀ a b : Nat,
      (scanFrom a 0 t).toOption.map (List.map shape) = (scanFrom b 0 t).toOption.map (List.map shape) from
    general position 0
  induction t using stretch_induction with
  | nil => exact fun a b => rfl
  | stray t ne found =>
    intro a b
    obtain ⟨c, t, rfl⟩ := List.exists_cons_of_ne_nil ne
    rw [scanFrom_of_none found, scanFrom_of_none found]
    rfl
  | step t kind? x rest ne found ih =>
    intro a b
    have shaped (position : Nat) : (scanFrom position 0 t).toOption.map (List.map shape) =
        ((scanFrom (position + x.length) 0 rest).toOption.map (List.map shape)).map
          ((kind?.map (·, x)).toList ++ ·) := by
      rw [scanFrom_of_next? found]
      cases scanFrom (position + x.length) 0 rest with
      | error fault => rfl
      | ok tokens => cases kind? <;> rfl
    rw [shaped, shaped, ih (a + x.length) (b + x.length)]

theorem shapes_of_next? {kind? : Option TokenKind} {x rest : Text} (h : next? t = some (kind?, x, rest)) :
    shapes t = (shapes rest).map ((kind?.map (·, x)).toList ++ ·) := by
  rw [← shapes_scanFrom rest (0 + x.length), shapes, scan, scanFrom_of_next? h]
  cases scanFrom (0 + x.length) 0 rest with
  | error fault => rfl
  | ok tokens => cases kind? <;> rfl

theorem shapes_of_none (ne : t ≠ []) (h : next? t = none) : shapes t = none := by
  obtain ⟨c, t, rfl⟩ := List.exists_cons_of_ne_nil ne
  rw [shapes, scan, scanFrom_of_none h]
  rfl

/-- A property of texts with complete strings and no signs that is passed on from what a stretch leaves. -/
theorem barless_induction {motive : (u : Text) → Barless u → Prop} (nil : motive [] .nil)
    (stray : ∀ u (h : Barless u), u ≠ [] → next? u = none → motive u h)
    (step : ∀ u kind? x rest (h : Barless u) (later : Barless rest), u ≠ [] →
      next? u = some (kind?, x, rest) → motive rest later → motive u h) {u : Text} (h : Barless u) :
        motive u h := by
  induction u using stretch_induction with
  | nil => exact nil
  | stray u ne found => exact stray u h ne found
  | step u kind? x rest ne found ih =>
    have later := (h.next? found).1
    exact step u kind? x rest h later ne found (ih later)

/-- In front of a bar that is no blank a text is scanned as it is alone. -/
theorem shapes_append (h : Barless u) (bar : Barred v) (stop : Stops isBlank v) :
    shapes (u ++ v) = (shapes u).bind fun a => (shapes v).map (a ++ ·) := by
  induction h using barless_induction with
  | nil => rw [shapes_nil, List.nil_append, Option.bind_some]; simp
  | stray u h ne found =>
    have same := next?_append h ne bar (.inl stop)
    rw [found] at same
    rw [shapes_of_none (by simp [ne]) same, shapes_of_none ne found]
    rfl
  | step u kind? x rest h _ ne found ih =>
    have same : next? (u ++ v) = some (kind?, x, rest ++ v) := by
      rw [next?_append h ne bar (.inl stop), found]
      rfl
    rw [shapes_of_next? same, shapes_of_next? found, ih, Option.map_bind, Option.bind_map]
    congr 1
    funext a
    simp [Function.comp_def]

/-! ### Blanks around a text -/

theorem shapes_dropWhile (t : Text) : shapes (t.dropWhile isBlank) = shapes t := by
  cases front : t.takeWhile isBlank with
  | nil =>
    have whole := List.takeWhile_append_dropWhile (p := isBlank) (l := t)
    rw [front, List.nil_append] at whole
    rw [whole]
  | cons c front' =>
    have found : next? t = some (none, c :: front', t.dropWhile isBlank) := by
      rw [next?, blanks?, run, front]
      rfl
    rw [shapes_of_next? found]
    simp

theorem shapes_cons_blank {b : CodePoint} (blank : isBlank b = true) (t : Text) :
    shapes (b :: t) = shapes t := by
  rw [← shapes_dropWhile (b :: t), ← shapes_dropWhile t, List.dropWhile_cons_of_pos blank]

theorem shapes_of_blank (blank : u.blank = true) : shapes u = some [] := by
  have nothing : u.dropWhile isBlank = [] := by
    rw [List.dropWhile_eq_nil_iff]
    simpa [Text.blank] using blank
  rw [← shapes_dropWhile, nothing]
  rfl

theorem shapes_append_blank {b : CodePoint} (h : Barless u) (blank : isBlank b = true) :
    shapes (u ++ [b]) = shapes u := by
  have bar : Barred [b] := barred_cons (by rw [isBar, blank]; rfl)
  induction h using barless_induction with
  | nil => exact shapes_cons_blank blank []
  | stray u h ne found =>
    have solid : u.blank = false := by
      rw [Bool.eq_false_iff]
      intro all
      have made := shapes_of_blank all
      rw [shapes_of_none ne found] at made
      cases made
    have same : next? (u ++ [b]) = none := by
      rw [next?_append h ne bar (.inr solid), found]
      rfl
    rw [shapes_of_none (by simp) same, shapes_of_none ne found]
  | step u kind? x rest h _ ne found ih =>
    cases all : u.blank with
    | true =>
      have more : (u ++ [b]).blank = true := by
        simp only [Text.blank, List.all_append] at all ⊢
        rw [all, List.all_cons, blank]
        rfl
      rw [shapes_of_blank all, shapes_of_blank more]
    | false =>
      have same : next? (u ++ [b]) = some (kind?, x, rest ++ [b]) := by
        rw [next?_append h ne bar (.inr all), found]
        rfl
      rw [shapes_of_next? same, shapes_of_next? found, ih]

/-! ### Signs -/

/-- The texts of the tokens that join or nest. -/
def signs : List Text := ["(".toText, ")".toText, "&&".toText, "||".toText]

theorem barred_sign {m : Text} (mem : m ∈ signs) (v : Text) : Barred (m ++ v) ∧ Stops isBlank (m ++ v) := by
  have first : ∀ m ∈ signs, m ≠ [] ∧ Barred m ∧ Stops isBlank m := by
    intro m mem
    simp only [signs, List.mem_cons, List.not_mem_nil, or_false] at mem
    rcases mem with rfl | rfl | rfl | rfl
    all_goals exact ⟨by decide, barred_cons (by decide), stops_cons.mpr (by decide)⟩
  obtain ⟨ne, bar, stop⟩ := first m mem
  exact ⟨Stops.append bar ne, Stops.append stop ne⟩

theorem shapes_sign {m : Text} (mem : m ∈ signs) (v : Text) :
    shapes (m ++ v) = (shapes v).map ((.op, m) :: ·) := by
  have found : next? (m ++ v) = some (some .op, m, v) := by
    simp only [signs, List.mem_cons, List.not_mem_nil, or_false] at mem
    rcases mem with rfl | rfl | rfl | rfl
    all_goals exact next?_operator (by decide) (by decide) rfl
  rw [shapes_of_next? found]
  rfl

theorem shapes_append_sign (h : Barless u) {m : Text} (mem : m ∈ signs) (v : Text) :
    shapes (u ++ (m ++ v)) = (shapes u).bind fun a => (shapes v).map fun b => a ++ (.op, m) :: b := by
  obtain ⟨bar, stop⟩ := barred_sign mem v
  rw [shapes_append h bar stop, shapes_sign mem]
  simp only [Option.map_map, Function.comp_def]

/-- Such a text makes no tokens that join or nest. -/
theorem flat_of_shapes {a : List (TokenKind × Text)} (h : Barless u) (made : shapes u = some a) :
    ∀ s ∈ a, Grammar.marks.delta s = 0 ∧ Grammar.marks.junction? s = none := by
  induction h using barless_induction generalizing a with
  | nil =>
    cases made
    simp
  | stray u h ne found =>
    rw [shapes_of_none ne found] at made
    cases made
  | step u kind? x rest h _ ne found ih =>
    rw [shapes_of_next? found] at made
    obtain ⟨b, later, rfl⟩ := Option.map_eq_some_iff.mp made
    have flat := (h.next? found).2
    intro s mem
    rcases List.mem_append.mp mem with here | there
    · obtain ⟨kind, among, rfl⟩ : ∃ kind ∈ kind?, (kind, x) = s := by simpa using here
      exact flat kind among
    · exact ih later s there

end Token
end SclNarrator
