import SclNarrator.Proofs.Expr.Scan
import SclNarrator.Proofs.Text.Words

/-!
The stretches of expression text as languages. The scanner tries eight rules in order. What a rule
can be is a set of texts (`Rule.Admits`), and its reader takes the longest text of the set that
stands in front, if there is one (`Rule.greedy`). So the scanner takes the longest text of the first
rule that fits (`next?_eq_some_iff`), and nothing where no rule fits (`next?_eq_none_iff`).
-/

namespace SclNarrator
namespace Lexeme

variable {t x y rest : Text}

/-! ## Languages -/

/-- The digits of a number: with a point before, among or behind them, or without one. -/
inductive IsMantissa : Text → Prop where
  | whole {digits : Text} (ne : digits ≠ []) (all : ∀ c ∈ digits, isDecimal c = true) : IsMantissa digits
  | pointed {whole fraction : Text} (ne : whole ++ fraction ≠ []) (left : ∀ c ∈ whole, isDecimal c = true)
      (right : ∀ c ∈ fraction, isDecimal c = true) : IsMantissa (whole ++ .char '.' :: fraction)

/-- The exponent of a number: its letter, a sign if there is one, and digits. -/
def IsExponent (x : Text) : Prop :=
  ∃ (mark : CodePoint) (sign digits : Text), x = mark :: (sign ++ digits) ∧ (mark = 'e' ∨ mark = 'E') ∧
    (sign = [] ∨ sign = ['-'] ∨ sign = ['+']) ∧ digits ≠ [] ∧ ∀ c ∈ digits, isDecimal c = true

/-- What can stand between double quotes: a backslash hides the character behind it, which is no line end. -/
inductive IsEscaped : Text → Prop where
  | nil : IsEscaped []
  | plain {c : CodePoint} {u : Text} (quote : c ≠ '"') (slash : c ≠ '\\') (later : IsEscaped u) :
    IsEscaped (c :: u)
  | hidden {c : CodePoint} {u : Text} (line : c ≠ '\n') (later : IsEscaped u) :
    IsEscaped (.char '\\' :: c :: u)

/-- What the scanner can take at a point. -/
inductive Rule where
  | blanks | time | based | number | string | name | op | hash
  deriving DecidableEq, Repr

namespace Rule

/-- The place of a rule in the order in which they are tried. -/
def rank : Rule → Nat
  | blanks => 0
  | time => 1
  | based => 2
  | number => 3
  | string => 4
  | name => 5
  | op => 6
  | hash => 7

/-- The kind of the token that is made of it; blanks and a lone `#` make none. -/
def kind? : Rule → Option TokenKind
  | blanks | hash => none
  | time => some .time
  | based => some .based
  | number => some .number
  | string => some .string
  | name => some .name
  | op => some .op

def Admits : Rule → Text → Prop
  | blanks, x => x ≠ [] ∧ ∀ c ∈ x, isBlank c = true
  | time, x => ∃ (word sign : Text) (digit : CodePoint) (body : Text),
      x = word ++ .char '#' :: (sign ++ digit :: body) ∧
      word.map looseLetter ∈ ["ltime".toText, "time".toText, "lt".toText, "t".toText] ∧
      (sign = [] ∨ sign = ['-']) ∧ digit.isDigit = true ∧ ∀ c ∈ body, isDurationChar c = true
  | based, x => ∃ mark digits : Text, x = mark ++ digits ∧ mark ∈ ["2#".toText, "8#".toText, "16#".toText] ∧
      digits ≠ [] ∧ ∀ c ∈ digits, (isHex c || c == '_') = true
  | number, x => ∃ mantissa exponent : Text, x = mantissa ++ exponent ∧ IsMantissa mantissa ∧
      (exponent = [] ∨ IsExponent exponent)
  | string, x => (∃ u, x = .char '\'' :: u ++ [.char '\''] ∧ .char '\'' ∉ u) ∨
      ∃ u, x = .char '"' :: u ++ [.char '"'] ∧ IsEscaped u
  | name, x => ∃ (mark first : Text) (members : List Text),
      x = mark ++ (first ++ members.flatMap (.char '.' :: ·)) ∧ (mark = [] ∨ mark = ['#']) ∧
      Term.isIdentifier first = true ∧ ∀ m ∈ members, Term.isIdentifier m = true
  | op, x => x ∈ operators
  | hash, x => x = ['#']

def Fits (a : Rule) (t : Text) : Prop := ∃ y, a.Admits y ∧ y <+: t

structure Takes (a : Rule) (t x : Text) : Prop where
  first : ∀ b : Rule, b.rank < a.rank → ¬b.Fits t
  front : x <+: t
  admits : a.Admits x
  longest : ∀ y, a.Admits y → y <+: t → y.length ≤ x.length

def read : Rule → Text → Option (Text × Text)
  | blanks => blanks?
  | time => duration?
  | based => based?
  | number => number?
  | string => string?
  | name => name?
  | op => operator?
  | hash => hash?

end Rule

/-! ## Readers that take as much as they can -/

/-- Whether a reader takes texts of a language only, and at least every text of it that stands in front. -/
structure Greedy (read : Text → Option (Text × Text)) (admits : Text → Prop) : Prop where
  sound : ∀ {t x rest : Text}, read t = some (x, rest) → t = x ++ rest ∧ admits x
  reach : ∀ {y : Text}, admits y → ∀ rest, ∃ more left, rest = more ++ left ∧ read (y ++ rest) =
    some (y ++ more, left)

namespace Greedy

variable {read : Text → Option (Text × Text)} {admits : Text → Prop}

theorem longest (greedy : Greedy read admits) (h : read t = some (x, rest)) (among : admits y)
    (front : y <+: t) :
    y.length ≤ x.length := by
  obtain ⟨behind, rfl⟩ := front
  obtain ⟨more, left, -, found⟩ := greedy.reach among behind
  obtain ⟨rfl, -⟩ := Prod.mk.inj (Option.some_inj.mp (h.symm.trans found))
  rw [List.length_append]
  exact Nat.le_add_right ..

theorem eq_none_iff (greedy : Greedy read admits) : read t = none ↔ ∀ y, admits y → ¬y <+: t := by
  constructor
  · rintro missed y among ⟨behind, rfl⟩
    obtain ⟨more, left, -, found⟩ := greedy.reach among behind
    rw [found] at missed
    cases missed
  · intro apart
    cases found : read t with
    | none => rfl
    | some taken =>
      obtain ⟨whole, among⟩ := greedy.sound found
      exact absurd ⟨taken.2, whole.symm⟩ (apart taken.1 among)

theorem eq_some_iff (greedy : Greedy read admits) : read t = some (x, rest) ↔
    t = x ++ rest ∧ admits x ∧ ∀ y, admits y → y <+: t → y.length ≤ x.length := by
  constructor
  · intro h
    obtain ⟨whole, among⟩ := greedy.sound h
    exact ⟨whole, among, fun y => greedy.longest h⟩
  · rintro ⟨rfl, among, longest⟩
    obtain ⟨more, left, rfl, found⟩ := greedy.reach among rest
    obtain ⟨whole, longer⟩ := greedy.sound found
    have short := longest _ longer ⟨left, whole.symm⟩
    have empty : more = [] := by
      rw [List.length_append] at short
      exact List.eq_nil_of_length_eq_zero (by omega)
    subst empty
    rwa [List.append_nil] at found

end Greedy

/-- A reader by what it leaves: it takes what is before that. -/
theorem taken_append (y more left : Text) : taken (y ++ (more ++ left)) left = (y ++ more, left) := by
  rw [← List.append_assoc, taken_left]

/-! ## Blanks, durations and numerals with a base -/

theorem greedy_blanks : Greedy blanks? (Rule.Admits .blanks) where
  sound {t x rest} h := by
    unfold blanks? at h
    split at h
    · cases h
    · next empty =>
      obtain ⟨rfl, rfl⟩ := Prod.mk.inj (Option.some_inj.mp h)
      refine ⟨List.takeWhile_append_dropWhile.symm, fun isNil => ?_, fun c => List.mem_takeWhile_imp⟩
      exact empty _ (Prod.ext isNil rfl)
  reach {y} among rest := by
    obtain ⟨ne, blank⟩ := among
    refine ⟨rest.takeWhile isBlank, rest.dropWhile isBlank, List.takeWhile_append_dropWhile.symm, ?_⟩
    have found : run isBlank (y ++ rest) = (y ++ rest.takeWhile isBlank, rest.dropWhile isBlank) := by
      rw [run, List.takeWhile_append_of_pos blank, List.dropWhile_append_of_pos blank]
    rw [blanks?, found]
    split
    · next isNil => exact absurd (List.append_eq_nil_iff.mp (Prod.mk.inj isNil).1).1 ne
    · rfl

theorem exists_sign (sign : CodePoint) (t : Text) : ∃ front tail : Text, t = front ++ tail ∧
    (front = [] ∨ front = [sign]) ∧ (if t.head? = some sign then t.tail else t) = tail := by
  split
  · next signed =>
    obtain ⟨tail, rfl⟩ := List.head?_eq_some_iff.mp signed
    exact ⟨[sign], tail, rfl, .inr rfl, rfl⟩
  · exact ⟨[], t, rfl, .inl rfl, rfl⟩

theorem unsigned_append {sign c : CodePoint} {front : Text} (h : front = [] ∨ front = [sign])
    (other : c ≠ sign)
    (t : Text) :
    (if (front ++ c :: t).head? = some sign then (front ++ c :: t).tail else front ++ c :: t) = c :: t := by
  rcases h with rfl | rfl
  · rw [List.nil_append, List.head?_cons, if_neg (by simpa using other)]
  · simp

/-- The word of a duration is known by its `#`. -/
theorem durationMark?_word {word : Text}
    (mem : word.map looseLetter ∈ ["ltime".toText, "time".toText, "lt".toText, "t".toText]) (body : Text) :
    durationMark? (word ++ .char '#' :: body) = some body := by
  have plain : .char '#' ∉ word := fun hash => absurd (isWord_of_durationWord mem _ hash) (by decide)
  cases found : durationMark? (word ++ .char '#' :: body) with
  | none =>
    obtain ⟨w, among, same⟩ := List.mem_map.mp (show word.map looseLetter ∈
      ["ltime", "time", "lt", "t"].map String.toText from mem)
    have here := List.findSome?_eq_none_iff.mp found w among
    rw [same, dropLoose?_spelled rfl] at here
    cases here
  | some left =>
    obtain ⟨m, same, words⟩ := eq_of_durationMark? found
    have free : .char '#' ∉ m := fun hash => absurd (words _ hash) (by decide)
    have split (w b : Text) (h : .char '#' ∉ w) :
        (w ++ .char '#' :: b).dropWhile (· != .char '#') = .char '#' :: b := by
      refine dropWhile_append_of_stops (fun c mem => ?_) (stops_cons.mpr rfl)
      rw [bne_iff_ne]
      rintro rfl
      exact h mem
    have behind := split word body plain
    rw [same, split m left free] at behind
    rw [(List.cons.inj behind).2]

theorem greedy_duration : Greedy duration? (Rule.Admits .time) where
  sound {t x rest} h := by
    unfold duration? at h
    split at h
    · cases h
    · next body mark =>
      obtain ⟨word, rfl, mem⟩ := exists_of_durationMark? mark
      obtain ⟨sign, tail, rfl, minus, same⟩ : ∃ sign tail : Text, body = sign ++ tail ∧
        (sign = [] ∨ sign = ['-']) ∧ (if body.head? = some '-' then body.tail else body) = tail :=
          exists_sign '-' body
      rw [same] at h
      cases tail with
      | nil => cases h
      | cons digit after =>
        simp only at h
        split at h
        · next isDigit =>
          have whole : word ++ .char '#' :: (sign ++ digit :: after) =
              (word ++ .char '#' :: (sign ++ digit :: after.takeWhile isDurationChar)) ++
                after.dropWhile isDurationChar := by
            simp [List.takeWhile_append_dropWhile]
          rw [whole, taken_left] at h
          obtain ⟨rfl, rfl⟩ := Prod.mk.inj (Option.some_inj.mp h)
          exact ⟨whole, word, sign, digit, _, rfl, mem, minus, isDigit, fun c => List.mem_takeWhile_imp⟩
        · cases h
  reach {y} among rest := by
    obtain ⟨word, sign, digit, body, rfl, mem, minus, isDigit, chars⟩ := among
    refine ⟨rest.takeWhile isDurationChar, rest.dropWhile isDurationChar,
      List.takeWhile_append_dropWhile.symm, ?_⟩
    have text : word ++ .char '#' :: (sign ++ digit :: body) ++ rest =
        word ++ .char '#' :: (sign ++ digit :: (body ++ rest)) := by simp
    have other : digit ≠ '-' := by
      rintro rfl
      cases isDigit
    have unsigned : (if (sign ++ digit :: (body ++ rest)).head? = some '-' then
        (sign ++ digit :: (body ++ rest)).tail else sign ++ digit :: (body ++ rest)) =
          digit :: (body ++ rest) :=
      unsigned_append minus other _
    have left : (body ++ rest).dropWhile isDurationChar = rest.dropWhile isDurationChar :=
      List.dropWhile_append_of_pos chars
    have front := taken_append (word ++ .char '#' :: (sign ++ digit :: body)) (rest.takeWhile isDurationChar)
      (rest.dropWhile isDurationChar)
    rw [List.takeWhile_append_dropWhile, text] at front
    rw [text, duration?, durationMark?_word mem]
    simp only [unsigned, isDigit, if_true, left, front]

theorem greedy_based : Greedy based? (Rule.Admits .based) where
  sound {t x rest} h := by
    obtain ⟨mark, mem, found⟩ := List.exists_of_findSome?_eq_some h
    split at found
    · cases found
    · next body part =>
      split at found
      · cases found
      · next digits left empty runs =>
        cases found
        obtain ⟨rfl, rfl⟩ := Prod.mk.inj runs
        refine ⟨?_, mark.toText, _, rfl, List.mem_map_of_mem mem, fun isNil => ?_,
          fun c => List.mem_takeWhile_imp⟩
        · rw [List.append_assoc, List.takeWhile_append_dropWhile]
          exact dropPart?_eq_some.mp part
        · exact empty isNil
  reach {y} among rest := by
    obtain ⟨mark, digits, rfl, mem, ne, chars⟩ := among
    refine ⟨rest.takeWhile fun c => isHex c || c == '_', rest.dropWhile fun c => isHex c || c == '_',
      List.takeWhile_append_dropWhile.symm, ?_⟩
    have runs : run (fun c => isHex c || c == '_') (digits ++ rest) =
        (digits ++ rest.takeWhile fun c => isHex c || c == '_',
          rest.dropWhile fun c => isHex c || c == '_') := by
      rw [run, List.takeWhile_append_of_pos chars, List.dropWhile_append_of_pos chars]
    obtain ⟨c, digits, rfl⟩ := List.exists_cons_of_ne_nil ne
    rw [List.cons_append, List.cons_append] at runs
    rw [List.append_assoc mark, List.append_assoc mark, List.cons_append, List.cons_append]
    -- no mark is the start of another one
    simp only [List.mem_cons, List.not_mem_nil, or_false] at mem
    rcases mem with rfl | rfl | rfl
    · rw [based?, List.findSome?_cons, dropPart?_append]
      simp only [runs]
    · rw [based?, List.findSome?_cons, List.findSome?_cons, dropPart?_append]
      simp only [runs]
      rfl
    · rw [based?, List.findSome?_cons, List.findSome?_cons, List.findSome?_cons, dropPart?_append]
      simp only [runs]
      rfl

/-! ## Numbers -/

def signedExponent (negative : Bool) (t : Text) : Option (Int × Text) :=
  if (t.takeWhile isDecimal).isEmpty then none
  else
    let n := Numeral.ofDigits 10 ((t.takeWhile isDecimal).filterMap digitValue?)
    some (if negative then -(n : Int) else n, t.dropWhile isDecimal)

theorem exponent?_cons {c : CodePoint} (mark : c = 'e' ∨ c = 'E') (t : Text) :
    Decimal.exponent? (c :: t) =
      if t.head? = some (.char '-') then signedExponent true t.tail
      else if t.head? = some (.char '+') then signedExponent false t.tail
      else signedExponent false t := by
  cases t with
  | nil => rcases mark with rfl | rfl <;> rfl
  | cons d t =>
    by_cases minus : d = '-'
    · subst minus
      rcases mark with rfl | rfl <;> rfl
    · by_cases plus : d = '+'
      · subst plus
        rcases mark with rfl | rfl <;> rfl
      · simp [Decimal.exponent?, mark, minus, plus, signedExponent]

theorem signedExponent_eq_some {negative : Bool} {e : Int} (h : signedExponent negative t = some (e, rest)) :
    ∃ digits, t = digits ++ rest ∧ digits ≠ [] ∧ ∀ c ∈ digits, isDecimal c = true := by
  unfold signedExponent at h
  split at h
  · cases h
  · next nonempty =>
    cases h
    exact ⟨t.takeWhile isDecimal, List.takeWhile_append_dropWhile.symm, by simpa using nonempty,
      fun c => List.mem_takeWhile_imp⟩

theorem signedExponent_append {digits : Text} (ne : digits ≠ []) (all : ∀ c ∈ digits, isDecimal c = true)
    (negative : Bool) (rest : Text) :
    ∃ e, signedExponent negative (digits ++ rest) = some (e, rest.dropWhile isDecimal) := by
  have nonempty : ¬((digits ++ rest).takeWhile isDecimal).isEmpty = true := by
    rw [List.takeWhile_append_of_pos all]
    simp [ne]
  rw [signedExponent, if_neg nonempty, List.dropWhile_append_of_pos all]
  exact ⟨_, rfl⟩

theorem isExponent_of_exponent? {e : Int} (h : Decimal.exponent? t = some (e, rest)) :
    ∃ u, t = u ++ rest ∧ IsExponent u := by
  cases t with
  | nil => cases h
  | cons c t =>
    by_cases mark : c = 'e' ∨ c = 'E'
    · rw [exponent?_cons mark] at h
      -- behind the sign there are digits
      have signed {negative : Bool} {sign t : Text} (signs : sign = [] ∨ sign = ['-'] ∨ sign = ['+'])
          (h : signedExponent negative t = some (e, rest)) : ∃ u, c :: (sign ++ t) = u ++ rest ∧
            IsExponent u := by
        obtain ⟨digits, rfl, ne, all⟩ := signedExponent_eq_some h
        exact ⟨c :: (sign ++ digits), by simp, c, sign, digits, rfl, mark, signs, ne, all⟩
      split at h
      · next minus =>
        obtain ⟨t, rfl⟩ := List.head?_eq_some_iff.mp minus
        exact signed (.inr (.inl rfl)) h
      · split at h
        · next plus =>
          obtain ⟨t, rfl⟩ := List.head?_eq_some_iff.mp plus
          exact signed (.inr (.inr rfl)) h
        · exact signed (.inl rfl) h
    · simp [Decimal.exponent?, mark] at h

theorem exponent?_of_isExponent {u : Text} (h : IsExponent u) (rest : Text) :
    ∃ e, Decimal.exponent? (u ++ rest) = some (e, rest.dropWhile isDecimal) := by
  obtain ⟨mark, sign, digits, rfl, letter, signs, ne, all⟩ := h
  rw [List.cons_append, exponent?_cons letter]
  rcases signs with rfl | rfl | rfl
  · obtain ⟨d, digits, rfl⟩ := List.exists_cons_of_ne_nil ne
    have decimal := all d List.mem_cons_self
    have minus : d ≠ '-' := by
      rintro rfl
      cases decimal
    have plus : d ≠ '+' := by
      rintro rfl
      cases decimal
    have found := signedExponent_append ne all false rest
    rw [List.cons_append] at found
    rw [List.nil_append, List.cons_append, List.head?_cons, if_neg (by simpa using minus),
      if_neg (by simpa using plus)]
    exact found
  · exact signedExponent_append ne all true rest
  · exact signedExponent_append ne all false rest

/-- The exponent behind the digits of a number, which may be missing. -/
def withExponent (whole fraction t : Text) : Option (Decimal.Parts × Text) :=
  if whole.isEmpty && fraction.isEmpty then none
  else (Decimal.exponent? t).elim (some (⟨whole, fraction, 0⟩, t)) fun found =>
    some (⟨whole, fraction, found.1⟩, found.2)

theorem parts?_eq (t : Text) : Decimal.parts? t =
    if (t.dropWhile isDecimal).head? = some (.char '.') then
      withExponent (t.takeWhile isDecimal) ((t.dropWhile isDecimal).tail.takeWhile isDecimal)
        ((t.dropWhile isDecimal).tail.dropWhile isDecimal)
    else withExponent (t.takeWhile isDecimal) [] (t.dropWhile isDecimal) := by
  rw [Decimal.parts?]
  generalize t.takeWhile isDecimal = whole
  cases t.dropWhile isDecimal with
  | nil => rfl
  | cons c rest =>
    by_cases point : c = '.'
    · subst point
      rw [List.head?_cons, if_pos rfl, List.tail_cons, withExponent]
      simp only [Option.getD_some]
      cases Decimal.exponent? (rest.dropWhile isDecimal) <;> rfl
    · rw [List.head?_cons, if_neg (by simpa using point), withExponent]
      simp only [List.cons.injEq, point, false_and, imp_self, implies_true, Option.getD_none]
      cases Decimal.exponent? (c :: rest) <;> rfl

theorem withExponent_eq_some {whole fraction : Text} {p : Decimal.Parts}
    (h : withExponent whole fraction t = some (p, rest)) :
    whole ++ fraction ≠ [] ∧ ∃ u, t = u ++ rest ∧ (u = [] ∨ IsExponent u) := by
  unfold withExponent at h
  split at h
  · cases h
  · next digits =>
    refine ⟨by simpa using digits, ?_⟩
    cases read : Decimal.exponent? t with
    | none =>
      rw [read] at h
      cases h
      exact ⟨[], rfl, .inl rfl⟩
    | some found =>
      rw [read] at h
      cases h
      obtain ⟨u, whole, exponent⟩ := isExponent_of_exponent? read
      exact ⟨u, whole, .inr exponent⟩

theorem withExponent_append {whole fraction u : Text} (digits : whole ++ fraction ≠ [])
    (h : u = [] ∨ IsExponent u)
    (rest : Text) : ∃ p, ∃ left, left <:+ rest ∧ withExponent whole fraction (u ++ rest) =
      some (p, left) := by
  rw [withExponent, if_neg (by simpa using digits)]
  rcases h with rfl | exponent
  · rw [List.nil_append]
    cases read : Decimal.exponent? rest with
    | none => exact ⟨_, rest, List.suffix_rfl, rfl⟩
    | some found =>
      obtain ⟨u, whole, -⟩ := isExponent_of_exponent? read
      exact ⟨_, found.2, ⟨u, whole.symm⟩, rfl⟩
  · obtain ⟨e, read⟩ := exponent?_of_isExponent exponent rest
    rw [read]
    exact ⟨_, rest.dropWhile isDecimal, List.dropWhile_suffix _, rfl⟩

theorem digits_append {digits u : Text} (all : ∀ c ∈ digits, isDecimal c = true) (h : u = [] ∨ IsExponent u)
    (rest : Text) : ∃ more left, left <:+ rest ∧ (digits ++ (u ++ rest)).takeWhile isDecimal =
      digits ++ more ∧
      (digits ++ (u ++ rest)).dropWhile isDecimal = u ++ left := by
  rw [List.takeWhile_append_of_pos all, List.dropWhile_append_of_pos all]
  rcases h with rfl | ⟨mark, sign, tail, rfl, letter, -⟩
  · exact ⟨_, _, List.dropWhile_suffix _, rfl, rfl⟩
  · have stop : Stops isDecimal (mark :: (sign ++ tail) ++ rest) := by
      rw [List.cons_append, stops_cons]
      rcases letter with rfl | rfl <;> decide
    exact ⟨[], rest, List.suffix_rfl, by rw [takeWhile_of_stops stop], dropWhile_of_stops stop⟩

theorem parts?_append_of_admits {mantissa exponent : Text} (digits : IsMantissa mantissa)
    (h : exponent = [] ∨ IsExponent exponent) (rest : Text) :
    ∃ p, ∃ left, left <:+ rest ∧ Decimal.parts? (mantissa ++ (exponent ++ rest)) = some (p, left) := by
  rw [parts?_eq]
  cases digits with
  | whole ne all =>
    obtain ⟨more, left, behind, taken, dropped⟩ := digits_append all h rest
    rw [taken, dropped]
    split
    · next point =>
      -- no exponent starts with a point
      rcases h with rfl | ⟨mark, sign, tail, rfl, letter, -⟩
      · rw [List.nil_append] at point ⊢
        obtain ⟨after, rfl⟩ := List.head?_eq_some_iff.mp point
        obtain ⟨p, left, suffix, found⟩ :=
          @withExponent_append (mantissa ++ more) (after.takeWhile isDecimal) []
          (by simp [ne]) (.inl rfl) (after.dropWhile isDecimal)
        refine ⟨p, left, ?_, found⟩
        exact suffix.trans ((List.dropWhile_suffix _).trans ((List.suffix_cons _ _).trans behind))
      · rcases letter with rfl | rfl <;> cases point
    · obtain ⟨p, left, suffix, found⟩ :=
        @withExponent_append (mantissa ++ more) [] exponent (by simp [ne]) h left
      exact ⟨p, left, suffix.trans behind, found⟩
  | @pointed whole fraction ne left right =>
    have stop : Stops isDecimal (.char '.' :: (fraction ++ (exponent ++ rest))) := stops_cons.mpr (by decide)
    rw [List.append_assoc, List.cons_append, takeWhile_append_of_stops left stop,
      dropWhile_append_of_stops left stop, List.head?_cons, if_pos rfl, List.tail_cons]
    obtain ⟨more, left, behind, taken, dropped⟩ := digits_append right h rest
    rw [taken, dropped]
    have nonempty : whole ++ (fraction ++ more) ≠ [] := by
      rw [← List.append_assoc]
      exact fun isNil => ne (List.append_eq_nil_iff.mp isNil).1
    obtain ⟨p, left, suffix, found⟩ := withExponent_append nonempty h left
    exact ⟨p, left, suffix.trans behind, found⟩

theorem admits_of_parts? {p : Decimal.Parts} (h : Decimal.parts? t = some (p, rest)) :
    ∃ x, t = x ++ rest ∧ Rule.Admits .number x := by
  have decimal (u : Text) : ∀ c ∈ u.takeWhile isDecimal, isDecimal c = true := fun c => List.mem_takeWhile_imp
  have split : t = t.takeWhile isDecimal ++ t.dropWhile isDecimal := List.takeWhile_append_dropWhile.symm
  rw [parts?_eq] at h
  split at h
  · next point =>
    obtain ⟨after, behind⟩ := List.head?_eq_some_iff.mp point
    rw [behind, List.tail_cons] at h
    obtain ⟨ne, exponent, tail, written⟩ := withExponent_eq_some h
    refine ⟨t.takeWhile isDecimal ++ .char '.' :: after.takeWhile isDecimal ++ exponent, ?_, _, exponent, rfl,
      .pointed ne (decimal t) (decimal after), written⟩
    calc t = t.takeWhile isDecimal ++ .char '.' ::
      (after.takeWhile isDecimal ++ after.dropWhile isDecimal) := by
          rw [List.takeWhile_append_dropWhile, ← behind, ← split]
      _ = _ := by
          rw [tail]
          simp
  · obtain ⟨ne, exponent, tail, written⟩ := withExponent_eq_some h
    rw [List.append_nil] at ne
    refine ⟨t.takeWhile isDecimal ++ exponent, ?_, _, exponent, rfl, .whole ne (decimal t), written⟩
    rw [List.append_assoc, ← tail, ← split]

theorem greedy_number : Greedy number? (Rule.Admits .number) where
  sound {t x rest} h := by
    obtain ⟨⟨p, left⟩, read, same⟩ := Option.map_eq_some_iff.mp h
    obtain ⟨u, rfl, admits⟩ := admits_of_parts? read
    have front : taken (u ++ left) left = (x, rest) := same
    rw [taken_left] at front
    cases front
    exact ⟨rfl, admits⟩
  reach {y} among rest := by
    obtain ⟨mantissa, exponent, rfl, digits, written⟩ := among
    obtain ⟨p, left, ⟨more, rfl⟩, read⟩ := parts?_append_of_admits digits written rest
    refine ⟨more, left, rfl, ?_⟩
    rw [← List.append_assoc mantissa] at read
    rw [number?, read]
    exact congrArg some (taken_append (mantissa ++ exponent) more left)

/-! ## Texts -/

/-- What follows the next apostrophe follows a text between apostrophes. -/
theorem afterApostrophe?_eq_some (h : afterApostrophe? t = some rest) :
    ∃ u, t = u ++ .char '\'' :: rest ∧ .char '\'' ∉ u := by
  induction t with
  | nil => cases h
  | cons c t ih =>
    by_cases quote : c = '\''
    · subst quote
      rw [afterApostrophe?] at h
      cases h
      exact ⟨[], rfl, by simp⟩
    · rw [afterApostrophe?] at h
      · obtain ⟨u, rfl, plain⟩ := ih h
        refine ⟨c :: u, rfl, ?_⟩
        rw [List.mem_cons, not_or]
        exact ⟨Ne.symm quote, plain⟩
      · exact quote

theorem isEscaped_of_afterQuote? (h : afterQuote? t = some rest) :
    ∃ u, t = u ++ .char '"' :: rest ∧ IsEscaped u := by
  fun_induction afterQuote? t with
  | case1 => cases h
  | case2 rest' =>
    cases h
    exact ⟨[], rfl, .nil⟩
  | case3 => cases h
  | case4 => cases h
  | case5 c rest' line ih =>
    obtain ⟨u, rfl, later⟩ := ih h
    exact ⟨.char '\\' :: c :: u, rfl, .hidden line later⟩
  | case6 c rest' quote slash slash' ih =>
    obtain ⟨u, rfl, later⟩ := ih h
    have plain : c ≠ '\\' := by
      intro same
      cases tail : u ++ .char '"' :: rest with
      | nil => exact slash same tail
      | cons d more => exact slash' d more same tail
    exact ⟨c :: u, rfl, .plain quote plain later⟩

theorem afterQuote?_of_isEscaped {u : Text} (h : IsEscaped u) (rest : Text) :
    afterQuote? (u ++ .char '"' :: rest) = some rest := by
  induction h with
  | nil => rfl
  | plain quote slash _ ih =>
    rw [List.cons_append, afterQuote?]
    · exact ih
    · exact quote
    · exact fun same _ => slash same
    · exact fun _ _ same _ => slash same
  | hidden line _ ih => rw [List.cons_append, List.cons_append, afterQuote?, if_neg line, ih]

theorem greedy_string : Greedy string? (Rule.Admits .string) where
  sound {t x rest} h := by
    have whole (q : CodePoint) (u left : Text) : q :: (u ++ q :: left) = q :: u ++ [q] ++ left := by simp
    unfold string? at h
    split at h
    · next body =>
      obtain ⟨left, read, same⟩ := Option.map_eq_some_iff.mp h
      obtain ⟨u, rfl, escaped⟩ := isEscaped_of_afterQuote? read
      rw [whole, taken_left] at same
      cases same
      exact ⟨whole _ u _, .inr ⟨u, rfl, escaped⟩⟩
    · next body =>
      obtain ⟨left, read, same⟩ := Option.map_eq_some_iff.mp h
      obtain ⟨u, rfl, plain⟩ := afterApostrophe?_eq_some read
      rw [whole, taken_left] at same
      cases same
      exact ⟨whole _ u _, .inl ⟨u, rfl, plain⟩⟩
    · cases h
  reach {y} among rest := by
    refine ⟨[], rest, rfl, ?_⟩
    have text (q : CodePoint) (u : Text) : q :: u ++ [q] ++ rest = q :: (u ++ q :: rest) := by simp
    rw [List.append_nil]
    rcases among with ⟨u, rfl, plain⟩ | ⟨u, rfl, escaped⟩
    · have front := taken_left (.char '\'' :: u ++ [.char '\'']) rest
      rw [text] at front ⊢
      simp only [string?, afterApostrophe?_append (fun c mem same => plain (same ▸ mem)),
        Option.map_some, front]
    · have front := taken_left (.char '"' :: u ++ [.char '"']) rest
      rw [text] at front ⊢
      simp only [string?, afterQuote?_of_isEscaped escaped, Option.map_some, front]

/-! ## Names, operators and the lone `#` -/

theorem members_of_afterMembers (fuel : Nat) (t : Text) :
    ∃ members : List Text, t = members.flatMap (.char '.' :: ·) ++ afterMembers fuel t ∧
      ∀ m ∈ members, Term.isIdentifier m = true := by
  induction fuel generalizing t with
  | zero => exact ⟨[], rfl, by simp⟩
  | succ fuel ih =>
    unfold afterMembers
    split
    · next c rest =>
      split
      · next start =>
        obtain ⟨members, behind, identifiers⟩ := ih (rest.dropWhile isWord)
        refine ⟨(c :: rest.takeWhile isWord) :: members, ?_, List.forall_mem_cons.mpr ⟨?_, identifiers⟩⟩
        · rw [List.flatMap_cons, List.append_assoc, ← behind]
          simp [List.takeWhile_append_dropWhile]
        · rw [Term.isIdentifier, start, Bool.true_and, List.all_eq_true]
          exact fun d => List.mem_takeWhile_imp
      · exact ⟨[], rfl, by simp⟩
    · exact ⟨[], rfl, by simp⟩

/-- An identifier in front of members, or of any text, is taken with the word characters behind it. -/
theorem dropWhile_members {w : Text} (words : ∀ c ∈ w, isWord c = true) (members : List Text) (rest : Text) :
    ∃ left, left <:+ rest ∧ (w ++ (members.flatMap (.char '.' :: ·) ++ rest)).dropWhile isWord =
      members.flatMap (.char '.' :: ·) ++ left := by
  rw [List.dropWhile_append_of_pos words]
  cases members with
  | nil => exact ⟨_, List.dropWhile_suffix _, rfl⟩
  | cons m members =>
    have stop : Stops isWord ((m :: members).flatMap (.char '.' :: ·) ++ rest) := stops_cons.mpr (by decide)
    exact ⟨rest, List.suffix_rfl, dropWhile_of_stops stop⟩

theorem afterMembers_append_of_members {members : List Text}
    (identifiers : ∀ m ∈ members, Term.isIdentifier m = true)
    {fuel : Nat} (enough : members.length ≤ fuel) (rest : Text) :
    afterMembers fuel (members.flatMap (.char '.' :: ·) ++ rest) <:+ rest := by
  induction members generalizing fuel rest with
  | nil =>
    obtain ⟨members, whole, -⟩ := members_of_afterMembers fuel rest
    exact ⟨_, whole.symm⟩
  | cons m members ih =>
    rw [List.forall_mem_cons] at identifiers
    obtain ⟨identifier, later⟩ := identifiers
    obtain ⟨fuel, rfl⟩ := Nat.exists_eq_add_of_le' (Nat.le_trans (Nat.le_add_left 1 _) enough)
    cases m with
    | nil => cases identifier
    | cons c m =>
      rw [Term.isIdentifier, Bool.and_eq_true, List.all_eq_true] at identifier
      obtain ⟨left, suffix, dropped⟩ := dropWhile_members identifier.2 members rest
      simp only [List.flatMap_cons, List.cons_append, List.append_assoc, afterMembers, identifier.1,
        if_true, dropped]
      exact (ih later (by simpa using enough) left).trans suffix

theorem greedy_name : Greedy name? (Rule.Admits .name) where
  sound {t x rest} h := by
    obtain ⟨mark, tail, rfl, marks, same⟩ : ∃ mark tail : Text, t = mark ++ tail ∧
      (mark = [] ∨ mark = ['#']) ∧ (if t.head? = some '#' then t.tail else t) = tail := exists_sign '#' t
    unfold name? at h
    rw [same] at h
    cases tail with
    | nil => cases h
    | cons c after =>
      simp only at h
      split at h
      · next start =>
        obtain ⟨members, behind, identifiers⟩ :=
          members_of_afterMembers (after.dropWhile isWord).length (after.dropWhile isWord)
        have whole : mark ++ c :: after =
            mark ++ (c :: after.takeWhile isWord ++ members.flatMap (.char '.' :: ·)) ++
              afterMembers (after.dropWhile isWord).length (after.dropWhile isWord) := by
          rw [List.append_assoc, List.append_assoc, ← behind, List.cons_append,
            List.takeWhile_append_dropWhile]
        rw [whole, taken_left] at h
        obtain ⟨rfl, rfl⟩ := Prod.mk.inj (Option.some_inj.mp h)
        refine ⟨whole, mark, _, members, rfl, marks, ?_, identifiers⟩
        rw [Term.isIdentifier, start, Bool.true_and, List.all_eq_true]
        exact fun d => List.mem_takeWhile_imp
      · cases h
  reach {y} among rest := by
    obtain ⟨mark, first, members, rfl, marks, identifier, identifiers⟩ := among
    cases first with
    | nil => cases identifier
    | cons c w =>
      rw [Term.isIdentifier, Bool.and_eq_true, List.all_eq_true] at identifier
      obtain ⟨left, suffix, dropped⟩ := dropWhile_members identifier.2 members rest
      have count : members.length ≤ (members.flatMap (.char '.' :: ·) ++ left).length := by
        simp
        omega
      obtain ⟨more, same⟩ := (afterMembers_append_of_members identifiers count left).trans suffix
      refine ⟨more, _, same.symm, ?_⟩
      have text : mark ++ (c :: w ++ members.flatMap (.char '.' :: ·)) ++ rest =
          mark ++ c :: (w ++ (members.flatMap (.char '.' :: ·) ++ rest)) := by simp
      have other : c ≠ '#' := by
        rintro rfl
        cases identifier.1
      have unmarked : (if (mark ++ c :: (w ++ (members.flatMap (.char '.' :: ·) ++ rest))).head? =
          some '#' then
          (mark ++ c :: (w ++ (members.flatMap (.char '.' :: ·) ++ rest))).tail
          else mark ++ c :: (w ++ (members.flatMap (.char '.' :: ·) ++ rest))) =
          c :: (w ++ (members.flatMap (.char '.' :: ·) ++ rest)) := unsigned_append marks other _
      have front := taken_append (mark ++ (c :: w ++ members.flatMap (.char '.' :: ·))) more
        (afterMembers (members.flatMap (.char '.' :: ·) ++ left).length
          (members.flatMap (.char '.' :: ·) ++ left))
      rw [same, text] at front
      rw [text, name?]
      simp only [unmarked, identifier.1, if_true, dropped, front]

theorem greedy_operator : Greedy operator? (Rule.Admits .op) where
  sound {t x rest} h := by
    obtain ⟨op, mem, found⟩ := List.exists_of_findSome?_eq_some h
    obtain ⟨left, part, same⟩ := Option.map_eq_some_iff.mp found
    cases same
    exact ⟨dropPart?_eq_some.mp part, mem⟩
  reach {y} among rest := by
    have sorted : operators.Pairwise fun a b => b.length ≤ a.length := by decide
    cases found : operator? (y ++ rest) with
    | none =>
      have here := List.findSome?_eq_none_iff.mp found y among
      rw [dropPart?_append] at here
      cases here
    | some result =>
      obtain ⟨before, x, after, split, taken, earlier⟩ := List.findSome?_eq_some_iff.mp found
      obtain ⟨left, part, same⟩ := Option.map_eq_some_iff.mp taken
      cases same
      -- an operator before this one in the list does not stand in front
      have later : y ∈ x :: after := by
        have listed : y ∈ before ++ x :: after := split ▸ among
        refine (List.mem_append.mp listed).resolve_left fun mem => ?_
        have here := earlier y mem
        rw [dropPart?_append] at here
        cases here
      have short : y.length ≤ x.length := by
        rw [split] at sorted
        have behind := List.pairwise_cons.mp (List.pairwise_append.mp sorted).2.1
        rcases List.mem_cons.mp later with rfl | mem
        · exact Nat.le_refl _
        · exact behind.1 y mem
      have whole := dropPart?_eq_some.mp part
      obtain ⟨more, rfl⟩ := List.prefix_of_prefix_length_le ⟨rest, rfl⟩ ⟨left, whole.symm⟩ short
      rw [List.append_assoc] at whole
      exact ⟨more, left, List.append_cancel_left whole, rfl⟩

theorem greedy_hash : Greedy hash? (Rule.Admits .hash) where
  sound {t x rest} h := by
    unfold hash? at h
    split at h
    · cases h
      exact ⟨rfl, rfl⟩
    · cases h
  reach {y} among rest := by
    cases among
    exact ⟨[], rest, rfl, rfl⟩

/-! ## The scanner -/

namespace Rule

/-- Every rule is read up to the end of the longest text of it. -/
theorem greedy (a : Rule) : Greedy a.read a.Admits := by
  cases a with
  | blanks => exact greedy_blanks
  | time => exact greedy_duration
  | based => exact greedy_based
  | number => exact greedy_number
  | string => exact greedy_string
  | name => exact greedy_name
  | op => exact greedy_operator
  | hash => exact greedy_hash

theorem read_eq_none_iff {a : Rule} : a.read t = none ↔ ¬a.Fits t := by
  rw [a.greedy.eq_none_iff, Fits]
  simp

def ordered : List Rule := [blanks, time, based, number, string, name, op, hash]

theorem mem_ordered (a : Rule) : a ∈ ordered := by
  cases a <;> decide

theorem ne_nil_of_admits {a : Rule} (h : a.Admits x) : x ≠ [] := by
  rintro rfl
  cases a with
  | blanks => exact h.1 rfl
  | time =>
    obtain ⟨word, sign, digit, body, same, -⟩ := h
    simp at same
  | based =>
    obtain ⟨mark, digits, same, -, ne, -⟩ := h
    exact ne (List.append_eq_nil_iff.mp same.symm).2
  | number =>
    obtain ⟨mantissa, exponent, same, digits, -⟩ := h
    obtain ⟨rfl, -⟩ := List.append_eq_nil_iff.mp same.symm
    generalize empty : ([] : Text) = m at digits
    cases digits with
    | whole ne => exact ne empty.symm
    | pointed => simp at empty
  | string => rcases h with ⟨u, same, -⟩ | ⟨u, same, -⟩ <;> cases same
  | name =>
    obtain ⟨mark, first, members, same, -, identifier, -⟩ := h
    have isNil := (List.append_eq_nil_iff.mp (List.append_eq_nil_iff.mp same.symm).2).1
    exact Term.ne_nil_of_isIdentifier identifier isNil
  | op =>
    have nonempty : [] ∉ operators := by decide
    exact nonempty h
  | hash => cases h

end Rule

open Rule (ordered mem_ordered read_eq_none_iff)

theorem next?_eq_findSome? (t : Text) : next? t = ordered.findSome? fun a => (a.read t).map (a.kind?, ·) := by
  have either (a : Rule) (rules : List Rule) : (a :: rules).findSome? (fun a => (a.read t).map (a.kind?, ·)) =
      ((a.read t).map (a.kind?, ·) <|> rules.findSome? fun a => (a.read t).map (a.kind?, ·)) := by
    rw [List.findSome?_cons]
    cases a.read t <;> rfl
  have last : ((Rule.hash.read t).map (Rule.hash.kind?, ·) <|> none) =
      (Rule.hash.read t).map (Rule.hash.kind?, ·) := by
    cases Rule.hash.read t <;> rfl
  simp only [ordered, either, List.findSome?_nil, last]
  rfl

theorem next?_eq_none_iff : next? t = none ↔ ∀ a : Rule, ¬a.Fits t := by
  rw [next?_eq_findSome?, List.findSome?_eq_none_iff]
  constructor
  · intro misfits a
    exact read_eq_none_iff.mp (Option.map_eq_none_iff.mp (misfits a (mem_ordered a)))
  · intro misfits a _
    exact Option.map_eq_none_iff.mpr (read_eq_none_iff.mpr (misfits a))

theorem exists_read_of_next? {kind? : Option TokenKind} (h : next? t = some (kind?, x, rest)) :
    ∃ a : Rule, a.read t = some (x, rest) ∧ a.kind? = kind? := by
  rw [next?_eq_findSome?] at h
  obtain ⟨a, -, found⟩ := List.exists_of_findSome?_eq_some h
  obtain ⟨taken, read, same⟩ := Option.map_eq_some_iff.mp found
  cases same
  exact ⟨a, read, rfl⟩

theorem exists_takes_of_next? {kind? : Option TokenKind} (h : next? t = some (kind?, x, rest)) :
    t = x ++ rest ∧ ∃ a : Rule, a.kind? = kind? ∧ a.Takes t x := by
  rw [next?_eq_findSome?] at h
  obtain ⟨before, a, after, split, taken, earlier⟩ := List.findSome?_eq_some_iff.mp h
  obtain ⟨found, read, same⟩ := Option.map_eq_some_iff.mp taken
  cases same
  obtain ⟨whole, admits, longest⟩ := a.greedy.eq_some_iff.mp read
  refine ⟨whole, a, rfl, fun b less => ?_, ⟨rest, whole.symm⟩, admits, longest⟩
  -- a lower rank is an earlier place
  have sorted : ordered.Pairwise fun a b => a.rank < b.rank := by decide
  rw [split] at sorted
  have among := mem_ordered b
  rw [split, List.mem_append, List.mem_cons] at among
  rcases among with mem | rfl | mem
  · exact read_eq_none_iff.mp (Option.map_eq_none_iff.mp (earlier b mem))
  · exact absurd less (Nat.lt_irrefl _)
  · have later := (List.pairwise_cons.mp (List.pairwise_append.mp sorted).2.1).1 b mem
    omega

/-- At most one text is taken in front of a text, by one rule. -/
theorem Rule.Takes.unique {a b : Rule} (left : a.Takes t x) (right : b.Takes t y) : a = b ∧ x = y := by
  have injective : ∀ a b : Rule, a.rank = b.rank → a = b := by
    intro a b
    cases a <;> cases b <;> decide
  have same : a = b := by
    apply injective
    rcases Nat.lt_trichotomy a.rank b.rank with less | same | less
    · exact absurd ⟨x, left.admits, left.front⟩ (right.first a less)
    · exact same
    · exact absurd ⟨y, right.admits, right.front⟩ (left.first b less)
  subst same
  have long := right.longest x left.admits left.front
  have short := left.longest y right.admits right.front
  have front := List.prefix_of_prefix_length_le left.front right.front long
  exact ⟨rfl, front.eq_of_length (Nat.le_antisymm long short)⟩

/-- The scanner takes the longest text of the first rule that fits. -/
theorem next?_eq_some_iff {kind? : Option TokenKind} : next? t = some (kind?, x, rest) ↔
    t = x ++ rest ∧ ∃ a : Rule, a.kind? = kind? ∧ a.Takes t x := by
  constructor
  · exact exists_takes_of_next?
  · rintro ⟨whole, a, rfl, takes⟩
    cases found : next? t with
    | none => exact absurd ⟨x, takes.admits, takes.front⟩ (next?_eq_none_iff.mp found a)
    | some result =>
      obtain ⟨kind?, y, left⟩ := result
      obtain ⟨whole', b, rfl, other⟩ := exists_takes_of_next? found
      obtain ⟨rfl, rfl⟩ := takes.unique other
      rw [List.append_cancel_left (whole.symm.trans whole')]

end Lexeme

namespace Token

open Lexeme

/-- The scan goes on behind what the scanner takes, which makes one token or none. -/
theorem scanFrom_of_next? {t x rest : Text} {kind? : Option TokenKind} (h : next? t = some (kind?, x, rest))
    (position : Nat) : scanFrom position 0 t = (scanFrom (position + x.length) 0 rest).map
      ((kind?.map fun kind => (⟨kind, x, position⟩ : Token)).toList ++ ·) := by
  obtain ⟨rfl, a, -, takes⟩ := next?_eq_some_iff.mp h
  obtain ⟨c, x, rfl⟩ := List.exists_cons_of_ne_nil (Rule.ne_nil_of_admits takes.admits)
  have skipped := scanFrom_skip (position + 1) x rest
  have size : position + 1 + x.length = position + (c :: x).length := by
    rw [List.length_cons]
    omega
  rw [size] at skipped
  rw [List.cons_append] at h ⊢
  rw [scanFrom, h]
  simp only [List.length_cons, Nat.add_sub_cancel] at skipped ⊢
  rw [skipped]
  cases scanFrom (position + (x.length + 1)) 0 rest with
  | error fault => rfl
  | ok tokens => cases kind? <;> rfl

theorem scanFrom_of_none {c : CodePoint} {t : Text} (h : next? (c :: t) = none) (position : Nat) :
    scanFrom position 0 (c :: t) = .error (.strayChar c position) := by
  rw [scanFrom, h]

end Token
end SclNarrator
