import SclNarrator.Json.Basic
import SclNarrator.Proofs.Number.DecimalText

/-!
The grammar of JSON, and the texts that are written for JSON values. What is written for a value is
a text of the grammar if and only if all doubles in the value are finite (`isText_write_iff`). That
it is one if they are follows rule by rule. That it is none otherwise is seen outside of the
strings: no rule puts an `N` or an `I` there (`calm_isValue`), and the words for infinities and NaN
do (`tells_write`).
-/

namespace SclNarrator.Json

open CodePoint (char)

/-! ## The grammar -/

/-- Whether a text is made of blanks between the parts of a value. -/
def IsSpaces (t : Text) : Prop := ∀ c ∈ t, isSpace c = true

/-- Whether a text is a structural character with blanks around it. -/
inductive IsMark (c : CodePoint) : Text → Prop where
  | mk {left right : Text} (before : IsSpaces left) (behind : IsSpaces right) : IsMark c (left ++ c :: right)

def IsDigits (t : Text) : Prop := t ≠ [] ∧ ∀ c ∈ t, c.isDigit = true

/-- The whole part of a number: a zero alone, or digits that start with another one. -/
inductive IsWholePart : Text → Prop where
  | zero : IsWholePart [char '0']
  | digits {c : CodePoint} {t : Text} (first : c.isDigit = true) (nonzero : c ≠ '0')
      (rest : ∀ d ∈ t, d.isDigit = true) : IsWholePart (c :: t)

inductive IsFraction : Text → Prop where
  | none : IsFraction []
  | digits {t : Text} (digits : IsDigits t) : IsFraction (char '.' :: t)

inductive IsExponent : Text → Prop where
  | none : IsExponent []
  | digits {c : CodePoint} {sign t : Text} (mark : c = 'e' ∨ c = 'E')
      (signed : sign = [] ∨ sign = [char '+'] ∨ sign = [char '-']) (digits : IsDigits t) :
        IsExponent (c :: (sign ++ t))

inductive IsNumber : Text → Prop where
  | mk {sign whole rest exponent : Text} (minus : sign = [] ∨ sign = [char '-']) (part : IsWholePart whole)
      (fraction : IsFraction rest) (power : IsExponent exponent) :
        IsNumber (sign ++ (whole ++ (rest ++ exponent)))

def escapes : Text := [char '"', char '\\', char '/', char 'b', char 'f', char 'n', char 'r', char 't']

/-- Whether a text stands for a character in a string. -/
inductive IsChar : Text → Prop where
  | plain {c : CodePoint} (visible : 0x20 ≤ c.toNat) (quote : c ≠ '"') (backslash : c ≠ '\\') : IsChar [c]
  | escape {c : CodePoint} (letter : c ∈ escapes) : IsChar [char '\\', c]
  | unicode {t : Text} (four : t.length = 4) (digits : ∀ c ∈ t, isHex c = true) :
    IsChar (char '\\' :: char 'u' :: t)

inductive IsString : Text → Prop where
  | mk {chars : List Text} (each : ∀ t ∈ chars, IsChar t) :
    IsString (char '"' :: (chars.flatten ++ [char '"']))

/-- Whether a text is made of others with commas between them. -/
inductive Separated : List Text → Text → Prop where
  | none : Separated [] []
  | one (t : Text) : Separated [t] t
  | more (t : Text) {separator next rest : Text} {later : List Text} (comma : IsMark ',' separator)
      (further : Separated (next :: later) rest) : Separated (t :: next :: later) (t ++ (separator ++ rest))

/-- A member of an object: a name, a colon and the text of a value. -/
structure Member where
  name : Text
  colon : Text
  value : Text
  named : IsString name
  marked : IsMark ':' colon

def Member.text (m : Member) : Text := m.name ++ (m.colon ++ m.value)

inductive IsValue : Text → Prop where
  | word {t : Text} (known : t ∈ ["null".toText, "true".toText, "false".toText]) : IsValue t
  | number {t : Text} (number : IsNumber t) : IsValue t
  | string {t : Text} (string : IsString t) : IsValue t
  | list {items : List Text} {opening inner closing : Text} (opens : IsMark '[' opening)
      (separated : Separated items inner) (closes : IsMark ']' closing) (each : ∀ v ∈ items, IsValue v) :
      IsValue (opening ++ (inner ++ closing))
  | object {members : List Member} {opening inner closing : Text} (opens : IsMark '\x7b' opening)
      (separated : Separated (members.map Member.text) inner) (closes : IsMark '\x7d' closing)
      (each : ∀ m ∈ members, IsValue m.value) : IsValue (opening ++ (inner ++ closing))

/-- Whether a text is a JSON text: a value with blanks around it. -/
inductive IsText : Text → Prop where
  | mk {left t right : Text} (before : IsSpaces left) (value : IsValue t) (behind : IsSpaces right) :
      IsText (left ++ (t ++ right))

/-! ## Values -/

/-- Whether all doubles and all texts in a value have a property. -/
inductive All (P : Float → Prop) (Q : Text → Prop) : Json → Prop where
  | null : All P Q null
  | bool (b : Bool) : All P Q (bool b)
  | int (n : Int) : All P Q (int n)
  | float {x : Float} (h : P x) : All P Q (float x)
  | text {t : Text} (h : Q t) : All P Q (text t)
  | list {items : List Json} (each : ∀ v ∈ items, All P Q v) : All P Q (list items)
  | object {fields : List (Text × Json)} (names : ∀ f ∈ fields, Q f.1) (each : ∀ f ∈ fields, All P Q f.2) :
      All P Q (object fields)

section All

variable {P : Float → Prop} {Q : Text → Prop}

@[simp] theorem all_null : All P Q null ↔ True := iff_of_true .null trivial

@[simp] theorem all_bool {b : Bool} : All P Q (bool b) ↔ True := iff_of_true (.bool b) trivial

@[simp] theorem all_int {n : Int} : All P Q (int n) ↔ True := iff_of_true (.int n) trivial

@[simp] theorem all_float {x : Float} : All P Q (float x) ↔ P x :=
  ⟨fun h => by cases h; assumption, .float⟩

@[simp] theorem all_text {t : Text} : All P Q (text t) ↔ Q t :=
  ⟨fun h => by cases h; assumption, .text⟩

@[simp] theorem all_list {items : List Json} : All P Q (list items) ↔ ∀ v ∈ items, All P Q v :=
  ⟨fun h => by cases h; assumption, .list⟩

@[simp] theorem all_object {fields : List (Text × Json)} :
    All P Q (object fields) ↔ (∀ f ∈ fields, Q f.1) ∧ ∀ f ∈ fields, All P Q f.2 :=
  ⟨fun h => by cases h; exact ⟨by assumption, by assumption⟩, fun h => .object h.1 h.2⟩

end All

theorem induction {P : Json → Prop} (null : P null) (bool : ∀ b, P (bool b)) (int : ∀ n, P (int n))
    (float : ∀ x, P (float x)) (text : ∀ t, P (text t)) (list : ∀ items, (∀ v ∈ items, P v) → P (list items))
    (object : ∀ fields, (∀ f ∈ fields, P f.2) → P (object fields)) (v : Json) : P v := by
  refine @Json.rec P (fun items => ∀ v ∈ items, P v) (fun fields => ∀ f ∈ fields, P f.2) (fun f => P f.2)
    null bool int float text list object ?_ ?_ ?_ ?_ ?_ v
  · simp
  · intro v items here later
    simpa using ⟨here, later⟩
  · simp
  · intro f fields here later
    exact List.forall_mem_cons.mpr ⟨here, later⟩
  · exact fun _ _ h => h

theorem all_of_forall {P : Float → Prop} {Q : Text → Prop} (floats : ∀ x, P x) (texts : ∀ t, Q t) (v : Json) :
    All P Q v := by
  induction v using Json.induction with
  | null => exact .null
  | bool b => exact .bool b
  | int n => exact .int n
  | float x => exact .float (floats x)
  | text t => exact .text (texts t)
  | list items ih => exact .list ih
  | object fields ih => exact .object (fun f _ => texts f.1) ih

/-! ## Numbers -/

theorem natText_eq_cons {n : Nat} (pos : 0 < n) : ∃ c t, Numeral.natText n = c :: t ∧ c ≠ '0' := by
  induction n using Nat.strongRecOn with
  | _ n ih =>
    by_cases small : n < 10
    · have digit : ∀ k < 10, 0 < k → char (Nat.digitChar k) ≠ '0' := by decide
      refine ⟨char (Nat.digitChar n), [], ?_, digit n small pos⟩
      rw [Numeral.natText, Nat.toDigits_of_lt_base small]
      rfl
    · obtain ⟨c, t, here, nonzero⟩ := ih (n / 10) (by omega) (by omega)
      refine ⟨c, t ++ [char (Nat.digitChar (n % 10))], ?_, nonzero⟩
      rw [Numeral.natText, Nat.toDigits_of_base_le (by decide) (by omega), Text.ofChars, List.map_append]
      exact congrArg (· ++ _) here

theorem isWholePart_natText (n : Nat) : IsWholePart (Numeral.natText n) := by
  rcases Nat.eq_zero_or_pos n with rfl | pos
  · exact .zero
  · obtain ⟨c, t, here, nonzero⟩ := natText_eq_cons pos
    have digits (d : CodePoint) (mem : d ∈ c :: t) : d.isDigit = true := Numeral.isDigit_natText (here ▸ mem)
    rw [here]
    exact .digits (digits c List.mem_cons_self) nonzero fun d mem => digits d (List.mem_cons_of_mem _ mem)

theorem isNumber_int (n : Int) : IsNumber (Numeral.text n) := by
  unfold Numeral.text
  split
  · have number := IsNumber.mk (.inr rfl) (isWholePart_natText n.natAbs) .none .none
    rwa [List.append_nil, List.append_nil] at number
  · have number := IsNumber.mk (.inl rfl) (isWholePart_natText n.natAbs) .none .none
    rwa [List.append_nil, List.append_nil] at number

theorem isExponent_exponentDigits (exponent : Int) :
    IsExponent ((if exponent < 0 then "e-" else "e+").toText ++ Decimal.exponentDigits exponent) := by
  have size : IsDigits (Decimal.exponentDigits exponent) :=
    ⟨Decimal.exponentDigits_ne_nil _, Decimal.isDigit_exponentDigits _⟩
  split
  · exact IsExponent.digits (.inl rfl) (.inr (.inr rfl)) size
  · exact IsExponent.digits (.inl rfl) (.inr (.inl rfl)) size

theorem isNumber_scientific {d : Decimal.Scientific} {c : CodePoint} {t sign : Text}
    (digits : d.digits = c :: t)
    (isDigit : ∀ e ∈ c :: t, e.isDigit = true) (nonzero : c ≠ '0') (minus : sign = [] ∨ sign = [char '-']) :
    IsNumber (sign ++ d.text) := by
  have first := isDigit c List.mem_cons_self
  have rest : ∀ e ∈ t, e.isDigit = true := fun e mem => isDigit e (List.mem_cons_of_mem _ mem)
  have zero : IsDigits [char '0'] := by exact ⟨by decide, by decide⟩
  have zeros (count : Nat) : ∀ e ∈ Decimal.zeros count, e.isDigit = true := Numeral.isDigit_zeros count
  simp only [Decimal.Scientific.text, digits]
  split
  · next range =>
    split
    · next fits =>
      have whole : IsWholePart (c :: t ++ Decimal.zeros (d.exponent.toNat + 1 - (c :: t).length)) :=
        .digits first nonzero (Decimal.isDigit_append rest (zeros _))
      have number := IsNumber.mk minus whole (.digits zero) .none
      rwa [List.append_nil] at number
    · next more =>
      have whole : IsWholePart ((c :: t).take (d.exponent.toNat + 1)) :=
        .digits first nonzero fun e mem => rest e (List.mem_of_mem_take mem)
      have fraction : IsDigits ((c :: t).drop (d.exponent.toNat + 1)) := by
        refine ⟨fun empty => ?_, fun e mem => isDigit e (List.mem_of_mem_drop mem)⟩
        exact more (List.drop_eq_nil_iff.mp empty)
      have number := IsNumber.mk minus whole (.digits fraction) .none
      rw [List.append_nil] at number
      rw [List.append_assoc]
      exact number
  · split
    · next range =>
      have fraction : IsDigits (Decimal.zeros ((-d.exponent).toNat - 1) ++ (c :: t)) :=
        ⟨by simp, Decimal.isDigit_append (zeros _) isDigit⟩
      have number := IsNumber.mk minus .zero (.digits fraction) .none
      rw [List.append_nil] at number
      rw [List.append_assoc]
      exact number
    · have power := isExponent_exponentDigits d.exponent
      split
      · have number := IsNumber.mk minus (.digits first nonzero rest) .none power
        rw [List.append_assoc]
        exact number
      · next long =>
        have fraction : IsDigits t := by
          refine ⟨fun empty => ?_, rest⟩
          rw [empty] at long
          exact long (Nat.le_refl 1)
        have leading := IsWholePart.digits first nonzero (List.forall_mem_nil _)
        have number := IsNumber.mk minus leading (.digits fraction) power
        rw [List.append_assoc]
        exact number

theorem digits_shortest_eq_cons {units m k : Nat} (size : Double.IsSize units m k) (pos : 0 < m) :
    ∃ c t, (Decimal.shortest units).digits = c :: t ∧ c ≠ '0' := by
  obtain ⟨ne, -⟩ := Decimal.digits_shortest size pos
  obtain ⟨n, kept⟩ : ∃ n, (Decimal.shortest units).digits = Decimal.kept n := ⟨_, rfl⟩
  rw [kept] at ne ⊢
  have positive : 0 < n := by
    rw [Nat.pos_iff_ne_zero]
    rintro rfl
    exact ne (by decide)
  obtain ⟨c, t, whole, nonzero⟩ := natText_eq_cons positive
  obtain ⟨count, split⟩ := Decimal.exists_natText_eq n
  obtain ⟨d, u, here⟩ := List.exists_cons_of_ne_nil ne
  rw [whole, here, List.cons_append, List.cons_eq_cons] at split
  exact ⟨d, u, here, split.1 ▸ nonzero⟩

theorem isNumber_float {x : Float} {negative : Bool} {units : Nat}
    (h : Double.view x = .finite negative units) :
    IsNumber (Decimal.text x) := by
  have minus : Decimal.signText negative = [] ∨ Decimal.signText negative = [char '-'] := by
    cases negative
    · exact .inl rfl
    · exact .inr rfl
  rw [Decimal.text_of_view h, Decimal.sizeText]
  split
  · have zero : IsDigits [char '0'] := by exact ⟨by decide, by decide⟩
    exact IsNumber.mk minus .zero (.digits zero) .none
  · next nonzero =>
    obtain ⟨m, k, size, -, -⟩ := Double.bits_of_view h
    have pos : 0 < m := by
      rw [Nat.pos_iff_ne_zero]
      rintro rfl
      exact nonzero (by rw [size.eq, Nat.zero_mul])
    obtain ⟨c, t, digits, other⟩ := digits_shortest_eq_cons size pos
    have all := (Decimal.digits_shortest size pos).2
    rw [digits] at all
    exact isNumber_scientific digits all other minus

/-! ## Strings -/

theorem isHex_hexDigits (count n : Nat) : ∀ c ∈ hexDigits count n, isHex c = true := by
  have digit : ∀ k < 16, isHex (char (Nat.digitChar k)) = true := by decide
  induction count generalizing n with
  | zero => exact fun c mem => absurd mem List.not_mem_nil
  | succ count ih =>
    intro c mem
    rcases List.mem_append.mp mem with before | last
    · exact ih _ c before
    · rw [List.mem_singleton.mp last]
      exact digit _ (Nat.mod_lt _ (by decide))

theorem length_hexDigits (count n : Nat) : (hexDigits count n).length = count := by
  induction count generalizing n with
  | zero => rfl
  | succ count ih => rw [hexDigits, List.length_append, ih, List.length_singleton]

theorem isChar_stringChar (c : CodePoint) : IsChar (stringChar c) := by
  unfold stringChar
  split
  · next mark =>
    refine .escape ?_
    rcases mark with rfl | rfl <;> decide
  · next plain =>
    rw [not_or] at plain
    split
    · exact .escape (by decide)
    split
    · exact .escape (by decide)
    split
    · exact .escape (by decide)
    split
    · exact .escape (by decide)
    split
    · exact .escape (by decide)
    split
    · exact .unicode (length_hexDigits 4 _) (isHex_hexDigits 4 _)
    · next visible => exact .plain (Nat.not_lt.mp visible) plain.1 plain.2

theorem isString_stringText (t : Text) : IsString (stringText t) := by
  have each : ∀ u ∈ t.map stringChar, IsChar u := by
    intro u mem
    obtain ⟨c, -, rfl⟩ := List.mem_map.mp mem
    exact isChar_stringChar c
  have string := IsString.mk each
  rwa [← List.flatMap_def] at string

/-! ## What is written -/

def IsFinite (x : Float) : Prop := ∃ negative units, Double.view x = .finite negative units

def Finite (v : Json) : Prop := All IsFinite (fun _ => True) v

theorem isSpaces_newline (level : Nat) : IsSpaces (newline level) := by
  intro c mem
  rcases List.mem_cons.mp mem with rfl | mem
  · decide
  · rw [List.eq_of_mem_replicate mem]
    decide

theorem isSpaces_nil : IsSpaces [] := fun _ mem => absurd mem List.not_mem_nil

/-- The mark that opens a list or an object, or stands between items, has its blanks behind it. -/
theorem isMark_cons {c : CodePoint} {t : Text} (spaces : IsSpaces t) : IsMark c (c :: t) :=
  .mk isSpaces_nil spaces

theorem isMark_concat {c : CodePoint} {t : Text} (spaces : IsSpaces t) : IsMark c (t ++ [c]) :=
  .mk spaces isSpaces_nil

theorem separated_writeItems (level : Nat) (v : Json) (vs : List Json) :
    Separated ((v :: vs).map (write level)) (write level v ++ writeItems level vs) := by
  induction vs generalizing v with
  | nil =>
    rw [writeItems, List.append_nil]
    exact .one _
  | cons w vs ih =>
    have more := Separated.more (write level v) (isMark_cons (isSpaces_newline level)) (ih w)
    rw [writeItems, List.append_assoc, List.append_assoc]
    exact more

theorem isMark_colon : IsMark ':' ": ".toText := by
  have space : ∀ c ∈ [char ' '], isSpace c = true := by decide
  exact isMark_cons space

def memberOf (level : Nat) (f : Text × Json) : Member :=
  ⟨stringText f.1, ": ".toText, write level f.2, isString_stringText f.1, isMark_colon⟩

theorem separated_writeFields (level : Nat) (f : Text × Json) (fs : List (Text × Json)) :
    Separated (((f :: fs).map (memberOf level)).map Member.text)
      (stringText f.1 ++ ": ".toText ++ write level f.2 ++ writeFields level fs) := by
  induction fs generalizing f with
  | nil =>
    rw [writeFields, List.append_nil, List.append_assoc]
    exact .one _
  | cons g fs ih =>
    have more := Separated.more (memberOf level f).text (isMark_cons (isSpaces_newline level)) (ih g)
    rw [Member.text] at more
    rw [writeFields]
    simp only [List.append_assoc] at more ⊢
    exact more

theorem write_list (level : Nat) (v : Json) (vs : List Json) :
    write level (list (v :: vs)) = (char '[' :: newline (level + 1)) ++
      ((write (level + 1) v ++ writeItems (level + 1) vs) ++ (newline level ++ [char ']'])) := by
  rw [write]
  simp only [List.append_assoc]
  rfl

theorem write_object (level : Nat) (f : Text × Json) (fs : List (Text × Json)) :
    write level (object (f :: fs)) = (char '\x7b' :: newline (level + 1)) ++
      ((stringText f.1 ++ ": ".toText ++ write (level + 1) f.2 ++ writeFields (level + 1) fs) ++
        (newline level ++ [char '\x7d'])) := by
  rw [write]
  simp only [List.append_assoc]
  rfl

theorem isValue_write {v : Json} (finite : v.Finite) (level : Nat) : IsValue (write level v) := by
  induction v using Json.induction generalizing level with
  | null => exact .word (by rw [write]; decide)
  | bool b => exact .word (by rw [write]; cases b <;> decide)
  | int n => exact .number (isNumber_int n)
  | float x =>
    obtain ⟨negative, units, view⟩ := all_float.mp finite
    rw [write, floatText, view]
    exact .number (isNumber_float view)
  | text t => exact .string (isString_stringText t)
  | list items ih =>
    have each := all_list.mp finite
    cases items with
    | nil => exact .list (isMark_cons isSpaces_nil) .none (isMark_cons isSpaces_nil) (List.forall_mem_nil _)
    | cons v vs =>
      rw [write_list]
      refine .list (isMark_cons (isSpaces_newline _)) (separated_writeItems _ v vs)
        (isMark_concat (isSpaces_newline _)) ?_
      intro t mem
      obtain ⟨w, among, rfl⟩ := List.mem_map.mp mem
      exact ih w among (each w among) _
  | object fields ih =>
    have each := (all_object.mp finite).2
    cases fields with
    | nil =>
      exact @IsValue.object [] _ _ _ (isMark_cons isSpaces_nil) .none (isMark_cons isSpaces_nil)
        (List.forall_mem_nil _)
    | cons f fs =>
      rw [write_object]
      refine .object (isMark_cons (isSpaces_newline _)) (separated_writeFields _ f fs)
        (isMark_concat (isSpaces_newline _)) ?_
      intro m mem
      obtain ⟨g, among, rfl⟩ := List.mem_map.mp mem
      exact ih g among (each g among) _

/-! ## Outside of strings -/

/-- Where a reader of a text is: outside of strings, inside of one, or behind a backslash in one. -/
inductive Place where
  | outside | inside | escaped
  deriving DecidableEq, Repr

def bareFrom : Place → Text → Text
  | _, [] => []
  | .outside, c :: rest => if c = '"' then bareFrom .inside rest else c :: bareFrom .outside rest
  | .inside, c :: rest =>
    if c = '"' then bareFrom .outside rest
    else if c = '\\' then bareFrom .escaped rest
    else bareFrom .inside rest
  | .escaped, _ :: rest => bareFrom .inside rest

/-- Whether a text opens no string that it does not close, and has the given characters outside of strings. -/
def Steady (t bare : Text) : Prop := ∀ rest, bareFrom .outside (t ++ rest) = bare ++ bareFrom .outside rest

/-- Whether a text has neither an `N` nor an `I`. -/
def Quiet (t : Text) : Prop := ∀ c ∈ t, c ≠ 'N' ∧ c ≠ 'I'

theorem Quiet.append {s t : Text} (hs : Quiet s) (ht : Quiet t) : Quiet (s ++ t) := by
  intro c mem
  exact (List.mem_append.mp mem).elim (hs c) (ht c)

theorem Steady.append {s t a b : Text} (hs : Steady s a) (ht : Steady t b) : Steady (s ++ t) (a ++ b) := by
  intro rest
  rw [List.append_assoc, hs, ht, List.append_assoc]

theorem Steady.eq {t a b : Text} (ha : Steady t a) (hb : Steady t b) : a = b := by
  have same := (ha []).symm.trans (hb [])
  rwa [show bareFrom .outside [] = [] from rfl, List.append_nil, List.append_nil] at same

theorem steady_of_not_mem {t : Text} (h : char '"' ∉ t) : Steady t t := by
  induction t with
  | nil => exact fun rest => rfl
  | cons c t ih =>
    rw [List.mem_cons, not_or] at h
    intro rest
    rw [List.cons_append, bareFrom, if_neg (Ne.symm h.1), ih h.2, List.cons_append]

theorem bareFrom_plain {t : Text} (plain : ∀ c ∈ t, c ≠ '"' ∧ c ≠ '\\') (rest : Text) :
    bareFrom .inside (t ++ rest) = bareFrom .inside rest := by
  induction t with
  | nil => rfl
  | cons c t ih =>
    rw [List.forall_mem_cons] at plain
    rw [List.cons_append, bareFrom, if_neg plain.1.1, if_neg plain.1.2, ih plain.2]

theorem bareFrom_isChar {t : Text} (h : IsChar t) (rest : Text) :
    bareFrom .inside (t ++ rest) = bareFrom .inside rest := by
  cases h with
  | plain visible quote backslash =>
      exact bareFrom_plain (List.forall_mem_singleton.mpr ⟨quote, backslash⟩) rest
  | escape letter => rfl
  | unicode four digits =>
    have plain (c : CodePoint) (hex : isHex c = true) : c ≠ '"' ∧ c ≠ '\\' := by
      simpa using forall_hex (P := fun c => c != '"' && c != '\\') (by decide) hex
    exact bareFrom_plain (fun c mem => plain c (digits c mem)) rest

theorem steady_isString {t : Text} (h : IsString t) : Steady t [] := by
  cases h with
  | @mk chars each =>
    intro rest
    have body : ∀ after, bareFrom .inside (chars.flatten ++ after) = bareFrom .inside after := by
      induction chars with
      | nil => exact fun after => rfl
      | cons t chars ih =>
        intro after
        rw [List.forall_mem_cons] at each
        rw [List.flatten_cons, List.append_assoc, bareFrom_isChar each.1, ih each.2]
    rw [List.cons_append, List.append_assoc, bareFrom, if_pos rfl, body, List.singleton_append,
      bareFrom, if_pos rfl]
    rfl

/-- Whether a text closes its strings and has neither an `N` nor an `I` outside of them. -/
def Calm (t : Text) : Prop := ∃ bare, Steady t bare ∧ Quiet bare

/-- Whether a character is neither a quote nor an `N` nor an `I`. -/
def isCalm (c : CodePoint) : Bool := c != '"' && c != 'N' && c != 'I'

theorem Calm.append {s t : Text} (hs : Calm s) (ht : Calm t) : Calm (s ++ t) := by
  obtain ⟨a, steady, quiet⟩ := hs
  obtain ⟨b, steady', quiet'⟩ := ht
  exact ⟨a ++ b, steady.append steady', quiet.append quiet'⟩

theorem calm_of_forall {t : Text} (h : ∀ c ∈ t, isCalm c = true) : Calm t := by
  simp only [isCalm, Bool.and_eq_true, bne_iff_ne] at h
  exact ⟨t, steady_of_not_mem fun mem => (h _ mem).1.1 rfl, fun c mem => ⟨(h c mem).1.2, (h c mem).2⟩⟩

theorem calm_cons {c : CodePoint} {t : Text} (mark : isCalm c = true) (ht : Calm t) : Calm (c :: t) :=
  (calm_of_forall (List.forall_mem_singleton.mpr mark)).append ht

theorem calm_of_isDigit {t : Text} (h : ∀ c ∈ t, c.isDigit = true) : Calm t :=
  calm_of_forall fun c mem => forall_digit (P := isCalm) (by decide) (h c mem)

theorem calm_isString {t : Text} (h : IsString t) : Calm t :=
  ⟨[], steady_isString h, fun _ mem => absurd mem List.not_mem_nil⟩

theorem calm_isSpaces {t : Text} (h : IsSpaces t) : Calm t := by
  refine calm_of_forall fun c mem => ?_
  have space := h c mem
  simp only [isSpace, Bool.or_eq_true, beq_iff_eq] at space
  rcases space with ((rfl | rfl) | rfl) | rfl <;> decide

theorem calm_isMark {c : CodePoint} {t : Text} (h : IsMark c t) (mark : isCalm c = true) : Calm t := by
  cases h with
  | mk before behind => exact (calm_isSpaces before).append (calm_cons mark (calm_isSpaces behind))

theorem calm_isNumber {t : Text} (h : IsNumber t) : Calm t := by
  cases h with
  | mk minus part fraction power =>
    refine .append ?_ (.append ?_ (.append ?_ ?_))
    · rcases minus with rfl | rfl
      · exact calm_of_forall (List.forall_mem_nil _)
      · exact calm_of_forall (by decide)
    · cases part with
      | zero => exact calm_of_forall (by decide)
      | digits first nonzero rest => exact calm_of_isDigit (List.forall_mem_cons.mpr ⟨first, rest⟩)
    · cases fraction with
      | none => exact calm_of_forall (List.forall_mem_nil _)
      | digits digits => exact calm_cons (by decide) (calm_of_isDigit digits.2)
    · cases power with
      | none => exact calm_of_forall (List.forall_mem_nil _)
      | digits mark signed digits =>
        refine calm_cons (by rcases mark with rfl | rfl <;> decide) (.append ?_ (calm_of_isDigit digits.2))
        rcases signed with rfl | rfl | rfl <;> exact calm_of_forall (by decide)

theorem calm_separated {ts : List Text} {t : Text} (h : Separated ts t) (each : ∀ u ∈ ts, Calm u) :
    Calm t := by
  induction h with
  | none => exact calm_of_forall (List.forall_mem_nil _)
  | one t => exact each t List.mem_cons_self
  | more t comma further ih =>
    rw [List.forall_mem_cons] at each
    exact each.1.append ((calm_isMark comma (by decide)).append (ih each.2))

/-- A value has neither an `N` nor an `I` outside of its strings. -/
theorem calm_isValue {t : Text} (h : IsValue t) : Calm t := by
  induction h with
  | word known =>
    have words : ∀ t ∈ ["null".toText, "true".toText, "false".toText], ∀ c ∈ t, isCalm c = true := by decide
    exact calm_of_forall (words _ known)
  | number number => exact calm_isNumber number
  | string string => exact calm_isString string
  | list opens separated closes each ih =>
    exact (calm_isMark opens (by decide)).append
      ((calm_separated separated ih).append (calm_isMark closes (by decide)))
  | object opens separated closes each ih =>
    refine (calm_isMark opens (by decide)).append ?_
    refine .append (calm_separated separated ?_) (calm_isMark closes (by decide))
    intro t mem
    obtain ⟨m, among, rfl⟩ := List.mem_map.mp mem
    exact (calm_isString m.named).append ((calm_isMark m.marked (by decide)).append (ih m among))

theorem calm_isText {t : Text} (h : IsText t) : Calm t := by
  cases h with
  | mk before value behind =>
      exact (calm_isSpaces before).append ((calm_isValue value).append (calm_isSpaces behind))

/-! ## Words for doubles that are not finite -/

/-- Whether a text closes its strings and something holds if there is neither an `N` nor an `I`
outside of them. -/
def Tells (t : Text) (P : Prop) : Prop := ∃ bare, Steady t bare ∧ (Quiet bare → P)

theorem Calm.tells {t : Text} (h : Calm t) : Tells t True := by
  obtain ⟨bare, steady, -⟩ := h
  exact ⟨bare, steady, fun _ => trivial⟩

theorem Tells.append {s t : Text} {P Q : Prop} (hs : Tells s P) (ht : Tells t Q) :
    Tells (s ++ t) (P ∧ Q) := by
  obtain ⟨a, steady, told⟩ := hs
  obtain ⟨b, steady', told'⟩ := ht
  refine ⟨a ++ b, steady.append steady', fun quiet => ⟨told ?_, told' ?_⟩⟩
  · exact fun c mem => quiet c (List.mem_append_left _ mem)
  · exact fun c mem => quiet c (List.mem_append_right _ mem)

theorem Tells.imp {t : Text} {P Q : Prop} (h : Tells t P) (imp : P → Q) : Tells t Q := by
  obtain ⟨bare, steady, told⟩ := h
  exact ⟨bare, steady, fun quiet => imp (told quiet)⟩

theorem Tells.between {s t u : Text} {P : Prop} (before : Calm s) (h : Tells t P) (behind : Calm u) :
    Tells (s ++ (t ++ u)) P :=
  (before.tells.append (h.append behind.tells)).imp fun told => told.2.1

theorem tells_floatText (x : Float) : Tells (floatText x) (IsFinite x) := by
  have word {t : Text} (steady : char '"' ∉ t) (loud : ¬Quiet t) : Tells t (IsFinite x) :=
    ⟨t, steady_of_not_mem steady, fun quiet => absurd quiet loud⟩
  unfold floatText
  split
  · exact word (by decide) fun quiet => (quiet 'N' (by decide)).1 rfl
  · next negative view =>
    cases negative
    · exact word (by decide) fun quiet => (quiet 'I' (by decide)).2 rfl
    · exact word (by decide) fun quiet => (quiet 'I' (by decide)).2 rfl
  · next view => exact (calm_isNumber (isNumber_float view)).tells.imp fun _ => ⟨_, _, view⟩

theorem tells_writeItems {level : Nat} {vs : List Json} (each : ∀ v ∈ vs, Tells (write level v) v.Finite) :
    Tells (writeItems level vs) (∀ v ∈ vs, v.Finite) := by
  induction vs with
  | nil => exact (calm_of_forall (List.forall_mem_nil _)).tells.imp fun _ => List.forall_mem_nil _
  | cons v vs ih =>
    rw [List.forall_mem_cons] at each
    have comma : Calm (",".toText ++ newline level) :=
      calm_cons (by decide) (calm_isSpaces (isSpaces_newline level))
    rw [writeItems]
    refine ((comma.tells.append each.1).append (ih each.2)).imp fun told => ?_
    exact List.forall_mem_cons.mpr ⟨told.1.2, told.2⟩

theorem tells_writeFields {level : Nat} {fs : List (Text × Json)}
    (each : ∀ f ∈ fs, Tells (write level f.2) f.2.Finite) :
    Tells (writeFields level fs) (∀ f ∈ fs, f.2.Finite) := by
  induction fs with
  | nil => exact (calm_of_forall (List.forall_mem_nil _)).tells.imp fun _ => List.forall_mem_nil _
  | cons f fs ih =>
    rw [List.forall_mem_cons] at each
    have comma : Calm (",".toText ++ newline level) :=
      calm_cons (by decide) (calm_isSpaces (isSpaces_newline level))
    have name : Calm (",".toText ++ newline level ++ stringText f.1 ++ ": ".toText) :=
      (comma.append (calm_isString (isString_stringText f.1))).append (calm_isMark isMark_colon (by decide))
    rw [writeFields]
    refine ((name.tells.append each.1).append (ih each.2)).imp fun told => ?_
    exact List.forall_mem_cons.mpr ⟨told.1.2, told.2⟩

/-- What is written for a value has an `N` or an `I` outside of its strings if a double in it is not
finite. -/
theorem tells_write (v : Json) (level : Nat) : Tells (write level v) v.Finite := by
  induction v using Json.induction generalizing level with
  | null =>
    rw [write]
    exact (calm_of_forall (by decide)).tells.imp fun _ => .null
  | bool b =>
    rw [write]
    refine (calm_of_forall ?_).tells.imp fun _ => .bool b
    cases b <;> decide
  | int n => exact (calm_isNumber (isNumber_int n)).tells.imp fun _ => .int n
  | float x => exact (tells_floatText x).imp .float
  | text t => exact (calm_isString (isString_stringText t)).tells.imp fun _ => .text trivial
  | list items ih =>
    cases items with
    | nil => exact (calm_of_forall (by rw [write]; decide)).tells.imp fun _ => .list (List.forall_mem_nil _)
    | cons v vs =>
      rw [List.forall_mem_cons] at ih
      have opens : Calm (char '[' :: newline (level + 1)) :=
        calm_cons (by decide) (calm_isSpaces (isSpaces_newline _))
      have closes : Calm (newline level ++ [char ']']) :=
        (calm_isSpaces (isSpaces_newline _)).append (calm_of_forall (by decide))
      have items := (ih.1 (level + 1)).append (tells_writeItems fun w mem => ih.2 w mem (level + 1))
      rw [write_list]
      exact (items.between opens closes).imp fun told => .list (List.forall_mem_cons.mpr told)
  | object fields ih =>
    cases fields with
    | nil =>
      refine (calm_of_forall (by rw [write]; decide)).tells.imp fun _ => ?_
      exact .object (List.forall_mem_nil _) (List.forall_mem_nil _)
    | cons f fs =>
      rw [List.forall_mem_cons] at ih
      have opens : Calm (char '\x7b' :: newline (level + 1)) :=
        calm_cons (by decide) (calm_isSpaces (isSpaces_newline _))
      have closes : Calm (newline level ++ [char '\x7d']) :=
        (calm_isSpaces (isSpaces_newline _)).append (calm_of_forall (by decide))
      have name : Calm (stringText f.1 ++ ": ".toText) :=
        (calm_isString (isString_stringText f.1)).append (calm_isMark isMark_colon (by decide))
      have later := tells_writeFields fun g mem => ih.2 g mem (level + 1)
      have fields := (name.tells.append (ih.1 (level + 1))).append later
      rw [write_object]
      refine (fields.between opens closes).imp fun told => .object (fun _ _ => trivial) ?_
      exact List.forall_mem_cons.mpr ⟨told.1.2, told.2⟩

/-- What is written for a value is a JSON text if and only if all doubles in the value are finite. -/
theorem isText_write_iff {v : Json} : IsText (write 0 v) ↔ v.Finite := by
  constructor
  · intro h
    obtain ⟨bare, steady, quiet⟩ := calm_isText h
    obtain ⟨bare', steady', told⟩ := tells_write v 0
    exact told (steady.eq steady' ▸ quiet)
  · intro finite
    have text := IsText.mk isSpaces_nil (isValue_write finite 0) isSpaces_nil
    rwa [List.nil_append, List.append_nil] at text

end SclNarrator.Json
