import SclNarrator.Proofs.Expr.Names
import SclNarrator.Proofs.Expr.Rewriting
import SclNarrator.Proofs.Number.DecimalText

/-!
What putting values in the place of names does to the words of an expression. The text of a value is
a string, or signs, digits and constants (`Value.isSymbol_or_quoted`). Outside of strings it brings
no word that a variable could be. An apostrophe that opens no string turns what is between quotes
behind it into code and the other way round; such an expression is never read to its end in code,
unless a backslash stands before a name (`not_code_of_open`). So a reader of the finished text that
ends in code has met no words but those of the expression and spare ones (`covers_of_spliced`).
-/

namespace SclNarrator

open Quoting (isDull isDull_of_class isDull_of_isWord)
open Lexeme (IsQuotation)

/-! ## Numerals -/

namespace Decimal

/-- Whether a text has nothing but digits, points, signs, and exponent marks behind digits; `digit` says
whether it stands behind a digit. -/
def steady (digit : Bool) : Text → Bool
  | [] => true
  | c :: t => (c.isDigit || (c == 'e' && digit) || c == '.' || c == '+' || c == '-') && steady c.isDigit t

theorem steady_digits {t : Text} (digits : ∀ c ∈ t, c.isDigit = true) (digit : Bool) :
    steady digit t = true := by
  induction t generalizing digit with
  | nil => rfl
  | cons c t ih =>
    rw [List.forall_mem_cons] at digits
    simp [steady, digits.1, ih digits.2]

theorem steady_append {a b : Text} (ne : a ≠ []) (digits : ∀ c ∈ a, c.isDigit = true)
    (later : steady true b = true) (digit : Bool) : steady digit (a ++ b) = true := by
  induction a generalizing digit with
  | nil => exact absurd rfl ne
  | cons c a ih =>
    rw [List.forall_mem_cons] at digits
    rw [List.cons_append, steady, digits.1, Bool.true_or, Bool.true_or, Bool.true_or, Bool.true_or,
      Bool.true_and]
    cases a with
    | nil => exact later
    | cons d a => exact ih (List.cons_ne_nil d a) digits.2 true

theorem Scientific.steady_text {d : Scientific} (ne : d.digits ≠ [])
    (digits : ∀ c ∈ d.digits, c.isDigit = true) :
    steady false d.text = true := by
  have part {t : Text} (sub : t ⊆ d.digits) : ∀ c ∈ t, c.isDigit = true := fun c mem => digits c (sub mem)
  have size : ∀ c ∈ exponentDigits d.exponent, c.isDigit = true := isDigit_exponentDigits d.exponent
  simp only [Scientific.text]
  split
  · split
    · refine steady_append (by simp [ne]) (isDigit_append digits (Numeral.isDigit_zeros _)) ?_ false
      decide
    · rw [List.append_assoc]
      refine steady_append (by simp [ne]) (part (List.take_subset _ _)) ?_ false
      exact steady_digits (part (List.drop_subset _ _)) false
  · split
    · exact steady_digits (isDigit_append (Numeral.isDigit_zeros _) digits) false
    · have behind : steady true
          ((if d.exponent < 0 then "e-" else "e+").toText ++ exponentDigits d.exponent) = true := by
        split <;> exact steady_digits size false
      rw [List.append_assoc]
      split
      · exact steady_append ne digits behind false
      · next more =>
        rw [List.append_assoc, List.append_assoc]
        refine steady_append (by simp [ne]) (part (List.take_subset _ _)) ?_ false
        refine steady_append ?_ (part (List.drop_subset _ _)) behind false
        simp only [ne_eq, List.drop_eq_nil_iff]
        omega

theorem spare_of_head {w : Text} (digit : w.head?.any CodePoint.isDigit = true) : Spare w := by
  rw [Spare, isSpare, digit, Bool.or_true]

theorem steady_sizeText {units m k : Nat} (size : Double.IsSize units m k) :
    steady false (sizeText units) = true := by
  unfold sizeText
  split
  · decide
  · next nonzero =>
    have pos : 0 < m := by
      rw [size.eq] at nonzero
      exact Nat.pos_of_ne_zero fun isZero => nonzero (by rw [isZero, Nat.zero_mul])
    obtain ⟨ne, digits⟩ := digits_shortest size pos
    exact Scientific.steady_text ne digits

theorem spare_of_steady {t : Text} {digit : Bool} (h : steady digit t = true) {r : Reader}
    (code : r.quoting = .code)
    (start : r.word = [] ∨ r.word.head?.any CodePoint.isDigit = true) (inside : digit = true → r.word ≠ [])
    (met : ∀ w ∈ r.words, Spare w) : ∀ w ∈ (r.read t).spoken, Spare w := by
  have here : Spare r.word := by
    rcases start with none | first
    · rw [none]
      exact spare_nil
    · exact spare_of_head first
  induction t generalizing digit r with
  | nil => exact List.forall_mem_cons.mpr ⟨here, met⟩
  | cons c t ih =>
    simp only [steady, Bool.and_eq_true, Bool.or_eq_true, beq_iff_eq] at h
    obtain ⟨here', later⟩ := h
    -- a digit or an exponent mark goes on with the word, anything else ends it
    have goes (word : isWord c = true) (start' : (r.word ++ [c]).head?.any CodePoint.isDigit = true) :
        ∀ w ∈ ((r.next c).read t).spoken, Spare w := by
      rw [Reader.next_of_isWord code word]
      exact ih later code (.inr start') (fun _ => by simp) met (spare_of_head start')
    have ends (mark : isWord c = false) (plain : c.isDigit = false) (dull : isDull c = true) :
        ∀ w ∈ ((r.next c).read t).spoken, Spare w := by
      rw [plain] at later
      rw [Reader.next_of_not_isWord mark, code, Quoting.next_of_isDull dull]
      exact ih later rfl (.inl rfl) (fun digit => by cases digit)
        (List.forall_mem_cons.mpr ⟨here, met⟩) spare_nil
    rw [Reader.read_cons]
    rcases here' with (((digit' | ⟨rfl, behind⟩) | rfl) | rfl) | rfl
    · refine goes (forall_digit (P := isWord) (by decide) digit') ?_
      rcases start with none | first
      · simpa [none] using digit'
      · obtain ⟨d, w, same⟩ :=
          List.exists_cons_of_ne_nil (l := r.word) (by rintro empty; simp [empty] at first)
        simpa [same] using first
    · have ne := inside behind
      obtain ⟨d, w, same⟩ := List.exists_cons_of_ne_nil ne
      refine goes (by decide) ?_
      simpa [same] using start.resolve_left ne
    · exact ends (by decide) (by decide) (by decide)
    · exact ends (by decide) (by decide) (by decide)
    · exact ends (by decide) (by decide) (by decide)

theorem isDecimalChar_of_steady {t : Text} {digit : Bool} (h : steady digit t = true) :
    ∀ c ∈ t, isDecimalChar c = true := by
  induction t generalizing digit with
  | nil => simp
  | cons c t ih =>
    rw [steady, Bool.and_eq_true] at h
    refine List.forall_mem_cons.mpr ⟨?_, ih h.2⟩
    simp only [Bool.or_eq_true, Bool.and_eq_true] at h
    simp only [isDecimalChar, Bool.or_eq_true]
    tauto

theorem isSymbol_of_steady {t : Text} (ne : t ≠ []) (h : steady false t = true) : IsSymbol t := by
  have chars := isDecimalChar_of_steady h
  refine ⟨ne, fun c mem => isDull_of_class (by decide) (chars c mem), fun line => ?_, ?_⟩
  · exact absurd (chars _ (List.mem_of_mem_head? line)) (by decide)
  · exact spare_of_steady h rfl (.inl rfl) (fun digit => by cases digit) (by simp)

end Decimal

/-- The texts of values inside an expression that are neither numerals nor quoted. -/
def Value.constantSources : List Text :=
  ["null", "true", "false", "NaN", "Infinity", "-Infinity"].map String.toText

theorem Value.source_cases {v : Value} {t : Text} (h : v.source = .ok t) :
    t ∈ Value.constantSources ∨ (t ≠ [] ∧ Decimal.steady false t = true) ∨ ∃ u, t = Value.quotedSource u := by
  cases v with
  | none =>
    cases h
    exact .inl (by decide)
  | bool b =>
    cases h
    cases b <;> exact .inl (by decide)
  | int n =>
    rw [source, intText] at h
    split at h
    · cases h
      right; left
      have digits := fun c (mem : c ∈ Numeral.natText n.natAbs) => Numeral.isDigit_natText mem
      unfold Numeral.text
      split
      · exact ⟨by simp, Decimal.steady_digits digits false⟩
      · exact ⟨Numeral.natText_ne_nil _, Decimal.steady_digits digits false⟩
    · cases h
  | text u =>
    cases h
    exact .inr (.inr ⟨u, rfl⟩)
  | complex z =>
    cases h
    exact .inr (.inr ⟨z.text, rfl⟩)
  | float x =>
    rw [source] at h
    split at h
    · cases h
      exact .inl (by decide)
    · next negative _ =>
      cases h
      cases negative <;> exact .inl (by decide)
    · next negative units view =>
      cases h
      right; left
      rw [Decimal.text_of_view view]
      obtain ⟨m, k, size, -⟩ := Double.bits_of_view view
      have steady := Decimal.steady_sizeText size
      cases negative with
      | false =>
        obtain ⟨_, read, _⟩ := Decimal.exists_readsAs_sizeText size
        obtain ⟨c, rest, first, -⟩ := read.first
        exact ⟨by simp [Decimal.signText, first], steady⟩
      | true => exact ⟨List.cons_ne_nil _ _, steady⟩

/-- The text of a value inside an expression can come in for a word, or quotes a text. -/
theorem Value.isSymbol_or_quoted {v : Value} {t : Text} (h : v.source = .ok t) :
    IsSymbol t ∨ ∃ u, t = Value.quotedSource u := by
  have constants : ∀ t ∈ Value.constantSources, t ≠ [] ∧ (∀ c ∈ t, isDull c = true) ∧ t.head? ≠ some '\n' ∧
      ∀ w ∈ (({} : Reader).read t).spoken, Spare w := by decide
  rcases Value.source_cases h with constant | ⟨ne, steady⟩ | quoted
  · obtain ⟨ne, dull, line, spare⟩ := constants t constant
    exact .inl ⟨ne, dull, line, spare⟩
  · exact .inl (Decimal.isSymbol_of_steady ne steady)
  · exact .inr quoted

/-! ## Quoted texts -/

namespace Reader

/-- Between double quotes the reader stays there, and every character ends an empty word. -/
theorem read_escaped (u : Text) (ws : List Text) :
    (⟨.quotes, [], ws⟩ : Reader).read (escaped u) =
      ⟨.quotes, [], List.replicate (escaped u).length [] ++ ws⟩ := by
  have passed (n : Nat) (ws : List Text) :
      List.replicate n [] ++ [] :: ws = List.replicate (n + 1) [] ++ ws := by
    rw [List.replicate_succ', List.append_assoc, List.singleton_append]
  induction u generalizing ws with
  | nil => rfl
  | cons c u ih =>
    rw [escaped_cons, read_append, List.length_append, Nat.add_comm]
    split
    · next special =>
      have step : (⟨.quotes, [], ws⟩ : Reader).read [.char '\\', c] = ⟨.quotes, [], [] :: [] :: ws⟩ := by
        rcases special with rfl | rfl <;> rfl
      rw [step, ih, passed, passed]
      rfl
    · next plain =>
      rw [not_or] at plain
      have step : (⟨.quotes, [], ws⟩ : Reader).read [c] = ⟨.quotes, [], [] :: ws⟩ := by
        rw [read_cons, read_nil, next_of_not_code (fun code => by cases code), Quoting.next, if_neg plain.2,
          if_neg plain.1]
      rw [step, ih, passed]
      rfl

theorem read_quotedSource (u w : Text) (ws : List Text) :
    (⟨.code, w, ws⟩ : Reader).read (Value.quotedSource u) =
      ⟨.code, [], [] :: (List.replicate (escaped u).length [] ++ w :: ws)⟩ := by
  have opens : (⟨.code, w, ws⟩ : Reader).next '"' = ⟨.quotes, [], w :: ws⟩ := rfl
  rw [quotedSource_eq, List.cons_append, read_cons, opens, read_append, read_escaped]
  rfl

end Reader

/-- The places of a reader behind an apostrophe that opens no string: it takes what is between quotes for
code, and code for something between quotes. -/
def Quoting.Astray (q : Quoting) : Prop := q = .apostrophes ∨ q = .quotes ∨ q = .broken

theorem Quoting.astray_quotedSource (u : Text) {q : Quoting} (astray : Astray q) :
    Astray (q.after (Value.quotedSource u)) := by
  have inside (u : Text) : ∀ q : Quoting, q = .apostrophes ∨ q = .code ∨ q = .broken →
      q.after (escaped u) = .apostrophes ∨ q.after (escaped u) = .code ∨ q.after (escaped u) = .broken := by
    induction u with
    | nil => exact fun q place => place
    | cons c u ih =>
      intro q place
      rw [escaped_cons, after_append]
      apply ih
      split
      · next special => rcases special with rfl | rfl <;> rcases place with rfl | rfl | rfl <;> decide
      · next plain =>
        rw [not_or] at plain
        by_cases single : c = '\''
        · subst single
          rcases place with rfl | rfl | rfl <;> decide
        · have dull : isDull c = true := by simp [isDull, single, plain]
          rw [after_cons, after_nil, next_of_isDull dull]
          rcases place with rfl | rfl | rfl <;> simp [settled]
  rw [quotedSource_eq, List.cons_append, after_cons, after_append]
  have opened : q.next '"' = .apostrophes ∨ q.next '"' = .code ∨ q.next '"' = .broken := by
    rcases astray with rfl | rfl | rfl <;> decide
  rcases inside u _ opened with place | place | place <;> rw [place]
  · exact .inl rfl
  · exact .inr (.inl rfl)
  · exact .inr (.inr rfl)

/-! ## Names replaced by values -/

/-- Whether a stretch between two texts is a name that gives way to the text of its value. -/
structure Splice (names : List Text) (f : Text → Except Fault Text) (back m m' rest : Text) : Prop where
  mem : m ∈ names
  value : f m = .ok m'
  before : Stops isWord back
  behind : Stops isWord rest

theorem Substitution.stops_of_nameAt? {names : List Text} {back m rest : Text}
    (h : nameAt? names back (m ++ rest) = some m) : Stops isWord back ∧ Stops isWord rest := by
  obtain ⟨-, after, same, allows⟩ := exists_of_nameAt? h
  obtain rfl := List.append_cancel_left same
  refine ⟨fun c first => ?_, stops_of_allowsNameBefore allows⟩
  have starts := allowsNameAfter_of_nameAt? h
  rw [allowsNameAfter, Option.mem_def.mp first] at starts
  simp only [Option.any_some, Bool.not_eq_true', Bool.or_eq_false_iff] at starts
  exact starts.1

theorem rewrites_of_replaceNames {names : List Text} {f : Text → Except Fault Text} {t out : Text}
    (fine : ∀ n ∈ names, Term.isIdentifier n = true)
    (h : Substitution.replaceNames names f 0 [] t = .ok out) : Rewrites (Splice names f) [] t out := by
  -- by induction on the length: a name may have several characters
  have general : ∀ (size : Nat) (back t out : Text), t.length ≤ size →
      Substitution.replaceNames names f 0 back t = .ok out → Rewrites (Splice names f) back t out := by
    intro size
    induction size with
    | zero =>
      intro back t out short made
      obtain rfl := List.eq_nil_of_length_eq_zero (Nat.le_zero.mp short)
      rw [Substitution.replaceNames, Substitution.nameAt?_of_stops fine stops_nil] at made
      cases made
      exact .done back
    | succ size ih =>
      intro back t out short made
      cases t with
      | nil =>
        rw [Substitution.replaceNames, Substitution.nameAt?_of_stops fine stops_nil] at made
        cases made
        exact .done back
      | cons c rest =>
        rw [Substitution.replaceNames] at made
        cases here : Substitution.nameAt? names back (c :: rest) with
        | none =>
          rw [here] at made
          obtain ⟨later, tail, same⟩ := ok_of_bind made
          cases same
          exact .keep c (ih (c :: back) rest later (by simpa using short) tail)
        | some m =>
          obtain ⟨mem, after, whole, -⟩ := Substitution.exists_of_nameAt? here
          cases m with
          | nil => cases fine [] mem
          | cons d ds =>
            rw [List.cons_append] at whole
            obtain ⟨rfl, rfl⟩ := List.cons.inj whole
            rw [here] at made
            obtain ⟨value, filled, made⟩ := ok_of_bind made
            obtain ⟨later, tail, same⟩ := ok_of_bind made
            cases same
            rw [Substitution.replaceNames_skip] at tail
            obtain ⟨before, behind⟩ := Substitution.stops_of_nameAt? (m := c :: ds) here
            have rest := ih _ after later
              (by simp only [List.length_cons, List.length_append] at short; omega) tail
            exact .swap (m := c :: ds) ⟨mem, filled, before, behind⟩ (by simpa using rest)
  exact general t.length [] t out (Nat.le_refl _) h

section Parts

variable {names : List Text} {f : Text → Except Fault Text} (fine : ∀ n ∈ names, Term.isIdentifier n = true)
  (values : ∀ m m', f m = .ok m' → IsSymbol m' ∨ ∃ u, m' = Value.quotedSource u)

include fine in
theorem Splice.word {back m m' rest : Text} (h : Splice names f back m m' rest) :
    m ≠ [] ∧ ∀ c ∈ m, isWord c = true := by
  refine ⟨?_, Term.isWord_of_isIdentifier (fine m h.mem)⟩
  rintro rfl
  cases fine [] h.mem

theorem IsSymbol.after_code {m' : Text} (symbol : IsSymbol m') : Quoting.code.after m' = .code := by
  obtain ⟨c, m', rfl⟩ := List.exists_cons_of_ne_nil symbol.ne
  exact Quoting.after_of_isDull symbol.dull .code

theorem after_code_word {m : Text} (words : ∀ c ∈ m, isWord c = true) : Quoting.code.after m = .code := by
  cases m with
  | nil => rfl
  | cons c m => exact Quoting.after_of_isDull (fun d mem => isDull_of_isWord (words d mem)) .code

include fine values in
/-- A value that stands in code in the place of a name brings no word but spare ones. -/
theorem Splice.covers {back m m' rest : Text} {a b : Reader} (h : Splice names f back m m' rest)
    (code : a.quoting = .code) (idle : Reader.Idle back a) (covered : Covers Spare (m ++ rest) a b) :
    (a.read m').quoting = .code ∧ Covers Spare rest (a.read m') (b.read m) ∧
      Reader.Idle (m.reverse ++ back) (a.read m') := by
  obtain ⟨ne, words⟩ := h.word fine
  rcases values m m' h.value with symbol | ⟨u, rfl⟩
  · have swap := symbol.swappable ne words h.before h.behind
    refine ⟨?_, swap.covers idle covered, swap.idle⟩
    rw [Reader.quoting_read, code, symbol.after_code]
  · have whole : a = ⟨.code, [], a.words⟩ := by rw [← code, ← idle h.before]
    have read := Reader.read_quotedSource u [] a.words
    rw [← whole] at read
    rw [read]
    refine ⟨rfl, ⟨?_, fun w mem => ?_, .inr ⟨h.behind, spare_nil⟩⟩, fun _ => rfl⟩
    · rw [Reader.quoting_read, ← covered.quoting, code, after_code_word words]
    · simp only [List.mem_cons, List.mem_append, List.mem_replicate] at mem
      rcases mem with rfl | ⟨-, rfl⟩ | rfl | mem
      · exact .inr spare_nil
      · exact .inr spare_nil
      · exact .inr spare_nil
      · exact (covered.words w mem).imp_left fun mem => Reader.mem_words_read mem m

include fine values in
/-- Over code without quotes, a reader of the finished text stays in code, unless it meets a backslash, and
meets no word but those of the code and spare ones. -/
theorem covers_of_closed {u u' : Text} (h : Rewrites (Splice names f) [] u u') (single : .char '\'' ∉ u)
    (double : .char '"' ∉ u) {a b : Reader} (code : a.quoting = .code) (idle : a.word = [])
    (idle' : b.word = [])
    (covered : Covers Spare [] a b) :
    (a.read u').quoting = .broken ∨
      (a.read u').quoting = .code ∧ Covers Spare [] (a.read u') (b.read u) := by
  have start : Covers Spare u a b := ⟨covered.quoting, covered.words, .inl (idle.trans idle'.symm)⟩
  have whole := Rewrites.read
    (fun back rest a b => (.char '\'' ∉ rest ∧ .char '"' ∉ rest) ∧
      (a.quoting = .broken ∨ a.quoting = .code ∧ Covers Spare rest a b ∧ Reader.Idle back a))
    (fun back c rest a b ⟨plain, state⟩ => ?_) (fun back m m' rest a b swap ⟨plain, state⟩ => ?_)
    h a b ⟨⟨single, double⟩, .inr ⟨code, start, fun _ => idle⟩⟩
  · exact whole.2.imp_right fun state => ⟨state.1, state.2.1⟩
  · simp only [List.mem_cons, not_or] at plain
    refine ⟨⟨plain.1.2, plain.2.2⟩, ?_⟩
    rcases state with broken | ⟨code, covered, -⟩
    · exact .inl (by rw [Reader.quoting_next, broken]; rfl)
    · rw [Reader.quoting_next, code, Quoting.next, if_neg (Ne.symm plain.1.1), if_neg (Ne.symm plain.2.1)]
      by_cases slash : c = '\\'
      · exact .inl (if_pos slash)
      · exact .inr ⟨if_neg slash, covered.next, Reader.idle_next back c a⟩
  · simp only [List.mem_append, not_or] at plain
    refine ⟨⟨plain.1.2, plain.2.2⟩, ?_⟩
    rcases state with broken | ⟨code, covered, idle⟩
    · exact .inl (by rw [Reader.quoting_read, broken, Quoting.after_broken])
    · exact .inr (swap.covers fine values code idle covered)

/-- Whether no backslash stands before the start of a name. -/
def Unescaped (t : Text) : Prop := ∀ c, isNameStart c = true → ¬[.char '\\', c] <:+: t

/-- Where a reader of the finished text can be between two parts of code that has one apostrophe: in code
before it, and astray behind it. -/
structure Opening (back rest : Text) (q : Quoting) : Prop where
  single : rest.count (.char '\'') ≤ 1
  double : .char '"' ∉ rest
  plain : Unescaped (back.reverse ++ rest)
  before : .char '\'' ∈ rest → q = .code ∨ q = .broken
  behind : .char '\'' ∉ rest → q.Astray ∨ q = .escape ∧ back.head? = some (.char '\\')

theorem Opening.keep {back rest : Text} {c : CodePoint} {q : Quoting} (h : Opening back (c :: rest) q) :
    Opening (c :: back) rest (q.next c) := by
  have double := h.double
  rw [List.mem_cons, not_or] at double
  have plain : Unescaped ((c :: back).reverse ++ rest) := by
    simpa using h.plain
  by_cases mark : c = '\''
  · -- the apostrophe itself: there is no other one behind it
    subst mark
    have single := h.single
    rw [List.count_cons_self] at single
    have last : .char '\'' ∉ rest := List.count_eq_zero.mp (by omega)
    refine ⟨by omega, double.2, plain, fun mem => absurd mem last, fun _ => .inl ?_⟩
    rcases h.before List.mem_cons_self with rfl | rfl
    · exact .inl rfl
    · exact .inr (.inr rfl)
  · have single : rest.count (.char '\'') ≤ 1 := by simpa [List.count_cons, mark] using h.single
    refine ⟨single, double.2, plain, fun mem => ?_, fun apart => ?_⟩
    · rcases h.before (List.mem_cons_of_mem c mem) with rfl | rfl
      · by_cases slash : c = '\\'
        · exact .inr (by rw [slash]; rfl)
        · exact .inl (by simp [Quoting.next, mark, Ne.symm double.1, slash])
      · exact .inr rfl
    · have outside : .char '\'' ∉ c :: rest := by simp [Ne.symm mark, apart]
      rcases h.behind outside with (rfl | rfl | rfl) | ⟨rfl, -⟩
      · exact .inl (.inl (if_neg mark))
      · by_cases slash : c = '\\'
        · exact .inr ⟨by rw [slash]; rfl, by rw [slash]; rfl⟩
        · exact .inl (.inr (.inl (by simp [Quoting.next, Ne.symm double.1, slash])))
      · exact .inl (.inr (.inr rfl))
      · by_cases line : c = '\n'
        · exact .inl (.inr (.inr (if_pos line)))
        · exact .inl (.inr (.inl (if_neg line)))

include fine values in
theorem Opening.swap {back m m' rest : Text} {q : Quoting} (h : Opening back (m ++ rest) q)
    (splice : Splice names f back m m' rest) : Opening (m.reverse ++ back) rest (q.after m') := by
  obtain ⟨ne, words⟩ := splice.word fine
  have outside : .char '\'' ∉ m := fun mem => absurd (words _ mem) (by decide)
  have single := h.single
  rw [List.count_append, List.count_eq_zero_of_not_mem outside, Nat.zero_add] at single
  have double : .char '"' ∉ rest := fun mem => h.double (List.mem_append_right m mem)
  have plain : Unescaped ((m.reverse ++ back).reverse ++ rest) := by
    simpa using h.plain
  have value := values m m' splice.value
  refine ⟨single, double, plain, fun mem => ?_, fun apart => .inl ?_⟩
  · rcases h.before (List.mem_append_right m mem) with rfl | rfl
    · left
      rcases value with symbol | ⟨u, rfl⟩
      · exact symbol.after_code
      · have read := Reader.quoting_read ⟨.code, [], []⟩ (Value.quotedSource u)
        rw [Reader.read_quotedSource] at read
        exact read.symm
    · exact .inr (Quoting.after_broken m')
  · have behind : .char '\'' ∉ m ++ rest := by simp [outside, apart]
    rcases h.behind behind with astray | ⟨-, slash⟩
    · rcases value with symbol | ⟨u, rfl⟩
      · obtain ⟨c, m', rfl⟩ := List.exists_cons_of_ne_nil symbol.ne
        rw [Quoting.after_of_isDull symbol.dull]
        rcases astray with rfl | rfl | rfl
        · exact .inl rfl
        · exact .inr (.inl rfl)
        · exact .inr (.inr rfl)
      · exact Quoting.astray_quotedSource u astray
    · -- no name stands behind a backslash
      exfalso
      obtain ⟨c, m, rfl⟩ := List.exists_cons_of_ne_nil ne
      obtain ⟨back, rfl⟩ : ∃ more, back = .char '\\' :: more := by
        cases back with
        | nil => cases slash
        | cons d more =>
          cases slash
          exact ⟨more, rfl⟩
      have start : isNameStart c = true := by
        have identifier := fine _ splice.mem
        rw [Term.isIdentifier, Bool.and_eq_true] at identifier
        exact identifier.1
      exact h.plain c start ⟨back.reverse, m ++ rest, by simp⟩

include fine values in
/-- Behind an apostrophe that opens no string, a reader of the finished text is never in code again. -/
theorem not_code_of_open {u u' : Text} (h : Rewrites (Splice names f) [] u u')
    (single : u.count (.char '\'') = 1)
    (double : .char '"' ∉ u) (plain : Unescaped u) {r : Reader} (code : r.quoting = .code) :
    (r.read u').quoting ≠ .code := by
  have start : Opening [] u r.quoting := {
    single := single.le
    double
    plain
    before := fun _ => .inl code
    behind := fun outside => by
      rw [List.count_eq_zero_of_not_mem outside] at single
      cases single }
  have whole := Rewrites.read (fun back rest a b => Opening back rest a.quoting)
    (fun back c rest a b place => by rw [Reader.quoting_next]; exact place.keep)
    (fun back m m' rest a b splice place => by rw [Reader.quoting_read]; exact place.swap fine values splice)
    h r r start
  rcases whole.behind List.not_mem_nil with (place | place | place) | ⟨place, -⟩ <;> rw [place] <;> decide

include fine values in
/-- If a reader of the finished text ends in code, it has met no words but those of the expression and spare
ones. The expression has no double quotes, and its apostrophes pair up or no backslash stands before a
name. -/
theorem covers_of_spliced {e : Text} {parts : Alternation} (double : .char '"' ∉ e)
    (paired : e.count (.char '\'') % 2 = 0 ∨ Unescaped e)
    (made : (Alternation.ofText e).mapCodeM (Substitution.replaceNames names f 0 []) = .ok parts)
    (code : (({} : Reader).read parts.text).quoting = .code) :
    Covers Spare [] (({} : Reader).read parts.text) (({} : Reader).read e) := by
  have parted := Alternation.parted_of_mapCodeM (Alternation.parts_ofText e) made
  rw [Alternation.text_ofText] at parted
  -- the apostrophes before the last part pair up, so what is left over is left over in that part
  have general {t t' : Text} (h : Alternation.Parted
        (fun u u' => (.char '"' ∉ e → .char '\'' ∉ u) ∧ Substitution.replaceNames names f 0 [] u = .ok u')
        (fun u u' => (.char '"' ∉ e → u.count (.char '\'') ≤ 1) ∧
          Substitution.replaceNames names f 0 [] u = .ok u')
        t t') : ∀ a b : Reader, .char '"' ∉ t → t.count (.char '\'') % 2 = 0 ∨ Unescaped t →
      a.quoting = .code → a.word = [] → b.word = [] → Covers Spare [] a b →
      (a.read t').quoting = .code → Covers Spare [] (a.read t') (b.read t) := by
    induction h with
    | @code u u' here =>
      intro a b double' paired start idle idle' covered finish
      have rewrites := rewrites_of_replaceNames fine here.2
      by_cases single : .char '\'' ∈ u
      · have one : u.count (.char '\'') = 1 := by
          have := here.1 double
          have := List.count_pos_iff.mpr single
          omega
        have plain : Unescaped u := paired.resolve_left (by rw [one]; decide)
        exact absurd finish (not_code_of_open fine values rewrites one double' plain start)
      · rcases covers_of_closed fine values rewrites single double' start idle idle'
          covered with broken | ⟨-, covered⟩
        · rw [broken] at finish
          cases finish
        · exact covered
    | @literal u u' l t t' here quoted later ih =>
      intro a b double' paired start idle idle' covered finish
      simp only [List.mem_append, not_or] at double'
      simp only [Reader.read_append] at finish ⊢
      have rewrites := rewrites_of_replaceNames fine here.2
      rcases covers_of_closed fine values rewrites (here.1 double) double'.1 start idle idle' covered with
        broken | ⟨inside, covered'⟩
      · rw [Reader.quoting_read, Reader.quoting_read, broken, Quoting.after_broken,
          Quoting.after_broken] at finish
        cases finish
      · have ended (r : Reader) : (r.read l).word = [] :=
          Reader.idle_read quoted.ne_nil [] r (by rw [List.append_nil]; exact quoted.stops.2)
        have before : Covers Spare (l ++ []) (a.read u') (b.read u) :=
          covered'.of_stops (quoted.stops.1.append quoted.ne_nil)
        have closes : ((a.read u').read l).quoting = .code := by
          rw [Reader.quoting_read, inside, quoted.after_code]
        have paired' : t.count (.char '\'') % 2 = 0 ∨ Unescaped t := by
          rcases paired with even | plain
          · left
            rw [List.count_append, List.count_append, List.count_eq_zero_of_not_mem (here.1 double),
              quoted.count double'.2.1] at even
            omega
          · exact .inr fun c start part => plain c start (part.trans ⟨u ++ l, [], by simp⟩)
        exact ih _ _ double'.2.2 paired' closes (ended _) (ended _) before.read finish
  exact general parted {} {} double paired rfl rfl rfl (.refl _) code

end Parts

end SclNarrator
