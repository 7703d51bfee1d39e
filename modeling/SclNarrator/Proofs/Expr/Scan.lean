import SclNarrator.Proofs.Expr.Operand
import SclNarrator.Proofs.Text.Keyword

/-!
Symbols and operands as tokens. A text of them with spaces between is scanned into the tokens that they
are alone (`scan_items`): a kind of token that takes as much as it can is stopped by the space.
-/

namespace SclNarrator

namespace Lexeme

variable {c : CodePoint} {t u rest : Text}

/-! ## Kinds that do not fit -/

/-- What is in front of a text without a space lies in the word that the text starts with. -/
theorem mem_of_append_eq {w m body : Text} (same : w ++ rest = m ++ body) (ends : Ends rest)
    (solid : ∀ d ∈ m, d ≠ ' ') : ∀ d ∈ m, d ∈ w := by
  rcases List.append_eq_append_iff.mp same with ⟨more, rfl, behind⟩ | ⟨more, rfl, -⟩
  · -- The front goes on behind the word only if nothing is left of it.
    cases more with
    | nil => exact fun d mem => by simpa using mem
    | cons d more =>
      have space : d = ' ' := by
        have := ends d (by simp [behind])
        simpa using this
      exact absurd space (solid d (by simp))
  · exact fun d mem => List.mem_append_left _ mem

/-- The word of a duration stands before a `#`, in any letter case. -/
theorem exists_of_durationMark? {body : Text} (h : durationMark? t = some body) :
    ∃ m, t = m ++ .char '#' :: body ∧
      m.map looseLetter ∈ ["ltime".toText, "time".toText, "lt".toText, "t".toText] := by
  obtain ⟨word, mem, found⟩ := List.exists_of_findSome?_eq_some h
  split at found
  · next after dropped =>
    cases found
    obtain ⟨front, rfl, loose⟩ := dropLoose?_eq_some dropped
    refine ⟨front, rfl, ?_⟩
    rw [loose]
    exact List.mem_map_of_mem mem
  · cases found

theorem isWord_of_durationWord {m : Text}
    (mem : m.map looseLetter ∈ ["ltime".toText, "time".toText, "lt".toText, "t".toText]) :
    ∀ d ∈ m, isWord d = true := by
  have letters : ∀ w ∈ ["ltime".toText, "time".toText, "lt".toText, "t".toText], ∀ d ∈ w,
      isWord d = true := by
    decide
  intro d among
  rw [← isWord_looseLetter]
  exact letters _ mem _ (List.mem_map_of_mem among)

theorem eq_of_durationMark? {body : Text} (h : durationMark? t = some body) :
    ∃ m, t = m ++ .char '#' :: body ∧ ∀ d ∈ m, isWord d = true := by
  obtain ⟨m, rfl, mem⟩ := exists_of_durationMark? h
  exact ⟨m, rfl, isWord_of_durationWord mem⟩

/-- There is no duration where the word has no `#` in it. -/
theorem duration?_eq_none {w : Text} (ends : Ends rest) (h : .char '#' ∉ w) :
    duration? (w ++ rest) = none := by
  cases mark : durationMark? (w ++ rest) with
  | none => simp only [duration?, mark]
  | some body =>
    obtain ⟨m, same, words⟩ := eq_of_durationMark? mark
    have whole : w ++ rest = (m ++ [.char '#']) ++ body := by simp [same]
    refine absurd (mem_of_append_eq whole ends ?_ (.char '#') ?_) h
    · intro d mem
      rcases List.mem_append.mp mem with word | last
      · rintro rfl
        exact absurd (words _ word) (by decide)
      · rw [List.mem_singleton.mp last]
        decide
    · simp

theorem based?_eq_none {w : Text} (ends : Ends rest) (h : .char '#' ∉ w) : based? (w ++ rest) = none := by
  rw [based?, List.findSome?_eq_none_iff]
  intro mark mem
  have marks : ∀ m ∈ ["2#", "8#", "16#"], .char '#' ∈ m.toText ∧ ∀ d ∈ m.toText, d ≠ .char ' ' := by
    decide
  cases found : Text.dropPart? mark.toText (w ++ rest) with
  | none => rfl
  | some body =>
    have inside := mem_of_append_eq (dropPart?_eq_some.mp found) ends (marks mark mem).2
    exact absurd (inside _ (marks mark mem).1) h

theorem number?_eq_none (h : isDecimal c = false) (point : c ≠ '.') : number? (c :: t) = none := by
  have whole : (c :: t).takeWhile isDecimal = [] := takeWhile_of_stops (stops_cons.mpr h)
  have left : (c :: t).dropWhile isDecimal = c :: t := dropWhile_of_stops (stops_cons.mpr h)
  rw [number?, Option.map_eq_none_iff, Decimal.parts?, whole, left]
  split
  next fraction after behind =>
  split at behind
  · next same => exact absurd (List.cons.inj same).1 point
  · cases behind
    rfl

theorem blanks?_eq_none (h : Stops isBlank t) : blanks? t = none := by
  rw [blanks?, run, takeWhile_of_stops h]

theorem string?_eq_none (h : Term.isQuotable c = true) : string? (c :: t) = none := by
  rw [Term.isQuotable, Bool.and_eq_true, bne_iff_ne, bne_iff_ne] at h
  unfold string?
  split
  · next same => exact absurd (List.cons.inj same).1 h.2
  · next same => exact absurd (List.cons.inj same).1 h.1
  · rfl

theorem name?_eq_none (start : isNameStart c = false) (hash : c ≠ '#') : name? (c :: t) = none := by
  simp [name?, hash, start]

theorem duration?_of_not_isWord (h : isWord c = false) (hash : c ≠ '#') : duration? (c :: t) = none := by
  cases mark : durationMark? (c :: t) with
  | none => simp only [duration?, mark]
  | some body =>
    obtain ⟨m, same, words⟩ := eq_of_durationMark? mark
    cases m with
    | nil => exact absurd (List.cons.inj same).1 hash
    | cons d m =>
      rw [(List.cons.inj same).1, words d List.mem_cons_self] at h
      cases h

theorem based?_of_not_isWord (h : isWord c = false) : based? (c :: t) = none := by
  rw [based?, List.findSome?_eq_none_iff]
  intro mark mem
  have marks : ∀ m ∈ ["2#", "8#", "16#"], m.toText ≠ [] ∧ ∀ d ∈ m.toText.head?, isWord d = true := by
    decide
  cases found : Text.dropPart? mark.toText (c :: t) with
  | none => rfl
  | some body =>
    obtain ⟨ne, word⟩ := marks mark mem
    have same := dropPart?_eq_some.mp found
    obtain ⟨d, letters, parts⟩ := List.exists_cons_of_ne_nil ne
    rw [parts] at same word
    rw [(List.cons.inj same).1, word d rfl] at h
    cases h

/-! ## Kinds that fit -/

theorem next?_space (stop : Stops isBlank rest) :
    next? (.char ' ' :: rest) = some (none, [.char ' '], rest) := by
  have blank : isBlank (.char ' ') = true := by decide
  have found : blanks? (.char ' ' :: rest) = some ([.char ' '], rest) := by
    simp [blanks?, run, blank, takeWhile_of_stops stop, dropWhile_of_stops stop]
  rw [next?, found]
  rfl

/-- Whether a character starts no kind of token but operators and texts. -/
def isSign (c : CodePoint) : Bool :=
  !isBlank c && !isWord c && !isDecimal c && !isNameStart c && c != '.' && c != '#'

theorem next?_of_isSign (sign : isSign c = true) :
    next? (c :: t) = ((string? (c :: t)).map (some .string, ·) <|>
      (operator? (c :: t)).map (some .op, ·) <|> (hash? (c :: t)).map (none, ·)) := by
  simp only [isSign, Bool.and_eq_true, Bool.not_eq_true', bne_iff_ne, ne_eq] at sign
  obtain ⟨⟨⟨⟨⟨blank, word⟩, decimal⟩, start⟩, point⟩, hash⟩ := sign
  rw [next?, blanks?_eq_none (stops_cons.mpr blank), duration?_of_not_isWord word hash,
    based?_of_not_isWord word, number?_eq_none decimal point, name?_eq_none start hash]
  rfl

theorem next?_operator (sign : isSign c = true) (code : Term.isQuotable c = true)
    (h : operator? (c :: t) = some (u, rest)) : next? (c :: t) = some (some .op, u, rest) := by
  rw [next?_of_isSign sign, string?_eq_none code, h]
  rfl

theorem exists_quote {q : Text} (string : Item.IsString q) :
    ∃ c more, q = c :: more ∧ (c = '\'' ∨ c = '"') := by
  have read := string.read []
  obtain ⟨c, q, rfl⟩ := List.exists_cons_of_ne_nil string.ne
  refine ⟨c, q, rfl, ?_⟩
  have quote : Term.isQuotable c = false := by
    rw [Bool.eq_false_iff]
    intro code
    rw [List.cons_append, string?_eq_none code] at read
    cases read
  rwa [Term.isQuotable, Bool.and_eq_false_iff, bne_eq_false_iff_eq, bne_eq_false_iff_eq] at quote

theorem next?_string {q : Text} (string : Item.IsString q) (rest : Text) :
    next? (q ++ rest) = some (some .string, q, rest) := by
  have read := string.read rest
  obtain ⟨c, q, rfl, quote⟩ := exists_quote string
  have sign : isSign c = true := by
    rcases quote with rfl | rfl <;> decide
  rw [List.cons_append] at read ⊢
  rw [next?_of_isSign sign, read]
  rfl

theorem next?_number (n : NumberText) (ends : Ends rest) :
    next? (n.text ++ rest) = some (some .number, n.text, rest) := by
  have hash : .char '#' ∉ n.text := fun mem => absurd (n.chars _ mem) (by decide)
  have blank : Stops isBlank (n.text ++ rest) := by
    obtain ⟨c, more, same, digit⟩ := n.first
    rw [same]
    have := forall_digit (P := fun c => !isBlank c) (by decide) digit
    exact stops_cons.mpr (by simpa using this)
  rw [next?, blanks?_eq_none blank, duration?_eq_none ends hash, based?_eq_none ends hash,
    n.read rest ends]
  rfl

theorem afterMembers_of_ends (fuel : Nat) (ends : Ends rest) : afterMembers fuel rest = rest := by
  cases fuel with
  | zero => rfl
  | succ fuel =>
    unfold afterMembers
    split
    · exact absurd (ends _ rfl) (by decide)
    · rfl

/-- Behind an identifier there is a point, a space or nothing. -/
theorem stops_members (members : List Text) (ends : Ends rest) :
    Stops isWord (members.flatMap (.char '.' :: ·) ++ rest) := by
  cases members with
  | nil => exact ends.stops (by decide)
  | cons m members => exact stops_cons.mpr (by decide)

theorem afterMembers_members {members : List Text} (identifiers : ∀ m ∈ members, Term.isIdentifier m = true)
    (ends : Ends rest) {fuel : Nat} (enough : members.length ≤ fuel) :
    afterMembers fuel (members.flatMap (.char '.' :: ·) ++ rest) = rest := by
  induction members generalizing fuel with
  | nil => exact afterMembers_of_ends fuel ends
  | cons m members ih =>
    rw [List.forall_mem_cons] at identifiers
    obtain ⟨identifier, later⟩ := identifiers
    obtain ⟨fuel, rfl⟩ := Nat.exists_eq_add_of_le' (Nat.le_trans (Nat.le_add_left 1 _) enough)
    have words := Term.isWord_of_isIdentifier identifier
    cases m with
    | nil => cases identifier
    | cons c m =>
      rw [Term.isIdentifier, Bool.and_eq_true] at identifier
      have left := dropWhile_append_of_stops (List.forall_mem_cons.mp words).2 (stops_members members ends)
      simp only [List.flatMap_cons, List.cons_append, List.append_assoc, afterMembers, identifier.1,
        if_true, left]
      exact ih later (by simpa using enough)

theorem next?_members {w : Text} {members : List Text} (identifier : Term.isIdentifier w = true)
    (identifiers : ∀ m ∈ members, Term.isIdentifier m = true) (ends : Ends rest) :
    next? (w ++ members.flatMap (.char '.' :: ·) ++ rest) =
      some (some .name, w ++ members.flatMap (.char '.' :: ·), rest) := by
  have words := Term.isWord_of_isIdentifier identifier
  have stop := stops_members members ends
  have count : members.length ≤ (members.flatMap (.char '.' :: ·) ++ rest).length := by
    simp
    omega
  have behind := afterMembers_members identifiers ends count
  have hash : .char '#' ∉ w ++ members.flatMap (.char '.' :: ·) := by
    have clean {u : Text} (h : Term.isIdentifier u = true) : .char '#' ∉ u :=
      fun mem => absurd (Term.isWord_of_isIdentifier h _ mem) (by decide)
    simp only [List.mem_append, List.mem_flatMap, List.mem_cons, not_or, not_exists, not_and]
    exact ⟨clean identifier, fun m mem => ⟨by decide, clean (identifiers m mem)⟩⟩
  generalize members.flatMap (.char '.' :: ·) = tail at stop behind hash ⊢
  have noDuration := duration?_eq_none ends hash
  have noBase := based?_eq_none ends hash
  have taken := taken_left (w ++ tail) rest
  rw [List.append_assoc] at noDuration noBase taken ⊢
  cases w with
  | nil => cases identifier
  | cons c w =>
    rw [Term.isIdentifier, Bool.and_eq_true] at identifier
    rw [List.forall_mem_cons] at words
    rw [List.cons_append] at noDuration noBase taken ⊢
    have start := forall_nameStart (P := fun c => !isDecimal c && c != '.' && c != '#')
      (by decide) identifier.1
    simp only [Bool.and_eq_true, Bool.not_eq_true', bne_iff_ne, ne_eq] at start
    obtain ⟨⟨decimal, point⟩, other⟩ := start
    have read : name? (c :: (w ++ (tail ++ rest))) = some (c :: w ++ tail, rest) := by
      simp only [name?, List.head?_cons, Option.bind_eq_bind, Option.bind_some, Option.pure_def,
        Option.some.injEq, other, if_false, identifier.1, if_true, dropWhile_append_of_stops words.2 stop,
        behind, taken]
    rw [next?, blanks?_eq_none (stops_cons.mpr (isBlank_of_isWord words.1)), noDuration, noBase,
      number?_eq_none decimal point, string?_eq_none (Term.isQuotable_of_isWord words.1), read]
    rfl

theorem next?_name {w : Text} (identifier : Term.isIdentifier w = true) (ends : Ends rest) :
    next? (w ++ rest) = some (some .name, w, rest) := by
  have memberless : ∀ m ∈ ([] : List Text), Term.isIdentifier m = true := by simp
  have whole := next?_members identifier memberless ends
  rwa [List.flatMap_nil, List.append_nil] at whole

/-! ## Operators -/

theorem eq_nil_or_cons_of_ends (ends : Ends rest) : rest = [] ∨ ∃ more, rest = .char ' ' :: more := by
  cases rest with
  | nil => exact .inl rfl
  | cons c more =>
    have : c = .char ' ' := by simpa using stops_cons.mp ends
    exact .inr ⟨more, by rw [this]⟩

theorem next?_minus (t : Text) : next? (.char '-' :: t) = some (some .op, [.char '-'], t) :=
  next?_operator (by decide) (by decide) rfl

theorem next?_bang (h : t.head? ≠ some (.char '=')) :
    next? (.char '!' :: t) = some (some .op, [.char '!'], t) := by
  refine next?_operator (by decide) (by decide) ?_
  cases t with
  | nil => rfl
  | cons c t =>
    have other : ¬CodePoint.char '=' = c := fun same => h (by rw [← same]; rfl)
    simp [operator?, operators, String.toText, Text.ofChars, Text.dropPart?, other]

theorem operator?_symbol (m : Mark) (ends : Ends rest) :
    operator? (m.symbol ++ rest) = some (m.symbol, rest) := by
  rcases eq_nil_or_cons_of_ends ends with rfl | ⟨more, rfl⟩
  · rcases m with _ | _ | _ | o
    · rfl
    · rfl
    · rfl
    · cases o <;> rfl
  · rcases m with _ | _ | _ | o
    · rfl
    · rfl
    · rfl
    · cases o <;> rfl

theorem next?_mark (m : Mark) (ends : Ends rest) :
    next? (m.symbol ++ rest) = some (some .op, m.symbol, rest) := by
  have first : m.symbol ≠ [] ∧ ∀ c ∈ m.symbol.head?, isSign c = true ∧ Term.isQuotable c = true := by
    rcases m with _ | _ | _ | o
    · decide
    · decide
    · decide
    · cases o <;> decide
  have read := operator?_symbol m ends
  obtain ⟨c, more, same⟩ := List.exists_cons_of_ne_nil first.1
  rw [same] at first read ⊢
  obtain ⟨sign, code⟩ := first.2 c rfl
  exact next?_operator sign code read

end Lexeme
namespace Token

def shape (t : Token) : TokenKind × Text := (t.kind, t.text)

theorem scanFrom_skip (position : Nat) (a b : Text) :
    scanFrom position a.length (a ++ b) = scanFrom (position + a.length) 0 b := by
  induction a generalizing position with
  | nil => rfl
  | cons c a ih =>
    rw [List.cons_append, List.length_cons, scanFrom, ih]
    congr 1
    omega

/-- Whether a text in front of another is scanned into tokens of some shapes. -/
def Scans (u : Text) (shapes : List (TokenKind × Text)) (rest : Text) : Prop :=
  ∀ position tokens, scanFrom (position + u.length) 0 rest = .ok tokens →
    ∃ front, scanFrom position 0 (u ++ rest) = .ok (front ++ tokens) ∧ front.map shape = shapes

theorem Scans.append {u v rest : Text} {xs ys : List (TokenKind × Text)} (first : Scans u xs (v ++ rest))
    (second : Scans v ys rest) : Scans (u ++ v) (xs ++ ys) rest := by
  intro position tokens later
  rw [List.length_append, ← Nat.add_assoc] at later
  obtain ⟨middle, scanned, middleShapes⟩ := second _ _ later
  obtain ⟨front, whole, frontShapes⟩ := first _ _ scanned
  refine ⟨front ++ middle, ?_, ?_⟩
  · rw [List.append_assoc, whole, List.append_assoc]
  · rw [List.map_append, frontShapes, middleShapes]

theorem scans_of_next? {u rest : Text} {kind? : Option TokenKind} (ne : u ≠ [])
    (h : Lexeme.next? (u ++ rest) = some (kind?, u, rest)) :
    Scans u (kind?.map fun kind => (kind, u)).toList rest := by
  intro position tokens later
  obtain ⟨c, u, rfl⟩ := List.exists_cons_of_ne_nil ne
  rw [List.cons_append] at h ⊢
  have skipped : scanFrom (position + 1) u.length (u ++ rest) = .ok tokens := by
    rw [scanFrom_skip, ← later]
    congr 1
    rw [List.length_cons]
    omega
  rw [scanFrom, h]
  simp only [List.length_cons, Nat.add_sub_cancel, skipped]
  cases kind? with
  | none => exact ⟨[], rfl, rfl⟩
  | some kind => exact ⟨[⟨kind, c :: u, position⟩], rfl, rfl⟩

end Token
/-! ## Operands and items -/

theorem Token.scans_identifier {w rest : Text} (h : Term.isIdentifier w = true) (ends : Ends rest) :
    Token.Scans w [(.name, w)] rest := by
  have ne : w ≠ [] := by
    rintro rfl
    cases h
  exact Token.scans_of_next? ne (Lexeme.next?_name h ends)

theorem first_of_isIdentifier {w : Text} (h : Term.isIdentifier w = true) :
    ∃ c more, w = c :: more ∧ isBlank c = false ∧ c ≠ '=' := by
  have words := Term.isWord_of_isIdentifier h
  cases w with
  | nil => cases h
  | cons c more =>
    have letter := words c List.mem_cons_self
    refine ⟨c, more, rfl, isBlank_of_isWord letter, ?_⟩
    rintro rfl
    exact absurd letter (by decide)

theorem isIdentifier_constant (c : Constant) : Term.isIdentifier c.text = true := by
  cases c <;> decide

theorem Core.scans (core : Core) {rest : Text} (ends : Ends rest) :
    Token.Scans core.symbol [core.shape] rest := by
  cases core with
  | number n =>
    have ne : n.text ≠ [] := by
      obtain ⟨c, more, same, -⟩ := n.first
      simp [same]
    exact Token.scans_of_next? ne (Lexeme.next?_number n ends)
  | truth b => exact Token.scans_identifier (isIdentifier_constant (.ofBool b)) ends
  | constant c => exact Token.scans_identifier (isIdentifier_constant c) ends

theorem Core.first_symbol (core : Core) :
    ∃ c more, core.symbol = c :: more ∧ isBlank c = false ∧ c ≠ '=' := by
  cases core with
  | number n =>
    obtain ⟨c, more, same, digit⟩ := n.first
    have := forall_digit (P := fun c => !isBlank c && c != '=') (by decide) digit
    refine ⟨c, more, same, ?_⟩
    simpa using this
  | truth b => exact first_of_isIdentifier (isIdentifier_constant (.ofBool b))
  | constant c => exact first_of_isIdentifier (isIdentifier_constant c)

theorem Slot.scans {o : Slot Operand} (valid : o.IsValid) {rest : Text} (ends : Ends rest) :
    Token.Scans (o.text Operand.symbol) o.shapes rest := by
  rcases o with q | ⟨_ | _, core⟩ | n
  · exact Token.scans_of_next? valid.ne (Lexeme.next?_string valid rest)
  · exact core.scans ends
  · have minus := Token.scans_of_next? (u := [.char '-']) (by simp)
      (Lexeme.next?_minus (core.symbol ++ rest))
    exact minus.append (core.scans ends)
  · exact Token.scans_identifier n.isIdentifier ends

/-- What stands for a leaf starts with no blank and no equals sign. -/
theorem Slot.first_symbol {o : Slot Operand} (valid : o.IsValid) :
    ∃ c more, o.text Operand.symbol = c :: more ∧ isBlank c = false ∧ c ≠ '=' := by
  rcases o with q | ⟨_ | _, core⟩ | n
  · obtain ⟨c, more, same, quote⟩ := Lexeme.exists_quote valid
    refine ⟨c, more, same, ?_⟩
    rcases quote with rfl | rfl <;> decide
  · exact core.first_symbol
  · exact ⟨_, _, rfl, by decide⟩
  · exact first_of_isIdentifier n.isIdentifier

namespace Item

/-- How an item is written once names and words are replaced. -/
def symbol : Item (Slot Operand) → Text
  | space => " ".toText
  | not => "!".toText
  | mark m => m.symbol
  | leaf o => o.text Operand.symbol

def shapes : Item (Slot Operand) → List (TokenKind × Text)
  | space => []
  | not => [(.op, "!".toText)]
  | mark m => [(.op, m.symbol)]
  | leaf o => o.shapes

def IsValid : Item (Slot Operand) → Prop
  | leaf o => o.IsValid
  | _ => True

theorem stops_symbol {b : Item (Slot Operand)} (valid : b.IsValid) (ne : b ≠ space) (rest : Text) :
    Stops isBlank (b.symbol ++ rest) := by
  rcases b with _ | _ | (_ | _ | _ | o) | o
  · exact absurd rfl ne
  · exact stops_cons.mpr (by decide)
  · exact stops_cons.mpr (by decide)
  · exact stops_cons.mpr (by decide)
  · exact stops_cons.mpr (by decide)
  · cases o <;> exact stops_cons.mpr (by decide)
  · obtain ⟨c, more, same, blank, -⟩ := o.first_symbol valid
    rw [symbol, same]
    exact stops_cons.mpr blank

theorem head?_symbol {b : Item (Slot Operand)} (valid : b.IsValid) (start : b.isStart = true)
    (rest : Text) : (b.symbol ++ rest).head? ≠ some (.char '=') := by
  rcases b with _ | _ | (_ | _ | _ | o) | o
  · cases start
  · cases start
  · simp [symbol, Mark.symbol, String.toText, Text.ofChars]
  · cases start
  · cases start
  · cases start
  · obtain ⟨c, more, same, -, equals⟩ := o.first_symbol valid
    simpa [symbol, same] using equals

theorem ends_of_chain {b : Item (Slot Operand)} {rest : List (Item (Slot Operand))}
    (chain : (b :: rest).IsChain fun a b => a.meets b = true) (ne : b ≠ space) (ne' : b ≠ not) :
    Ends (rest.flatMap symbol) := by
  cases rest with
  | nil => exact stops_nil
  | cons next more =>
    obtain rfl := eq_space_of_meets (List.isChain_cons_cons.mp chain).1 ne ne'
    exact stops_cons.mpr rfl

theorem scans_symbol {b : Item (Slot Operand)} {rest : List (Item (Slot Operand))}
    (valid : ∀ c ∈ b :: rest, c.IsValid) (chain : (b :: rest).IsChain fun a b => a.meets b = true) :
    Token.Scans b.symbol b.shapes (rest.flatMap symbol) := by
  cases b with
  | space =>
    have stop : Stops isBlank (rest.flatMap symbol) := by
      cases rest with
      | nil => exact stops_nil
      | cons next more =>
        refine stops_symbol (valid next (by simp)) ?_ _
        rintro rfl
        cases (List.isChain_cons_cons.mp chain).1
    exact Token.scans_of_next? (List.cons_ne_nil _ _) (Lexeme.next?_space stop)
  | not =>
    have apart : (rest.flatMap symbol).head? ≠ some (.char '=') := by
      cases rest with
      | nil => simp
      | cons next more => exact head?_symbol (valid next (by simp)) (List.isChain_cons_cons.mp chain).1 _
    exact Token.scans_of_next? (List.cons_ne_nil _ _) (Lexeme.next?_bang apart)
  | mark m =>
    have ne : m.symbol ≠ [] := by
      rcases m with _ | _ | _ | o
      · decide
      · decide
      · decide
      · cases o <;> decide
    exact Token.scans_of_next? ne (Lexeme.next?_mark m (ends_of_chain chain (by simp) (by simp)))
  | leaf o => exact o.scans (valid _ List.mem_cons_self) (ends_of_chain chain (by simp) (by simp))

/-- A text of items is scanned into the tokens of the items. -/
theorem scan_items {items : List (Item (Slot Operand))} (valid : ∀ b ∈ items, b.IsValid)
    (chain : items.IsChain fun a b => a.meets b = true) :
    ∃ tokens, Token.scan (items.flatMap symbol) = .ok tokens ∧
      tokens.map Token.shape = items.flatMap shapes := by
  have general : ∀ position, ∃ tokens, Token.scanFrom position 0 (items.flatMap symbol) = .ok tokens ∧
      tokens.map Token.shape = items.flatMap shapes := by
    induction items with
    | nil => exact fun position => ⟨[], rfl, rfl⟩
    | cons b rest ih =>
      intro position
      obtain ⟨tokens, scanned, same⟩ :=
        ih (fun b mem => valid b (List.mem_cons_of_mem _ mem)) chain.tail (position + b.symbol.length)
      obtain ⟨front, whole, frontShapes⟩ := scans_symbol valid chain position tokens scanned
      refine ⟨front ++ tokens, whole, ?_⟩
      rw [List.map_append, frontShapes, same, List.flatMap_cons]
  exact general 0

end Item
end SclNarrator
