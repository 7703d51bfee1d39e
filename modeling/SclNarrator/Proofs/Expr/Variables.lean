import SclNarrator.Proofs.Expr.Acceptance
import SclNarrator.Proofs.Expr.Reader
import SclNarrator.Proofs.Expr.Rules

/-!
The variables of an expression are words of its text. Every stretch that the scanner takes is in
front of what it leaves, and a reader that stands in code before it stands in code behind it
(`next?_eq_some`). In what the grammar derives a name follows nothing but operators and marks
(`apart_of_derives`), so a reader is in no word where a name starts: it meets every variable as a
whole word (`mem_spoken_of_parse`).
-/

namespace SclNarrator

open Quoting (isDull isDull_of_class isDull_of_isWord)

namespace Lexeme

variable {t x rest : Text}

/-! ## Stretches of the scanner -/

/-- Whether a text is a string: apostrophes around a text that has none, or double quotes around a text in
which a reader meets no other one that closes. -/
def IsQuotation (x : Text) : Prop :=
  ∃ q u, x = q :: u ++ [q] ∧ ((q = .char '\'' ∧ .char '\'' ∉ u) ∨
    (q = .char '"' ∧ Quoting.quotes.after u = .quotes))

/-- What a reader can rely on in a stretch of a kind that the scanner takes before a text: no stretch but
a string has a quote or a backslash, blanks and operators have no word characters, and a name without
members is one word. -/
def Lexed (kind? : Option TokenKind) (x rest : Text) : Prop :=
  match kind? with
  | none | some .op => ∀ c ∈ x, isDull c = true ∧ isWord c = false
  | some .time | some .based | some .number => ∀ c ∈ x, isDull c = true
  | some .string => IsQuotation x
  | some .name => (∀ c ∈ x, isDull c = true) ∧ (.char '.' ∉ x →
      ∃ c w, (x = c :: w ∨ x = .char '#' :: c :: w) ∧ isNameStart c = true ∧
        (∀ d ∈ c :: w, isWord d = true) ∧ Stops isWord rest)

theorem blanks?_eq_some (h : blanks? t = some (x, rest)) :
    t = x ++ rest ∧ x ≠ [] ∧ Lexed none x rest := by
  obtain ⟨whole, ne, blank⟩ := greedy_blanks.sound h
  refine ⟨whole, ne, fun c mem => ?_⟩
  exact ⟨isDull_of_class (by decide) (blank c mem), isWord_of_isBlank (blank c mem)⟩

/-- A duration is a word, `#`, a minus if there is one, a digit, and a body. -/
theorem exists_of_duration? (h : duration? t = some (x, rest)) :
    ∃ m sign c body, x = m ++ .char '#' :: (sign ++ c :: body) ∧ t = x ++ rest ∧ (∀ d ∈ m, isWord d = true) ∧
      (∀ d ∈ sign, d = .char '-') ∧ c.isDigit = true ∧ ∀ d ∈ body, isDurationChar d = true := by
  obtain ⟨whole, m, sign, c, body, rfl, mem, signs, digit, chars⟩ := greedy_duration.sound h
  have minus : ∀ d ∈ sign, d = .char '-' := by
    rcases signs with rfl | rfl
    · simp
    · exact fun d => List.mem_singleton.mp
  exact ⟨m, sign, c, body, rfl, whole, isWord_of_durationWord mem, minus, digit, chars⟩

theorem duration?_eq_some (h : duration? t = some (x, rest)) :
    t = x ++ rest ∧ x ≠ [] ∧ Lexed (some .time) x rest := by
  obtain ⟨m, sign, c, body, rfl, whole, words, minus, digit, chars⟩ := exists_of_duration? h
  refine ⟨whole, by simp, fun d mem => ?_⟩
  simp only [List.mem_append, List.mem_cons] at mem
  rcases mem with mem | rfl | mem | rfl | mem
  · exact isDull_of_isWord (words d mem)
  · rfl
  · rw [minus d mem]
    rfl
  · exact isDull_of_class (by decide) digit
  · exact isDull_of_class (by decide) (chars d mem)

/-- A numeral with a base is the base in digits, `#`, and digits of the base. -/
theorem exists_of_based? (h : based? t = some (x, rest)) :
    ∃ base digits, x = base ++ .char '#' :: digits ∧ t = x ++ rest ∧ base ≠ [] ∧
      (∀ d ∈ base, d.isDigit = true) ∧
      ∀ d ∈ digits, (isHex d || d == '_') = true := by
  obtain ⟨whole, mark, digits, rfl, mem, -, chars⟩ := greedy_based.sound h
  have marks : ∀ m ∈ ["2#".toText, "8#".toText, "16#".toText], ∃ base ∈ ["2".toText, "8".toText, "16".toText],
      m = base ++ [.char '#'] ∧ base ≠ [] ∧ ∀ d ∈ base, d.isDigit = true := by decide
  obtain ⟨base, -, rfl, ne, numeral⟩ := marks mark mem
  exact ⟨base, digits, List.append_assoc .., whole, ne, numeral, chars⟩

theorem based?_eq_some (h : based? t = some (x, rest)) :
    t = x ++ rest ∧ x ≠ [] ∧ Lexed (some .based) x rest := by
  obtain ⟨base, digits, rfl, whole, -, numeral, chars⟩ := exists_of_based? h
  refine ⟨whole, by simp, fun d mem => ?_⟩
  rcases List.mem_append.mp mem with mem | mem
  · exact isDull_of_class (by decide) (numeral d mem)
  · rcases List.mem_cons.mp mem with rfl | mem
    · rfl
    · exact isDull_of_class (p := fun c => isHex c || c == '_') (by decide) (chars d mem)

theorem IsMantissa.dull (h : IsMantissa x) : ∀ c ∈ x, isDull c = true := by
  have decimal {c : CodePoint} (h : isDecimal c = true) : isDull c = true := isDull_of_class (by decide) h
  cases h with
  | whole _ all => exact fun c mem => decimal (all c mem)
  | pointed _ left right =>
    intro c mem
    rcases List.mem_append.mp mem with mem | mem
    · exact decimal (left c mem)
    · rcases List.mem_cons.mp mem with rfl | mem
      · rfl
      · exact decimal (right c mem)

theorem IsExponent.dull (h : IsExponent x) : ∀ c ∈ x, isDull c = true := by
  obtain ⟨mark, sign, digits, rfl, letter, signs, -, all⟩ := h
  intro c mem
  simp only [List.mem_cons, List.mem_append] at mem
  rcases mem with rfl | mem | mem
  · rcases letter with rfl | rfl <;> rfl
  · have dull : ∀ d ∈ sign, isDull d = true := by
      rcases signs with rfl | rfl | rfl <;> decide
    exact dull c mem
  · exact isDull_of_class (by decide) (all c mem)

theorem number?_eq_some (h : number? t = some (x, rest)) :
    t = x ++ rest ∧ x ≠ [] ∧ Lexed (some .number) x rest := by
  obtain ⟨whole, admits⟩ := greedy_number.sound h
  refine ⟨whole, Rule.ne_nil_of_admits admits, fun c mem => ?_⟩
  obtain ⟨mantissa, exponent, rfl, digits, written⟩ := admits
  rcases List.mem_append.mp mem with mem | mem
  · exact digits.dull c mem
  · rcases written with rfl | written
    · cases mem
    · exact written.dull c mem

theorem after_apostrophes {u : Text} (plain : .char '\'' ∉ u) :
    Quoting.apostrophes.after u = .apostrophes := by
  induction u with
  | nil => rfl
  | cons c u ih =>
    rw [List.mem_cons, not_or] at plain
    rw [Quoting.after_cons, Quoting.next, if_neg (Ne.symm plain.1), ih plain.2]

theorem IsEscaped.after {u : Text} (h : IsEscaped u) : Quoting.quotes.after u = .quotes := by
  induction h with
  | nil => rfl
  | plain quote slash _ ih => rw [Quoting.after_cons, Quoting.next, if_neg quote, if_neg slash, ih]
  | hidden line _ ih =>
    have escape : Quoting.quotes.next (.char '\\') = .escape := rfl
    rw [Quoting.after_cons, escape, Quoting.after_cons, Quoting.next, if_neg line, ih]

theorem string?_eq_some (h : string? t = some (x, rest)) :
    t = x ++ rest ∧ x ≠ [] ∧ Lexed (some .string) x rest := by
  obtain ⟨whole, admits⟩ := greedy_string.sound h
  refine ⟨whole, Rule.ne_nil_of_admits admits, ?_⟩
  rcases admits with ⟨u, rfl, plain⟩ | ⟨u, rfl, escaped⟩
  · exact ⟨_, u, rfl, .inl ⟨rfl, plain⟩⟩
  · exact ⟨_, u, rfl, .inr ⟨rfl, escaped.after⟩⟩

namespace IsQuotation

theorem after_code (h : IsQuotation x) : Quoting.code.after x = .code := by
  obtain ⟨q, u, rfl, ⟨rfl, plain⟩ | ⟨rfl, stays⟩⟩ := h
  · have opens : Quoting.code.next (.char '\'') = .apostrophes := rfl
    rw [List.cons_append, Quoting.after_cons, opens, Quoting.after_append, after_apostrophes plain]
    rfl
  · have opens : Quoting.code.next (.char '"') = .quotes := rfl
    rw [List.cons_append, Quoting.after_cons, opens, Quoting.after_append, stays]
    rfl

theorem ne_nil (h : IsQuotation x) : x ≠ [] := by
  obtain ⟨q, u, rfl, -⟩ := h
  exact List.cons_ne_nil _ _

theorem count (h : IsQuotation x) (double : .char '"' ∉ x) : x.count (.char '\'') = 2 := by
  obtain ⟨q, u, rfl, ⟨rfl, plain⟩ | ⟨rfl, -⟩⟩ := h
  · rw [List.count_append, List.count_cons_self, List.count_eq_zero_of_not_mem plain]
    rfl
  · exact absurd List.mem_cons_self double

/-- A string starts and ends in characters that belong to no word. -/
theorem stops (h : IsQuotation x) : Stops isWord x ∧ Stops isWord x.reverse := by
  obtain ⟨q, u, rfl, other⟩ := h
  have mark : isWord q = false := by
    rcases other with ⟨rfl, -⟩ | ⟨rfl, -⟩ <;> decide
  rw [List.reverse_append]
  exact ⟨stops_cons.mpr mark, stops_cons.mpr mark⟩

end IsQuotation

theorem name?_eq_some (h : name? t = some (x, rest)) :
    t = x ++ rest ∧ x ≠ [] ∧ Lexed (some .name) x rest := by
  obtain ⟨whole, admits⟩ := greedy_name.sound h
  refine ⟨whole, Rule.ne_nil_of_admits admits, ?_⟩
  obtain ⟨mark, first, members, rfl, marks, identifier, identifiers⟩ := admits
  have dull {w : Text} (h : Term.isIdentifier w = true) : ∀ d ∈ w, isDull d = true :=
    fun d mem => isDull_of_isWord (Term.isWord_of_isIdentifier h d mem)
  constructor
  · intro d mem
    simp only [List.mem_append, List.mem_flatMap, List.mem_cons] at mem
    rcases mem with mem | mem | ⟨m, among, rfl | mem⟩
    · rcases marks with rfl | rfl
      · cases mem
      · rw [List.mem_singleton.mp mem]
        rfl
    · exact dull identifier d mem
    · rfl
    · exact dull (identifiers m among) d mem
  · intro bare
    -- without a point there are no members
    cases members with
    | cons m members => simp at bare
    | nil =>
      rw [List.flatMap_nil, List.append_nil] at h whole ⊢
      have stop : Stops isWord rest := by
        intro c next
        by_contra word
        rw [Bool.not_eq_false] at word
        -- with the next character the name would be longer
        obtain ⟨behind, rfl⟩ := List.head?_eq_some_iff.mp next
        have longer : Rule.Admits .name (mark ++ (first ++ [c])) := by
          refine ⟨mark, first ++ [c], [], by simp, marks, ?_, by simp⟩
          obtain ⟨d, w, rfl⟩ := List.exists_cons_of_ne_nil (Term.ne_nil_of_isIdentifier identifier)
          rw [List.cons_append, Term.isIdentifier] at *
          simpa [word] using identifier
        have short := greedy_name.longest h longer ⟨behind, by rw [whole]; simp⟩
        simp at short
      obtain ⟨c, w, rfl⟩ := List.exists_cons_of_ne_nil (Term.ne_nil_of_isIdentifier identifier)
      have words := Term.isWord_of_isIdentifier identifier
      rw [Term.isIdentifier, Bool.and_eq_true] at identifier
      refine ⟨c, w, ?_, identifier.1, words, stop⟩
      exact marks.imp (fun same => by rw [same]; rfl) (fun same => by rw [same]; rfl)

theorem operator?_eq_some (h : operator? t = some (x, rest)) :
    t = x ++ rest ∧ x ≠ [] ∧ Lexed (some .op) x rest := by
  obtain ⟨whole, mem⟩ := greedy_operator.sound h
  have signs : ∀ op ∈ operators, op ≠ [] ∧ ∀ c ∈ op, isDull c = true ∧ isWord c = false := by decide
  exact ⟨whole, signs x mem⟩

theorem hash?_eq_some (h : hash? t = some (x, rest)) :
    t = x ++ rest ∧ x ≠ [] ∧ Lexed none x rest := by
  obtain ⟨whole, same⟩ := greedy_hash.sound h
  obtain rfl : x = [.char '#'] := same
  refine ⟨whole, by simp, ?_⟩
  simp only [Lexed]
  decide

/-- The scanner takes a stretch that is in front of what it leaves, and a reader knows what to expect. -/
theorem next?_eq_some {kind? : Option TokenKind} (h : next? t = some (kind?, x, rest)) :
    t = x ++ rest ∧ x ≠ [] ∧ Lexed kind? x rest := by
  obtain ⟨a, read, rfl⟩ := exists_read_of_next? h
  cases a with
  | blanks => exact blanks?_eq_some read
  | time => exact duration?_eq_some read
  | based => exact based?_eq_some read
  | number => exact number?_eq_some read
  | string => exact string?_eq_some read
  | name => exact name?_eq_some read
  | op => exact operator?_eq_some read
  | hash => exact hash?_eq_some read

/-- A reader in code stands in code behind whatever the scanner takes. -/
theorem Lexed.after_code {kind? : Option TokenKind} (h : Lexed kind? x rest) (ne : x ≠ []) :
    Quoting.code.after x = .code := by
  have dull (all : ∀ c ∈ x, isDull c = true) : Quoting.code.after x = .code := by
    obtain ⟨c, x, rfl⟩ := List.exists_cons_of_ne_nil ne
    exact Quoting.after_of_isDull all .code
  match kind?, h with
  | none, h => exact dull fun c mem => (h c mem).1
  | some .op, h => exact dull fun c mem => (h c mem).1
  | some .time, h => exact dull h
  | some .based, h => exact dull h
  | some .number, h => exact dull h
  | some .string, h => exact IsQuotation.after_code h
  | some .name, h => exact dull h.1

end Lexeme

/-! ## Names among tokens -/

namespace Token

/-- Whether every name follows an operator or a mark, or comes first. -/
def Apart (tokens : List Token) : Prop :=
  tokens.IsChain fun a b => b.kind = .name → a.kind = .op

theorem scanFrom_eq_ok {t : Text} {position : Nat} {tokens : List Token}
    (h : scanFrom position 0 t = .ok tokens) :
    (t = [] ∧ tokens = []) ∨ ∃ kind? x rest later, t = x ++ rest ∧ x ≠ [] ∧ Lexeme.Lexed kind? x rest ∧
      scanFrom (position + x.length) 0 rest = .ok later ∧
      tokens = (kind?.map fun kind => (⟨kind, x, position⟩ : Token)).toList ++ later := by
  cases t with
  | nil =>
    cases h
    exact .inl ⟨rfl, rfl⟩
  | cons c cs =>
    cases found : Lexeme.next? (c :: cs) with
    | none =>
      rw [scanFrom_of_none found] at h
      cases h
    | some taken =>
      obtain ⟨kind?, x, rest⟩ := taken
      obtain ⟨whole, ne, lexed⟩ := Lexeme.next?_eq_some found
      rw [scanFrom_of_next? found] at h
      obtain ⟨later, scanned, same⟩ := ok_of_map h
      exact .inr ⟨kind?, x, rest, later, whole, ne, lexed, scanned, same.symm⟩

/-- A reader that is in no word at a name without members meets the name without its `#`, which starts as
a name does. -/
theorem mem_spoken_of_name {x rest : Text} (lexed : Lexeme.Lexed (some .name) x rest) (bare : .char '.' ∉ x)
    {r : Reader} (code : r.quoting = .code) (idle : r.word = []) :
    Text.dropLeading '#' x ∈ ((r.read x).read rest).spoken ∧
      (Text.dropLeading '#' x).head?.any isNameStart = true := by
  obtain ⟨c, w, text, start, words, stop⟩ := lexed.2 bare
  have hash : c ≠ '#' := by
    rintro rfl
    cases start
  have name : Text.dropLeading '#' x = c :: w := by
    rcases text with rfl | rfl
    · simp [Text.dropLeading, hash]
    · simp [Text.dropLeading, hash]
  have word : (r.read x).word = c :: w := by
    rcases text with rfl | rfl
    · rw [Reader.read_word words code, idle, List.nil_append]
    · have next : r.next '#' = ⟨.code, [], r.word :: r.words⟩ := by
        rw [Reader.next_of_not_isWord (by decide), code]
        rfl
      rw [Reader.read_cons, next, Reader.read_word words rfl, List.nil_append]
  rw [name]
  refine ⟨?_, start⟩
  rw [← word]
  exact Reader.mem_spoken_read stop _

/-- A reader of the text of tokens in which no name follows an operand is in code again at the end, and
has met every name without members, but for its `#`, as a word that starts as a name does. -/
theorem mem_spoken_of_scanFrom (size : Nat) :
    ∀ {t : Text} {position : Nat} {tokens : List Token} {r : Reader},
    t.length ≤ size → scanFrom position 0 t = .ok tokens → Apart tokens → r.quoting = .code →
    (r.word = [] ∨ ∀ token ∈ tokens.head?, token.kind ≠ .name) →
    (r.read t).quoting = .code ∧
      ∀ token ∈ tokens, token.kind = .name → .char '.' ∉ token.text →
        Text.dropLeading '#' token.text ∈ (r.read t).spoken ∧
          (Text.dropLeading '#' token.text).head?.any isNameStart = true := by
  induction size with
  | zero =>
    intro t position tokens r short scanned _ code _
    obtain rfl := List.eq_nil_of_length_eq_zero (Nat.le_zero.mp short)
    cases scanned
    exact ⟨code, by simp⟩
  | succ size ih =>
    intro t position tokens r short scanned apart code start
    rcases scanFrom_eq_ok scanned with ⟨rfl, rfl⟩ | ⟨kind?, x, rest, later, rfl, ne, lexed, onward, rfl⟩
    · exact ⟨code, by simp⟩
    have length := List.length_pos_iff.mpr ne
    rw [List.length_append] at short
    have fewer : rest.length ≤ size := by omega
    have after : (r.read x).quoting = .code := by rw [Reader.quoting_read, code, lexed.after_code ne]
    rw [Reader.read_append]
    cases kind? with
    | none =>
      have idle : (r.read x).word = [] := Reader.word_read ne (fun c mem => (lexed c mem).2) r
      exact ih fewer onward apart after (.inl idle)
    | some kind =>
      have apart' : Apart later := List.IsChain.tail apart
      have start' : (r.read x).word = [] ∨ ∀ token ∈ later.head?, token.kind ≠ .name := by
        by_cases op : kind = .op
        · subst op
          exact .inl (Reader.word_read ne (fun c mem => (lexed c mem).2) r)
        · -- behind an operand comes no name
          refine .inr fun token mem name => op ?_
          exact (List.isChain_cons.mp apart).1 token mem name
      obtain ⟨closed, met⟩ := ih fewer onward apart' after start'
      refine ⟨closed, fun token mem name bare => ?_⟩
      rcases List.mem_cons.mp mem with rfl | mem
      · obtain rfl : kind = .name := name
        have idle : r.word = [] := start.resolve_right fun other => other _ rfl rfl
        exact mem_spoken_of_name lexed bare code idle
      · exact met token mem name bare

end Token

/-! ## Variables -/

namespace Expr

mutual

def names : Expr → List Text
  | .literal _ => []
  | .variable name => [name]
  | .binary _ left right => left.names ++ right.names
  | .unary _ operand => operand.names
  | .call _ args => argNames args

def argNames : List Expr → List Text
  | [] => []
  | arg :: args => arg.names ++ argNames args

end

mutual

/-- The value of an expression depends on the bindings of its variables alone. -/
theorem eval_congr {env env' : Environment} : ∀ (e : Expr),
    (∀ name ∈ e.names, env.lookup name = env'.lookup name) → e.eval env = e.eval env'
  | .literal v, _ => by rw [eval, eval]
  | .variable name, same => by rw [eval, eval, same name (by simp [names])]
  | .binary op left right, same => by
    rw [names, List.forall_mem_append] at same
    rw [eval, eval, eval_congr left same.1, eval_congr right same.2]
  | .unary op operand, same => by rw [eval, eval, eval_congr operand same]
  | .call name args, same => by rw [eval, eval, evalArgs_congr args same]

theorem evalArgs_congr {env env' : Environment} : ∀ (args : List Expr),
    (∀ name ∈ argNames args, env.lookup name = env'.lookup name) → evalArgs env args = evalArgs env' args
  | [], _ => by rw [evalArgs, evalArgs]
  | arg :: args, same => by
    rw [argNames, List.forall_mem_append] at same
    rw [evalArgs, evalArgs, eval_congr arg same.1, evalArgs_congr args same.2]

end

theorem mem_argNames {name : Text} {args : List Expr} (h : name ∈ argNames args) :
    ∃ arg ∈ args, name ∈ arg.names := by
  induction args with
  | nil => cases h
  | cons arg args ih =>
    rw [argNames, List.mem_append] at h
    rcases h with h | h
    · exact ⟨arg, List.mem_cons_self, h⟩
    · obtain ⟨other, mem, among⟩ := ih h
      exact ⟨other, List.mem_cons_of_mem _ mem, among⟩

end Expr

namespace Grammar

open Token (Apart)

theorem apart_append {a b : List Token} (first : Apart a) (second : Apart b)
    (marked : ∀ token ∈ b.head?, token.kind = .op) : Apart (a ++ b) := by
  refine List.isChain_append.mpr ⟨first, second, fun x _ y mem name => ?_⟩
  rw [marked y mem] at name
  cases name

theorem apart_cons {token : Token} {tokens : List Token} (mark : token.kind = .op) (h : Apart tokens) :
    Apart (token :: tokens) :=
  List.isChain_cons.mpr ⟨fun _ _ _ => mark, h⟩

theorem apart_segments {tokens : List Token} {segments : List Segment} (front : Apart tokens)
    (marks : ∀ s ∈ segments, s.mark.kind = .op) (inner : ∀ s ∈ segments, Apart s.tokens) :
    Apart (tokens ++ segments.flatMap Segment.written) := by
  induction segments generalizing tokens with
  | nil => simpa using front
  | cons s segments ih =>
    rw [List.forall_mem_cons] at marks inner
    rw [List.flatMap_cons, ← List.append_assoc]
    refine ih (apart_append front (apart_cons marks.1 inner.1) ?_) marks.2 inner.2
    intro token mem
    cases mem
    exact marks.1

theorem kind_of_shape {token : Token} {text : Text} (h : token.shape = (.op, text)) : token.kind = .op :=
  congrArg Prod.fst h

/-- In what the grammar derives every name follows an operator or a mark, or comes first. -/
theorem apart_of_derives {symbol : Symbol} {tokens : List Token} {e : Expr} (h : Derives symbol tokens e) :
    Apart tokens := by
  induction h with
  | @level level tokens e steps first operators operands ih ihs =>
    rw [stepTokens_eq]
    refine apart_segments ih ?_ ?_
    · intro s mem
      obtain ⟨step, among, rfl⟩ := List.mem_map.mp mem
      exact (operators step among).1
    · intro s mem
      obtain ⟨step, among, rfl⟩ := List.mem_map.mp mem
      exact ihs step among
  | not mark _ ih => exact apart_cons (kind_of_shape mark) ih
  | minus mark _ ih => exact apart_cons (kind_of_shape mark) ih
  | plus mark _ ih => exact apart_cons (kind_of_shape mark) ih
  | primary _ ih => exact ih
  | literal | constant | name => exact List.isChain_singleton _
  | @callEmpty token opening closing kind free opens closes =>
    have marks : Apart [opening, closing] := apart_cons (kind_of_shape opens) (List.isChain_singleton _)
    exact apart_append (a := [token]) (List.isChain_singleton _) marks fun token mem => by
      cases mem
      exact kind_of_shape opens
  | @call token opening closing tokens e others kind free opens closes first commas args ih ihs =>
    have inner := apart_segments ih (fun s mem => kind_of_shape (commas s mem)) ihs
    have closed : Apart (tokens ++ others.flatMap Segment.written ++ [closing]) :=
      apart_append inner (List.isChain_singleton _) fun token mem => by
        cases mem
        exact kind_of_shape closes
    exact apart_append (a := [token]) (List.isChain_singleton _)
      (apart_cons (kind_of_shape opens) closed) fun token mem => by
        cases mem
        exact kind_of_shape opens
  | parens opens closes inner ih =>
    refine apart_cons (kind_of_shape opens) (apart_append ih (List.isChain_singleton _) ?_)
    intro token mem
    cases mem
    exact kind_of_shape closes

theorem mem_names_chain {left : Expr} {steps : List (BinaryOp × Segment)} {name : Text}
    (h : name ∈ (chain left steps).names) :
    name ∈ left.names ∨ ∃ s ∈ steps, name ∈ s.2.expr.names := by
  induction steps generalizing left with
  | nil => exact .inl h
  | cons s steps ih =>
    rcases ih h with mem | ⟨other, among, mem⟩
    · rw [Expr.names, List.mem_append] at mem
      exact mem.imp id fun mem => ⟨s, List.mem_cons_self, mem⟩
    · exact .inr ⟨other, List.mem_cons_of_mem _ among, mem⟩

/-- A variable of a derived tree is spelled by a token of a name that stands for no constant. -/
theorem exists_token_of_derives {symbol : Symbol} {tokens : List Token} {e : Expr}
    (h : Derives symbol tokens e) {name : Text} (mem : name ∈ e.names) :
    ∃ token ∈ tokens, token.kind = .name ∧ name = nameOf token ∧ Token.constant? name = none := by
  have within {a b : List Token} (sub : a ⊆ b)
      (found : ∃ token ∈ a, token.kind = .name ∧ name = nameOf token ∧ Token.constant? name = none) :
      ∃ token ∈ b, token.kind = .name ∧ name = nameOf token ∧ Token.constant? name = none := by
    obtain ⟨token, among, spelled⟩ := found
    exact ⟨token, sub among, spelled⟩
  have segment {s : Segment} {segments : List Segment} (among : s ∈ segments) :
      s.tokens ⊆ segments.flatMap Segment.written := fun token mem =>
    List.mem_flatMap.mpr ⟨s, among, List.mem_cons_of_mem _ mem⟩
  induction h with
  | @level level tokens e steps first operators operands ih ihs =>
    rcases mem_names_chain mem with mem | ⟨s, among, mem⟩
    · exact within (List.subset_append_left _ _) (ih mem)
    · refine within (fun token inside => List.mem_append_right _ ?_) (ihs s among mem)
      exact List.mem_flatMap.mpr ⟨s, among, List.mem_cons_of_mem _ inside⟩
  | not mark _ ih | minus mark _ ih | plus mark _ ih => exact within (List.subset_cons_self _ _) (ih mem)
  | primary _ ih => exact ih mem
  | literal | constant => cases mem
  | @name token kind free =>
    obtain rfl := List.mem_singleton.mp mem
    exact ⟨token, List.mem_cons_self, kind, rfl, free⟩
  | callEmpty => cases mem
  | @call token opening closing tokens e others kind free opens closes first commas args ih ihs =>
    rw [Expr.names, Expr.argNames, List.mem_append] at mem
    rcases mem with mem | mem
    · refine within (fun token inside => ?_) (ih mem)
      simp [inside]
    · obtain ⟨arg, among, mem⟩ := Expr.mem_argNames mem
      obtain ⟨s, other, rfl⟩ := List.mem_map.mp among
      refine within (fun token inside => ?_) (ihs s other mem)
      have := segment other inside
      simp [this]
  | parens opens closes inner ih =>
    refine within (fun token inside => ?_) (ih mem)
    simp [inside]

end Grammar

/-- A text that can be parsed is read to its end in code, and each of its variables without members is
one of the words of code that are met. -/
theorem mem_spoken_of_parse {t : Text} {e : Expr} (h : Expr.parse t = .ok e) :
    (({} : Reader).read t).quoting = .code ∧
      ∀ name ∈ e.names, .char '.' ∉ name →
        name ∈ (({} : Reader).read t).spoken ∧ name.head?.any isNameStart = true ∧
          Token.constant? name = none := by
  unfold Expr.parse at h
  split at h
  · cases h
  · cases h
  · next tokens _ scanned =>
    have derived := Grammar.derives_of_ofTokens h
    obtain ⟨closed, met⟩ := Token.mem_spoken_of_scanFrom (r := {}) t.length (Nat.le_refl _) scanned
      (Grammar.apart_of_derives derived) rfl (.inl rfl)
    refine ⟨closed, fun name mem bare => ?_⟩
    obtain ⟨token, among, kind, rfl, free⟩ := Grammar.exists_token_of_derives derived mem
    suffices plain : .char '.' ∉ token.text from
      have ⟨word, start⟩ := met token among kind plain
      ⟨word, start, free⟩
    intro point
    apply bare
    -- the point is not one of the marks in front
    rw [← List.takeWhile_append_dropWhile (p := (· == .char '#')) (l := token.text), List.mem_append] at point
    exact point.resolve_left fun mark => absurd (List.mem_takeWhile_imp mark) (by decide)

end SclNarrator
