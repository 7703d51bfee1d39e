import SclNarrator.Proofs.Expr.ReadBack
import SclNarrator.Proofs.Run.Seeding

/-!
Spellings of a name. A bound name is resolved in one of two ways.

What is proved:
  1. in the spelling of its binding it gives way to the text of the value, so the value must be one
     that can be written (`evaluate_eq_iff_of_mem`);
  2. in any other spelling with the same folding it is kept as a word until the expression is parsed,
     and is looked up only if it is an identifier (`evaluate_of_not_mem`): a word that starts with a
     letter beyond `A` to `Z` stops the scan;
  3. so the two ways agree, and give the value of the binding, exactly where both conditions are met
     (`evaluate_spellings_iff`).

Correspondence (analyzer ↔ here):
  `substitute`                  ↔ the first way, `Environment.substitute`
  `tokenize`, `_eval` of a name ↔ the second way, `Token.scan` and `Environment.lookup`
-/

namespace SclNarrator

/-- A word that a name can be spelled as: it does not start with a digit, is no word that is
replaced, in any letter case, and stands for no value. -/
structure Spelling where
  text : Text
  words : ∀ c ∈ text, isWord c = true
  starts : text.head?.any (fun c => !isDecimal c) = true
  free : text.fold ∉ Item.keywords
  noConstant : Token.constant? text = none

namespace Spelling

variable (w : Spelling)

theorem ne_nil : w.text ≠ [] := by
  intro empty
  have starts := w.starts
  rw [empty] at starts
  cases starts

theorem unquoted : Unquoted w.text := fun c mem => Term.isQuotable_of_isWord (w.words c mem)

theorem hash_not_mem : .char '#' ∉ w.text := fun mem => absurd (w.words _ mem) (by decide)

theorem symbolize_text : Vocabulary.symbolize w.text = w.text := by
  rw [Vocabulary.symbolize_code w.unquoted]
  have steady := Item.isSteady_of_isWord w.words w.free
  exact Item.symbolizeCode_of_fixed fun p => Item.replaceAll_of_isSteady steady

theorem lookupKey_text : Environment.lookupKey w.text = w.text.fold := by
  refine Environment.lookupKey_of_head? fun head => w.hash_not_mem ?_
  exact List.mem_of_mem_head? head

theorem parse_of_isIdentifier (identifier : Term.isIdentifier w.text = true) :
    Expr.parse w.text = .ok (.variable w.text) :=
  Expr.parse_text (.variable w.text) ⟨isPath_of_isIdentifier identifier, w.noConstant⟩

/-- A word that starts with neither a digit nor the first character of an identifier is no token. -/
theorem next?_eq_none (other : Term.isIdentifier w.text = false) : Lexeme.next? w.text = none := by
  have words := w.words
  have starts := w.starts
  have hashless := w.hash_not_mem
  have noDuration := @Lexeme.duration?_eq_none [] w.text stops_nil hashless
  have noBase := @Lexeme.based?_eq_none [] w.text stops_nil hashless
  rw [List.append_nil] at noDuration noBase
  cases same : w.text with
  | nil => exact absurd same w.ne_nil
  | cons c rest =>
    rw [same] at words starts hashless noDuration noBase other
    rw [List.forall_mem_cons] at words
    have decimal : isDecimal c = false := by simpa using starts
    have start : isNameStart c = false := by
      rw [Term.isIdentifier, List.all_eq_true.mpr words.2, Bool.and_true] at other
      exact other
    have not {d : CodePoint} (h : isWord d = false) : c ≠ d := by
      rintro rfl
      rw [words.1] at h
      cases h
    have noOperator : Lexeme.operator? (c :: rest) = none := by
      have signs : ∀ op ∈ Lexeme.operators, op.head?.any (fun d => !isWord d) = true := by decide
      rw [Lexeme.operator?, List.findSome?_eq_none_iff]
      intro op mem
      rw [Option.map_eq_none_iff, Option.eq_none_iff_forall_ne_some]
      intro after dropped
      have sign := signs op mem
      cases op with
      | nil => cases sign
      | cons d op => exact not (by simpa using sign) (List.cons.inj (dropPart?_eq_some.mp dropped)).1
    have noHash : Lexeme.hash? (c :: rest) = none := by
      unfold Lexeme.hash?
      split
      · next same => exact absurd (List.cons.inj same).1 (not (by decide))
      · rfl
    rw [Lexeme.next?, Lexeme.blanks?_eq_none (stops_cons.mpr (isBlank_of_isWord words.1)), noDuration, noBase,
      Lexeme.number?_eq_none decimal (not (by decide)), Lexeme.string?_eq_none
        (Term.isQuotable_of_isWord words.1),
      Lexeme.name?_eq_none start (not (by decide)), noOperator, noHash]
    rfl

end Spelling

namespace Environment

variable {env : Environment} {b : Binding}

theorem evaluate_of_source {w : Spelling} {v : Value} (mem : w.text ∈ env.names)
    (source : env.source w.text = v.source) (writable : v.isWritable = true) : env.evaluate w.text = v := by
  obtain ⟨o, written, text, value⟩ := exists_operand_of_value writable
  have made : env.substitute w.text = .ok (o.text Operand.text) := by
    rw [substitute_of_unquoted env w.unquoted, Substitution.replaceNames_whole w.ne_nil w.words rfl,
      if_pos mem, source, text]
  exact evaluate_of_substitute made (Slot.symbolize_source written false)
    (Slot.parse_source written false) (value env)

/-- A name in the spelling of its binding has the value of the binding if and only if that can be written. -/
theorem evaluate_eq_iff_of_mem {w : Spelling} (mem : w.text ∈ env.names)
    (bound : env.lookup w.text = some b) :
    env.evaluate w.text = b.value ↔ b.value.isWritable = true := by
  have source : env.source w.text = b.value.source := by rw [Environment.source, bound]
  refine ⟨fun same => ?_, evaluate_of_source mem source⟩
  cases value : b.value with
  | none => rfl
  | bool t => rfl
  | float x => rfl
  | text t => rfl
  | int n =>
    -- a number that is too long has no text
    rw [Value.isWritable, ← Bool.not_eq_false]
    intro long
    rw [value, Value.source, Value.intText, if_neg (by rw [long]; decide)] at source
    have failed : env.substitute w.text = .error .longNumber := by
      rw [substitute_of_unquoted env w.unquoted,
        Substitution.replaceNames_whole w.ne_nil w.words rfl, if_pos mem, source]
    rw [evaluate, trace, failed, value] at same
    cases same
  | complex z =>
    -- a complex number is written as a text in quotes
    rw [value] at source same
    have read := evaluate_of_source (v := .text z.text) mem source rfl
    rw [same] at read
    cases read

/-- A name in no spelling of a binding is looked up if it is an identifier, and has no value if it is none. -/
theorem evaluate_of_not_mem {w : Spelling} (absent : w.text ∉ env.names)
    (bound : env.lookup w.text = some b) :
    env.evaluate w.text = if Term.isIdentifier w.text then b.value else .none := by
  have kept : env.substitute w.text = .ok w.text := by
    rw [substitute_of_unquoted env w.unquoted, Substitution.replaceNames_whole w.ne_nil w.words rfl,
      if_neg absent]
  by_cases identifier : Term.isIdentifier w.text = true
  · rw [if_pos identifier]
    refine evaluate_of_substitute kept w.symbolize_text (w.parse_of_isIdentifier identifier) ?_
    rw [Expr.eval, bound]
  · rw [if_neg identifier]
    have stopped : ∃ fault, Token.scan w.text = .error fault := by
      have stuck := w.next?_eq_none (Bool.eq_false_iff.mpr identifier)
      obtain ⟨c, rest, same⟩ := List.exists_cons_of_ne_nil w.ne_nil
      rw [same] at stuck ⊢
      exact ⟨.strayChar c 0, by rw [Token.scan, Token.scanFrom, stuck]⟩
    obtain ⟨fault, stopped⟩ := stopped
    have failed : Expr.parse w.text = .error fault := by rw [Expr.parse, stopped]
    simp only [evaluate, trace, kept, w.symbolize_text, failed]
    rfl

/-- **Spellings of a bound name.** A name in the spelling of its binding and in another with the
same folding has the value of the binding both times if and only if the value can be written and the
other spelling is bound as well, or is an identifier; if there is no value, nothing is asked of the
other spelling. -/
theorem evaluate_spellings_iff (w other : Spelling) (same : other.text.fold = w.text.fold)
    (mem : w.text ∈ env.names) (bound : env.lookup w.text = some b) :
    env.evaluate other.text = b.value ∧ env.evaluate w.text = b.value ↔
      b.value.isWritable = true ∧
        (other.text ∈ env.names ∨ Term.isIdentifier other.text = true ∨ b.value = .none) := by
  have found : env.lookup other.text = some b := by
    rwa [lookup, other.lookupKey_text, same, ← w.lookupKey_text]
  rw [evaluate_eq_iff_of_mem mem bound, and_comm]
  refine and_congr_right fun writable => ?_
  by_cases among : other.text ∈ env.names
  · exact iff_of_true ((evaluate_eq_iff_of_mem among found).mpr writable) (.inl among)
  · rw [evaluate_of_not_mem among found]
    by_cases identifier : Term.isIdentifier other.text = true
    · exact iff_of_true (if_pos identifier) (.inr (.inl identifier))
    · rw [if_neg identifier, eq_comm]
      simp only [among, identifier, Bool.false_eq_true, false_or]

def single (key name : Text) (n : Int) : Environment := ⟨[(key, ⟨name, .int n, "INT".toText, .cache⟩)]⟩

theorem mem_names_single (key name : Text) (n : Int) : name ∈ (single key name n).names := by
  have names : (single key name n).names = [name] := List.mergeSort_singleton _
  rw [names]
  exact List.mem_singleton_self name

/-- Two spellings of different lengths with one folding. -/
theorem evaluate_spellings_sharp :
    let w : Spelling := ⟨"Größe".toText,
      by decide +kernel, by decide +kernel, by decide +kernel, by decide +kernel⟩
    let other : Spelling :=
      ⟨"GRÖSSE".toText, by decide +kernel, by decide +kernel, by decide +kernel, by decide +kernel⟩
    let env := single "grösse".toText w.text 7
    other.text.fold = w.text.fold ∧ w.text ∈ env.names ∧ (env.lookup w.text).map Binding.value =
      some (.int 7) ∧
      env.evaluate other.text = .int 7 ∧ env.evaluate w.text = .int 7 := by
  intro w other env
  have same : other.text.fold = w.text.fold := by decide +kernel
  have mem : w.text ∈ env.names := mem_names_single _ _ _
  have bound : env.lookup w.text = some ⟨w.text, .int 7, "INT".toText, .cache⟩ := by decide +kernel
  refine ⟨same, mem, by rw [bound]; rfl, ?_⟩
  exact (evaluate_spellings_iff w other same mem bound).mpr
    ⟨by decide +kernel, .inr (.inl (by decide +kernel))⟩

/-- A number that is too long is not found in the spelling of its binding, and found in another one. -/
theorem evaluate_single_long (n : Int) (long : Numeral.fits n = false) :
    (single "n".toText "N".toText n).evaluate "N".toText ≠ .int n ∧
      (single "n".toText "N".toText n).evaluate "n".toText = .int n := by
  let upper : Spelling := ⟨"N".toText, by decide, by decide, by decide, by decide⟩
  let lower : Spelling := ⟨"n".toText, by decide, by decide, by decide, by decide⟩
  have names : (single "n".toText "N".toText n).names = ["N".toText] := List.mergeSort_singleton _
  have absent : lower.text ∉ (single "n".toText "N".toText n).names := by
    rw [names]
    decide
  constructor
  · intro same
    have bound : (single "n".toText "N".toText n).lookup upper.text = some ⟨_, .int n, _, .cache⟩ := rfl
    have fits : Numeral.fits n = true := (evaluate_eq_iff_of_mem (mem_names_single _ _ n) bound).mp same
    rw [long] at fits
    cases fits
  · exact evaluate_of_not_mem (w := lower) absent rfl

/-- A name that starts with an accented letter is found in the spelling of its binding only, and a
number of too many digits in the other spelling only. -/
theorem spelling_decides_the_value :
    let accented := single "é".toText "É".toText 7
    let long := single "n".toText "N".toText (10 ^ Numeral.digitLimit)
    ("é".toText.fold = "É".toText.fold ∧ accented.evaluate "É".toText = .int 7 ∧
        accented.evaluate "é".toText = .none) ∧
      long.evaluate "N".toText ≠ .int (10 ^ Numeral.digitLimit) ∧
        long.evaluate "n".toText = .int (10 ^ Numeral.digitLimit) := by
  intro accented long
  refine ⟨⟨by decide +kernel, by decide +kernel, by decide +kernel⟩, evaluate_single_long _ ?_⟩
  rw [Bool.eq_false_iff, Ne, Numeral.fits_iff, Int.natAbs_pow, show Int.natAbs 10 = 10 from rfl]
  exact lt_irrefl _

end Environment
end SclNarrator
