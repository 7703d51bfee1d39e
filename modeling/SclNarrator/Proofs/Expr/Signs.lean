import SclNarrator.Proofs.Expr.Bars
import SclNarrator.Proofs.Expr.Symbolize
import SclNarrator.Proofs.Text.Words

/-!
Operator words and signs replaced around parentheses and the words that join. The text before such a
mark and the text behind it become what they become alone (`symbolize_sign`), and a text without
marks becomes one without the signs that they are written with (`barless_symbolize`).
-/

namespace SclNarrator

open Text (Bounded Fresh replaceAll)
open Item (inequality_cons_cons inequality_of_head? equality_cons)

namespace Vocabulary

/-! ## Replacements at a character -/

/-- Whether a character belongs to no word and to no sign that is replaced. -/
def isEdge (c : CodePoint) : Bool := !isWord c && !extendsEquals c

variable {h : CodePoint}

theorem isEdge_of_isBar (bar : isBar h = true) : isEdge h = true := by
  have other : extendsEquals h = false := not_of_isBar (by decide) (by decide) bar
  rw [isEdge, isWord_of_isBar bar, other]
  rfl

theorem isEdge_of_isHard (hard : isHard h = true) : isEdge h = true :=
  isEdge_of_isBar (by rw [isBar, hard, Bool.or_true])

theorem isBlank_of_isHard (hard : isHard h = true) : isBlank h = false := by
  rcases eq_of_isHard hard with rfl | rfl | rfl | rfl <;> decide

theorem isWord_of_isEdge (edge : isEdge h = true) : isWord h = false := by
  rw [isEdge, Bool.and_eq_true, Bool.not_eq_true'] at edge
  exact edge.1

theorem bounded_word {keyword replacement : Text} (letters : ∀ k ∈ keyword, isWord k = true)
    (mark : isWord h = false) : Bounded (word keyword replacement) h := by
  intro x y b _
  rw [word, word, (@dropKeyword?_append_cons keyword x [] y b h letters mark).1, Option.map_map,
    Option.map_map]
  rfl

theorem fresh_word {keyword replacement : Text} (letters : ∀ k ∈ keyword, isWord k = true) (ne : keyword ≠ [])
    (mark : isWord h = false) : Fresh (word keyword replacement) h ∧
      word keyword replacement [] [h] = none := by
  refine ⟨⟨fun back b => ?_, fun x back y => ?_⟩, ?_⟩
  · rw [word, word, dropKeyword?_cons letters ne mark, dropKeyword?_cons letters ne mark]
    rfl
  · rw [word, word, (@dropKeyword?_append_cons keyword x back y [] h letters mark).2]
  · rw [word, dropKeyword?_cons letters ne mark]
    rfl

theorem bounded_negation (mark : isWord h = false) (visible : isBlank h = false) : Bounded negation h := by
  intro x y b _
  have letters : ∀ k ∈ "not".toText, isWord k = true := by decide
  rw [negation, negation, (@dropKeyword?_append_cons _ x [] y b h letters mark).1, Option.map_map,
    Option.map_map]
  congr 1
  funext rest
  exact congrArg _ (dropWhile_append_stops rest (stops_cons.mpr visible))

theorem fresh_negation (mark : isWord h = false) : Fresh negation h ∧ negation [] [h] = none := by
  have letters : ∀ k ∈ "not".toText, isWord k = true := by decide
  refine ⟨⟨fun back b => ?_, fun x back y => ?_⟩, ?_⟩
  · rw [negation, negation, dropKeyword?_cons letters (by decide) mark,
      dropKeyword?_cons letters (by decide) mark]
    rfl
  · rw [negation, negation, (@dropKeyword?_append_cons _ x back y [] h letters mark).2]
  · rw [negation, dropKeyword?_cons letters (by decide) mark]
    rfl

theorem bounded_inequality (other : extendsEquals h = false) : Bounded inequality h := by
  intro x y b ne
  obtain ⟨c, y, rfl⟩ := List.exists_cons_of_ne_nil ne
  cases y with
  | cons d y =>
    rw [List.cons_append, List.cons_append, inequality_cons_cons, inequality_cons_cons]
    split <;> rfl
  | nil =>
    have apart : (h :: b).head? ≠ some (.char '>') := by
      intro same
      rw [Option.some_inj.mp same] at other
      cases other
    rw [List.singleton_append, inequality_of_head? fun _ => apart, inequality_of_head? (by simp)]
    rfl

theorem fresh_inequality (other : extendsEquals h = false) :
    Fresh inequality h ∧ inequality [] [h] = none := by
  have missed (back b : Text) : inequality back (h :: b) = none := by
    refine inequality_of_head? fun less => ?_
    rw [less] at other
    cases other
  exact ⟨⟨fun back b => by rw [missed, missed]; rfl, fun x back y => rfl⟩, missed [] []⟩

theorem bounded_equality (other : extendsEquals h = false) : Bounded equality h := by
  intro x y b ne
  obtain ⟨c, y, rfl⟩ := List.exists_cons_of_ne_nil ne
  have right : (y ++ h :: b).head? = some (.char '=') ↔ y.head? = some (.char '=') := by
    cases y with
    | cons d y => rfl
    | nil =>
      refine iff_of_false (fun same => ?_) (by simp)
      rw [Option.some_inj.mp same] at other
      cases other
  rw [List.cons_append, equality_cons, equality_cons]
  simp only [right, ne_eq]
  split <;> rfl

theorem fresh_equality (other : extendsEquals h = false) : Fresh equality h ∧ equality [] [h] = none := by
  have missed (back b : Text) : equality back (h :: b) = none := by
    rw [equality_cons, if_neg]
    rintro ⟨rfl, -⟩
    cases other
  refine ⟨⟨fun back b => by rw [missed, missed]; rfl, fun x back y => ?_⟩, missed [] []⟩
  have left : (x ++ h :: back).head?.any extendsEquals = x.head?.any extendsEquals := by
    cases x with
    | nil => exact other
    | cons c x => rfl
  cases y with
  | nil => rfl
  | cons c y => rw [equality_cons, equality_cons, left]

theorem fresh_replacements (edge : isEdge h = true) : ∀ p ∈ replacements, Fresh p h ∧ p [] [h] = none := by
  rw [isEdge, Bool.and_eq_true, Bool.not_eq_true', Bool.not_eq_true'] at edge
  obtain ⟨mark, other⟩ := edge
  have keyword (letters replacement : Text) (fine : letters.all isWord && !letters.isEmpty) :
      Fresh (word letters replacement) h ∧ word letters replacement [] [h] = none := by
    simp only [Bool.and_eq_true, List.all_eq_true, Bool.not_eq_true', List.isEmpty_eq_false_iff] at fine
    exact fresh_word fine.1 fine.2 mark
  intro p mem
  simp only [replacements, List.mem_cons, List.not_mem_nil, or_false] at mem
  rcases mem with rfl | rfl | rfl | rfl | rfl | rfl | rfl | rfl | rfl
  · exact keyword _ _ (by decide)
  · exact keyword _ _ (by decide)
  · exact keyword _ _ (by decide)
  · exact fresh_negation mark
  · exact keyword _ _ (by decide)
  · exact keyword _ _ (by decide)
  · exact keyword _ _ (by decide)
  · exact fresh_inequality other
  · exact fresh_equality other

/-! ## Replacements one after the other -/

def inTurn (ps : List (Pattern Text)) (t : Text) : Text := ps.foldl (fun t p => replaceAll p t) t

/-- The replacements of the words that join and of `XOR`, which come first. -/
def joining : List (Pattern Text) := replacements.take 3

/-- The replacements behind the one of negation. -/
def others : List (Pattern Text) := replacements.drop 4

theorem symbolizeCode_eq (t : Text) : symbolizeCode t = inTurn (negation :: others) (inTurn joining t) := by
  have whole : replacements = joining ++ negation :: others := (List.take_append_drop 3 replacements).symm
  rw [symbolizeCode, whole, List.foldl_append]
  rfl

theorem mem_of_mem_others {p : Pattern Text} (mem : p ∈ others) : p ∈ replacements := by
  rw [others] at mem
  exact List.mem_of_mem_drop mem

theorem mem_joining {p : Pattern Text} (mem : p ∈ joining) :
    ∃ keyword replacement, p = word keyword replacement ∧ keyword ≠ [] ∧ ∀ k ∈ keyword, isWord k = true := by
  simp only [joining, replacements, List.take_succ_cons, List.take_zero, List.mem_cons,
    List.not_mem_nil, or_false] at mem
  rcases mem with rfl | rfl | rfl
  all_goals exact ⟨_, _, rfl, by decide, by decide⟩

theorem fresh_joining (mark : isWord h = false) : ∀ p ∈ joining, Fresh p h ∧ p [] [h] = none := by
  intro p mem
  obtain ⟨keyword, replacement, rfl, ne, letters⟩ := mem_joining mem
  exact fresh_word letters ne mark

theorem bounded_joining (mark : isWord h = false) : ∀ p ∈ joining, Bounded p h := by
  intro p mem
  obtain ⟨keyword, replacement, rfl, -, letters⟩ := mem_joining mem
  exact bounded_word letters mark

theorem bounded_others (edge : isEdge h = true) : ∀ p ∈ others, Bounded p h := by
  rw [isEdge, Bool.and_eq_true, Bool.not_eq_true', Bool.not_eq_true'] at edge
  obtain ⟨mark, other⟩ := edge
  intro p mem
  simp only [others, replacements, List.drop_succ_cons, List.drop_zero, List.mem_cons,
    List.not_mem_nil, or_false] at mem
  rcases mem with rfl | rfl | rfl | rfl | rfl
  · exact bounded_word (by decide) mark
  · exact bounded_word (by decide) mark
  · exact bounded_word (by decide) mark
  · exact bounded_inequality other
  · exact bounded_equality other

variable {ps : List (Pattern Text)}

theorem inTurn_step (p : Pattern Text) (ps : List (Pattern Text)) (t : Text) :
    inTurn (p :: ps) t = inTurn ps (replaceAll p t) := rfl

theorem inTurn_nil (ps : List (Pattern Text)) : inTurn ps [] = [] := by
  induction ps with
  | nil => rfl
  | cons p ps ih => exact ih

theorem inTurn_cons (fresh : ∀ p ∈ ps, Fresh p h ∧ p [] [h] = none) (b : Text) :
    inTurn ps (h :: b) = h :: inTurn ps b := by
  induction ps generalizing b with
  | nil => rfl
  | cons p ps ih =>
    obtain ⟨here, later⟩ := List.forall_mem_cons.mp fresh
    rw [inTurn_step, inTurn_step, Text.replaceAll_cons here.1 here.2, ih later]

theorem inTurn_append_cons (bounded : ∀ p ∈ ps, Bounded p h) (fresh : ∀ p ∈ ps, Fresh p h ∧ p [] [h] = none)
    (a b : Text) : inTurn ps (a ++ h :: b) = inTurn ps a ++ h :: inTurn ps b := by
  induction ps generalizing a b with
  | nil => rfl
  | cons p ps ih =>
    obtain ⟨here, later⟩ := List.forall_mem_cons.mp fresh
    obtain ⟨here', later'⟩ := List.forall_mem_cons.mp bounded
    rw [inTurn_step, inTurn_step, inTurn_step, Text.replaceAll_append_cons here' here.1 here.2,
      ih later' later]

/-- A sign is kept by replacements that do not look past it, and they go over the texts around it
one by one. -/
theorem inTurn_append_sign {m : Text} (ne : m ≠ []) (bounded : ∀ c ∈ m, ∀ p ∈ ps, Bounded p c)
    (fresh : ∀ c ∈ m, ∀ p ∈ ps, Fresh p c ∧ p [] [c] = none) (a b : Text) :
    inTurn ps (a ++ (m ++ b)) = inTurn ps a ++ (m ++ inTurn ps b) := by
  have kept (m : Text) (fresh : ∀ c ∈ m, ∀ p ∈ ps, Fresh p c ∧ p [] [c] = none) :
      inTurn ps (m ++ b) = m ++ inTurn ps b := by
    induction m with
    | nil => rfl
    | cons c m ih =>
      obtain ⟨here, later⟩ := List.forall_mem_cons.mp fresh
      rw [List.cons_append, inTurn_cons here, ih later, List.cons_append]
  obtain ⟨c, m, rfl⟩ := List.exists_cons_of_ne_nil ne
  obtain ⟨here, later⟩ := List.forall_mem_cons.mp fresh
  rw [List.cons_append, inTurn_append_cons (bounded c List.mem_cons_self) here, kept m later,
    List.cons_append]

/-! ## Words that join -/

/-- The first replacements go over two texts one by one if no word goes on from one into the other. -/
theorem inTurn_joining_append {a b : Text} (apart : Stops isWord a.reverse ∨ Stops isWord b) :
    inTurn joining (a ++ b) = inTurn joining a ++ inTurn joining b := by
  rcases apart with stop | stop
  · cases a using List.reverseRecOn with
    | nil => rw [inTurn_nil]; rfl
    | append_singleton a h =>
      rw [List.reverse_append, List.reverse_singleton, List.singleton_append, stops_cons] at stop
      rw [List.append_assoc, List.singleton_append,
        inTurn_append_cons (bounded_joining stop) (fresh_joining stop),
        inTurn_append_cons (bounded_joining stop) (fresh_joining stop),
        inTurn_nil, List.append_assoc, List.singleton_append]
  · cases b with
    | nil => rw [inTurn_nil, List.append_nil, List.append_nil]
    | cons h b =>
      rw [stops_cons] at stop
      rw [inTurn_append_cons (bounded_joining stop) (fresh_joining stop), inTurn_cons (fresh_joining stop)]

theorem replaceAll_word_of_eq {keyword replacement w : Text} (spelled : w.map looseLetter = keyword)
    (ne : w ≠ []) : replaceAll (word keyword replacement) w = replacement := by
  have found : word keyword replacement [] (w ++ []) = some (replacement, []) := by
    rw [word, dropKeyword?_spelled spelled stops_nil stops_nil]
    rfl
  have pieces := Text.cutFrom_found ne found
  rw [List.append_nil] at pieces
  rw [replaceAll, Text.cut, pieces]
  exact List.append_nil replacement

theorem replaceAll_word_of_ne {keyword replacement w : Text} (letters : ∀ c ∈ w, isWord c = true)
    (other : w.map looseLetter ≠ keyword) : replaceAll (word keyword replacement) w = w := by
  refine Text.replaceAll_of_none fun x y same _ => ?_
  rw [word, dropKeyword?_of_isWord letters other same]
  rfl

end Vocabulary

def Junction.keyword : Junction → Text
  | .and => "and".toText
  | .or => "or".toText

def Junction.sign : Junction → Text
  | .and => "&&".toText
  | .or => "||".toText

theorem Junction.isWord_of_spelled (j : Junction) {w : Text} (spelled : w.map looseLetter = j.keyword) :
    ∀ c ∈ w, isWord c = true := by
  have all : ∀ k ∈ j.keyword, isWord k = true := by cases j <;> decide
  intro c mem
  rw [← isWord_looseLetter]
  exact all _ (spelled ▸ List.mem_map_of_mem mem)

namespace Vocabulary

theorem inTurn_joining_eq (t : Text) : inTurn joining t =
    replaceAll (word "or".toText ['|', '|']) (replaceAll (word "xor".toText ['!', '='])
      (replaceAll (word "and".toText ['&', '&']) t)) := rfl

theorem inTurn_joining_keyword {j : Junction} {w : Text} (spelled : w.map looseLetter = j.keyword) :
    inTurn joining w = j.sign := by
  have ne : w ≠ [] := by
    rintro rfl
    cases j <;> cases spelled
  have letters : ∀ c ∈ w, isWord c = true := j.isWord_of_spelled spelled
  rw [inTurn_joining_eq]
  cases j with
  | and =>
    have and : w.map looseLetter = "and".toText := spelled
    rw [replaceAll_word_of_eq and ne]
    decide
  | or =>
    have or : w.map looseLetter = "or".toText := spelled
    rw [replaceAll_word_of_ne letters (by rw [or]; decide),
      replaceAll_word_of_ne letters (by rw [or]; decide), replaceAll_word_of_eq or ne]
    rfl

/-- A word that does not join is kept, or it is `XOR`. -/
theorem inTurn_joining_word {w : Text} (letters : ∀ c ∈ w, isWord c = true)
    (other : ∀ j : Junction, w.map looseLetter ≠ j.keyword) :
    inTurn joining w = w ∨ inTurn joining w = "!=".toText := by
  have and : w.map looseLetter ≠ "and".toText := other .and
  have or : w.map looseLetter ≠ "or".toText := other .or
  rw [inTurn_joining_eq, replaceAll_word_of_ne letters and]
  by_cases xor : w.map looseLetter = "xor".toText
  · have ne : w ≠ [] := by
      rintro rfl
      cases xor
    right
    rw [replaceAll_word_of_eq xor ne]
    decide
  · left
    rw [replaceAll_word_of_ne letters xor, replaceAll_word_of_ne letters or]

end Vocabulary

/-! ## Signs in code -/

/-- What nests or joins in a condition. -/
inductive Sign where
  | opening | closing
  | junction (j : Junction)

namespace Sign

def text : Sign → Text
  | opening => "(".toText
  | closing => ")".toText
  | junction j => j.sign

/-- Whether a text stands for a sign between two others: a parenthesis, or a keyword as a whole word. -/
def Stands (x m y : Text) : Sign → Prop
  | opening => m = "(".toText
  | closing => m = ")".toText
  | junction j => m.map looseLetter = j.keyword ∧ Stops isWord x.reverse ∧ Stops isWord y

theorem Stands.narrow {s : Sign} {m : Text} (a x y b : Text) (h : s.Stands (a ++ x) m (y ++ b)) :
    s.Stands x m y := by
  cases s with
  | opening => exact h
  | closing => exact h
  | junction j =>
    obtain ⟨spelled, before, behind⟩ := h
    rw [List.reverse_append] at before
    exact ⟨spelled, before.of_append, behind.of_append⟩

theorem Stands.extend {s : Sign} {x m y : Text} (h : s.Stands x m y) {c : CodePoint} (mark : isWord c = false)
    (rest : Text) : s.Stands x m (y ++ c :: rest) := by
  cases s with
  | opening => exact h
  | closing => exact h
  | junction j =>
    obtain ⟨spelled, before, behind⟩ := h
    refine ⟨spelled, before, ?_⟩
    cases y with
    | nil => exact stops_cons.mpr mark
    | cons d y => exact behind.append (List.cons_ne_nil d y)

theorem Stands.isQuotable {s : Sign} {x m y : Text} (h : s.Stands x m y) :
    ∀ c ∈ m, Term.isQuotable c = true := by
  cases s with
  | opening =>
    have same : m = "(".toText := h
    rw [same]
    decide
  | closing =>
    have same : m = ")".toText := h
    rw [same]
    decide
  | junction j => exact fun c mem => Term.isQuotable_of_isWord (j.isWord_of_spelled h.1 c mem)

theorem text_mem (s : Sign) : s.text ∈ Token.signs := by
  rcases s with _ | _ | _ | _ <;> decide

theorem text_hard (s : Sign) : s.text ≠ [] ∧ ∀ c ∈ s.text, isHard c = true := by
  rcases s with _ | _ | _ | _ <;> decide

end Sign

namespace Vocabulary

theorem symbolizeCode_sign {s : Sign} {x m y : Text} (stands : s.Stands x m y) :
    symbolizeCode (x ++ (m ++ y)) = symbolizeCode x ++ (s.text ++ symbolizeCode y) := by
  obtain ⟨ne, hard⟩ := s.text_hard
  have edge (c : CodePoint) (mem : c ∈ s.text) : isEdge c = true := isEdge_of_isHard (hard c mem)
  have first : inTurn joining (x ++ (m ++ y)) = inTurn joining x ++ (s.text ++ inTurn joining y) := by
    have sign : inTurn joining (x ++ (s.text ++ y)) = inTurn joining x ++ (s.text ++ inTurn joining y) :=
      inTurn_append_sign ne (fun c mem => bounded_joining (isWord_of_isEdge (edge c mem)))
        (fun c mem => fresh_joining (isWord_of_isEdge (edge c mem))) x y
    cases s with
    | opening =>
      have same : m = Sign.opening.text := stands
      rw [same, sign]
    | closing =>
      have same : m = Sign.closing.text := stands
      rw [same, sign]
    | junction j =>
      obtain ⟨spelled, before, behind⟩ := stands
      rw [inTurn_joining_append (.inl before), inTurn_joining_append (.inr behind),
        inTurn_joining_keyword spelled]
      rfl
  have second (a b : Text) : inTurn (negation :: others) (a ++ (s.text ++ b)) =
      inTurn (negation :: others) a ++ (s.text ++ inTurn (negation :: others) b) := by
    refine inTurn_append_sign ne (fun c mem => ?_) (fun c mem p among => ?_) a b
    · have visible : isBlank c = false := isBlank_of_isHard (hard c mem)
      exact List.forall_mem_cons.mpr
        ⟨bounded_negation (isWord_of_isEdge (edge c mem)) visible, bounded_others (edge c mem)⟩
    · rcases List.mem_cons.mp among with rfl | among
      · exact fresh_negation (isWord_of_isEdge (edge c mem))
      · exact fresh_replacements (edge c mem) p (mem_of_mem_others among)
  rw [symbolizeCode_eq, symbolizeCode_eq, symbolizeCode_eq, first, second]

/-! ## Code without marks -/

/-- Whether a character can stand in code without marks. -/
def isSoft (c : CodePoint) : Bool := !isHard c && Term.isQuotable c

/-- Code without parentheses, the signs that join, quotes, and words that join. -/
def Loose (t : Text) : Prop :=
  Worded (fun w => ∀ j : Junction, w.map looseLetter ≠ j.keyword) (fun c => isSoft c = true) t

theorem isSoft_of_isWord {c : CodePoint} (word : isWord c = true) : isSoft c = true := by
  have hard : isHard c = false := by
    rw [Bool.eq_false_iff]
    intro hard
    rw [isWord_of_isBar (by rw [isBar, hard, Bool.or_true])] at word
    cases word
  rw [isSoft, hard, Term.isQuotable_of_isWord word]
  rfl

theorem isSoft_inTurn_joining {t : Text} (loose : Loose t) : ∀ c ∈ inTurn joining t, isSoft c = true := by
  have word {w : Text} (letters : ∀ c ∈ w, isWord c = true)
      (other : ∀ j : Junction, w.map looseLetter ≠ j.keyword) :
      ∀ c ∈ inTurn joining w, isSoft c = true := by
    rcases inTurn_joining_word letters other with same | same
    · rw [same]
      exact fun c mem => isSoft_of_isWord (letters c mem)
    · rw [same]
      decide
  induction loose with
  | last letters fits => exact word letters fits
  | @cons w t h letters fits mark allowed _ ih =>
    have stop : Stops isWord (h :: t) := stops_cons.mpr mark
    have alone : Stops isWord [h].reverse := stops_cons.mpr mark
    have kept : inTurn joining [h] = [h] := by rw [inTurn_cons (fresh_joining mark), inTurn_nil]
    intro c mem
    rw [inTurn_joining_append (.inr stop), ← List.singleton_append, inTurn_joining_append (.inl alone), kept,
      List.mem_append, List.mem_append, List.mem_singleton] at mem
    rcases mem with mem | rfl | mem
    · exact word letters fits c mem
    · exact allowed
    · exact ih c mem

/-- The other replacements bring no sign that joins or nests. -/
theorem isSoft_symbolizeCode {t : Text} (loose : Loose t) : ∀ c ∈ symbolizeCode t, isSoft c = true := by
  have put : ∀ p ∈ negation :: others, ∀ back y v rest, p back y = some (v, rest) →
      ∀ c ∈ v, isSoft c = true := by
    have constant {replacement : Text} {o : Option Text} {f : Text → Text} {v rest : Text}
        (soft : ∀ c ∈ replacement, isSoft c = true)
        (h : o.map (fun after => (replacement, f after)) = some (v, rest)) : ∀ c ∈ v, isSoft c = true := by
      obtain ⟨after, -, same⟩ := Option.map_eq_some_iff.mp h
      rw [← (Prod.mk.inj same).1]
      exact soft
    intro p mem back y v rest h
    simp only [others, replacements, List.drop_succ_cons, List.drop_zero, List.mem_cons,
      List.not_mem_nil, or_false] at mem
    rcases mem with rfl | rfl | rfl | rfl | rfl | rfl
    · exact constant (by decide) h
    · exact constant (f := id) (by decide) h
    · exact constant (f := id) (by decide) h
    · exact constant (f := id) (by decide) h
    · unfold inequality at h
      split at h
      · cases h
        decide
      · cases h
    · unfold equality at h
      split at h
      · split at h
        · cases h
        · cases h
          decide
      · cases h
  rw [symbolizeCode_eq]
  have start := isSoft_inTurn_joining loose
  generalize inTurn joining t = u at start
  have general (ps : List (Pattern Text))
      (put : ∀ p ∈ ps, ∀ back y v rest, p back y = some (v, rest) → ∀ c ∈ v, isSoft c = true)
      (u : Text) (start : ∀ c ∈ u, isSoft c = true) : ∀ c ∈ inTurn ps u, isSoft c = true := by
    induction ps generalizing u with
    | nil => exact start
    | cons p ps ih =>
      obtain ⟨here, later⟩ := List.forall_mem_cons.mp put
      exact ih later _ (Text.forall_mem_replaceAll start here)
  exact general _ put u start

end Vocabulary

/-! ## Strings between code -/

inductive Pieced (code : Text → Prop) : Text → Prop where
  | code {c : Text} (here : code c) : Pieced code c
  | string {c q t : Text} (here : code c) (quoted : Item.IsString q) (later : Pieced code t) :
      Pieced code (c ++ (q ++ t))

theorem Pieced.mono {code code' : Text → Prop} {t : Text} (h : Pieced code t) (imp : ∀ c, code c → code' c) :
    Pieced code' t := by
  induction h with
  | code here => exact .code (imp _ here)
  | string here quoted _ ih => exact .string (imp _ here) quoted ih

/-- Code without quotes. -/
def Unquoted (c : Text) : Prop := ∀ d ∈ c, Term.isQuotable d = true

theorem unquoted_nil : Unquoted [] := by simp [Unquoted]

theorem Unquoted.append {a b : Text} (first : Unquoted a) (second : Unquoted b) : Unquoted (a ++ b) :=
  fun c mem => (List.mem_append.mp mem).elim (first c) (second c)

theorem Unquoted.concat {t : Text} {c : CodePoint} (plain : Unquoted t) (visible : Term.isQuotable c = true) :
    Unquoted (t ++ [c]) :=
  plain.append (by simpa [Unquoted] using visible)

theorem isQuotable_of_isBlank {b : CodePoint} (blank : isBlank b = true) : Term.isQuotable b = true :=
  forall_blank (P := Term.isQuotable) (by decide) blank

namespace Vocabulary

theorem unquoted_of_loose {t : Text} (loose : Loose t) : Unquoted t :=
  loose.forall_mem (fun _ => Term.isQuotable_of_isWord) fun c soft => by
    rw [isSoft, Bool.and_eq_true] at soft
    exact soft.2

theorem cutFrom_stringLiteral (back t : Text) :
    Text.cutFrom stringLiteral 0 back t = Text.cut stringLiteral t := by
  have alone : Text.LocalOn stringLiteral back t [] := by
    intro x y _ _
    rw [List.append_nil, stringLiteral, stringLiteral]
    cases Lexeme.string? y <;> simp
  have whole := Text.cutFrom_local alone
  rwa [List.append_nil, Text.cutFrom, List.append_nil] at whole

/-- Code without quotes holds no string. -/
theorem ofText_unquoted {c : Text} (plain : Unquoted c) : Alternation.ofText c = ⟨c, []⟩ := by
  have pieces := Text.cutFrom_misses (Item.misses_stringLiteral plain [] [])
  rw [List.append_nil, Text.cutFrom] at pieces
  rw [Alternation.ofText, Text.cut, pieces, Item.ofPieces_plain]
  simp [Alternation.ofPieces]

theorem symbolize_code {c : Text} (plain : Unquoted c) : symbolize c = symbolizeCode c := by
  rw [symbolize, ofText_unquoted plain]
  simp [Alternation.mapCode, Alternation.text]

theorem symbolize_string {c q : Text} (plain : Unquoted c) (quoted : Item.IsString q) (t : Text) :
    symbolize (c ++ (q ++ t)) = symbolizeCode c ++ (q ++ symbolize t) := by
  have found (back : Text) : stringLiteral back (q ++ t) = some ((), t) := by
    rw [stringLiteral, quoted.read]
    rfl
  have pieces : Text.cut stringLiteral (c ++ (q ++ t)) =
      c.map .plain ++ .found q () :: Text.cut stringLiteral t := by
    rw [Text.cut, Text.cutFrom_misses (Item.misses_stringLiteral plain [] _),
      Text.cutFrom_found quoted.ne (found _), cutFrom_stringLiteral]
  rw [symbolize, symbolize, Alternation.ofText, Alternation.ofText, pieces, Item.ofPieces_plain]
  simp [Alternation.ofPieces, Alternation.mapCode, Alternation.text]

/-- A text around a sign is replaced as if it stood alone. -/
theorem symbolize_sign {s : Sign} {x m y : Text} (first : Pieced Unquoted x) (second : Pieced Unquoted y)
    (stands : s.Stands x m y) : symbolize (x ++ (m ++ y)) = symbolize x ++ (s.text ++ symbolize y) := by
  have code {c d : Text} (plain : Unquoted c) (plain' : Unquoted d) : Unquoted (c ++ (m ++ d)) := by
    intro k mem
    rw [List.mem_append, List.mem_append] at mem
    rcases mem with mem | mem | mem
    · exact plain k mem
    · exact stands.isQuotable k mem
    · exact plain' k mem
  induction first with
  | @code c plain =>
    cases second with
    | code plain' =>
      rw [symbolize_code (code plain plain'), symbolize_code plain, symbolize_code plain',
        symbolizeCode_sign stands]
    | @string d q t plain' quoted _ =>
      have near : s.Stands c m d := stands.narrow [] c d (q ++ t)
      have regroup : c ++ (m ++ (d ++ (q ++ t))) = (c ++ (m ++ d)) ++ (q ++ t) := by simp
      rw [regroup, symbolize_string (code plain plain') quoted, symbolize_code plain,
        symbolize_string plain' quoted, symbolizeCode_sign near]
      simp
  | @string c q t plain quoted _ ih =>
    have near : s.Stands t m y := by
      have split : c ++ (q ++ t) = (c ++ q) ++ t := by simp
      rw [split, ← List.append_nil y] at stands
      exact stands.narrow (c ++ q) t y []
    rw [List.append_assoc, List.append_assoc, symbolize_string plain quoted,
      symbolize_string plain quoted, ih near]
    simp

/-- A text without marks becomes one without the signs of marks. -/
theorem barless_symbolize {t : Text} (h : Pieced Loose t) : Lexeme.Barless (symbolize t) := by
  have code {c : Text} (loose : Loose c) : Lexeme.Barless (symbolizeCode c) := by
    refine Lexeme.barless_of_code fun d mem => ?_
    have soft := isSoft_symbolizeCode loose d mem
    rwa [isSoft, Bool.and_eq_true, Bool.not_eq_true'] at soft
  induction h with
  | code loose =>
    rw [symbolize_code (unquoted_of_loose loose)]
    exact code loose
  | string loose quoted _ ih =>
    rw [symbolize_string (unquoted_of_loose loose) quoted]
    exact (code loose).append (.string quoted ih)

/-! ## Blanks around a text -/

theorem symbolizeCode_cons {b : CodePoint} (blank : isBlank b = true) (t : Text) :
    symbolizeCode (b :: t) = b :: symbolizeCode t :=
  inTurn_cons (fresh_replacements (isEdge_of_isBar (by rw [isBar, blank]; rfl))) t

theorem symbolize_cons {b : CodePoint} (blank : isBlank b = true) {t : Text} (h : Pieced Unquoted t) :
    symbolize (b :: t) = b :: symbolize t := by
  have visible := isQuotable_of_isBlank blank
  cases h with
  | code plain =>
    rw [symbolize_code (List.forall_mem_cons.mpr ⟨visible, plain⟩), symbolize_code plain,
      symbolizeCode_cons blank]
  | string plain quoted later =>
    rw [← List.cons_append, symbolize_string (List.forall_mem_cons.mpr ⟨visible, plain⟩) quoted,
      symbolize_string plain quoted, symbolizeCode_cons blank, List.cons_append]

theorem fronts_negation : Text.Fronts negation := by
  intro back t v rest h
  obtain ⟨after, found, same⟩ := Option.map_eq_some_iff.mp h
  obtain ⟨-, rfl⟩ := Prod.mk.inj same
  obtain ⟨m, rfl, loose, -, -⟩ := spelled_of_dropKeyword? found
  have whole := List.takeWhile_append_dropWhile (p := isBlank) (l := after)
  refine ⟨m ++ after.takeWhile isBlank, ?_, by rw [List.append_assoc, whole]⟩
  intro nothing
  obtain ⟨rfl, -⟩ := List.append_eq_nil_iff.mp nothing
  cases loose

theorem negation_append {b : CodePoint} (blank : isBlank b = true) {back m rest v : Text}
    (h : negation back (m ++ rest) = some (v, rest)) :
    negation back (m ++ rest ++ [b]) = some (v, if rest.isEmpty then [] else rest ++ [b]) := by
  have mark : isWord b = false := isWord_of_isBlank blank
  obtain ⟨after, found, same⟩ := Option.map_eq_some_iff.mp h
  obtain ⟨rfl, left⟩ := Prod.mk.inj same
  have more : dropKeyword? "not".toText back (m ++ rest ++ [b]) = some (after ++ [b]) := by
    have := (@dropKeyword?_append_cons _ back [] (m ++ rest) [] b
      (by decide : ∀ k ∈ "not".toText, isWord k = true) mark).1
    rw [this, found]
    rfl
  rw [negation, more, Option.map_some]
  congr 2
  cases rest with
  | nil =>
    rw [List.dropWhile_eq_nil_iff] at left
    rw [if_pos List.isEmpty_nil, List.dropWhile_eq_nil_iff]
    intro c mem
    rw [List.mem_append, List.mem_singleton] at mem
    rcases mem with mem | rfl
    · exact left c mem
    · exact blank
  | cons c rest => exact (takeWhile_append_of_ne_nil left [b]).2

theorem replaceAll_negation_append {b : CodePoint} (blank : isBlank b = true) (t : Text) :
    replaceAll negation (t ++ [b]) = replaceAll negation t ++ [b] ∨
      replaceAll negation (t ++ [b]) = replaceAll negation t := by
  have mark : isWord b = false := isWord_of_isBlank blank
  have general {back t : Text} {pieces : List (Piece Text)} (h : Text.Cuts negation back t pieces) :
      (Text.cutFrom negation 0 back (t ++ [b])).flatMap Piece.replaced =
        pieces.flatMap Piece.replaced ++ [b] ∨
        (Text.cutFrom negation 0 back (t ++ [b])).flatMap Piece.replaced = pieces.flatMap Piece.replaced := by
    induction h with
    | done back =>
      left
      rw [List.nil_append, (fresh_negation mark).1.cutFrom, Text.cut, Text.cutFrom, (fresh_negation mark).2]
      rfl
    | @plain back rest c pieces missed _ ih =>
      have here : negation back (c :: (rest ++ [b])) = none := by
        rw [negation, Option.map_eq_none_iff] at missed ⊢
        have := (@dropKeyword?_append_cons _ back [] (c :: rest) [] b
          (by decide : ∀ k ∈ "not".toText, isWord k = true) mark).1
        rw [List.cons_append] at this
        rw [this, missed]
        rfl
      rw [List.cons_append, Text.cutFrom, here, List.flatMap_cons, List.flatMap_cons]
      rcases ih with same | same <;> rw [same]
      · left
        rw [List.append_assoc]
      · right
        rfl
    | @found back m rest v pieces ne here later ih =>
      have here' := negation_append blank here
      cases rest with
      | nil =>
        right
        obtain rfl : [] = pieces := later.cutFrom_eq
        rw [List.append_nil] at here' ⊢
        have single := Text.cutFrom_found (b := []) (a := m ++ [b]) (by simp) (by simpa using here')
        rw [List.append_nil] at single
        rw [single]
        rfl
      | cons c rest =>
        rw [List.append_assoc] at here' ⊢
        rw [Text.cutFrom_found ne here', List.flatMap_cons, List.flatMap_cons]
        rcases ih with same | same <;> rw [same]
        · left
          rw [List.append_assoc]
        · right
          rfl
  exact general (Text.cuts_cut fronts_negation t)

theorem symbolizeCode_append {b : CodePoint} (blank : isBlank b = true) (t : Text) :
    symbolizeCode (t ++ [b]) = symbolizeCode t ++ [b] ∨ symbolizeCode (t ++ [b]) = symbolizeCode t := by
  have edge : isEdge b = true := isEdge_of_isBar (by rw [isBar, blank]; rfl)
  have mark := isWord_of_isEdge edge
  have first : inTurn joining (t ++ [b]) = inTurn joining t ++ [b] := by
    rw [inTurn_append_cons (bounded_joining mark) (fresh_joining mark), inTurn_nil]
  have fresh : ∀ p ∈ others, Fresh p b ∧ p [] [b] = none :=
    fun p mem => fresh_replacements edge p (mem_of_mem_others mem)
  rw [symbolizeCode_eq, symbolizeCode_eq, first, inTurn_step, inTurn_step]
  rcases replaceAll_negation_append blank (inTurn joining t) with same | same
  · left
    rw [same, inTurn_append_cons (bounded_others edge) fresh, inTurn_nil]
  · right
    rw [same]

theorem symbolize_append {b : CodePoint} (blank : isBlank b = true) {t : Text} (h : Pieced Unquoted t) :
    symbolize (t ++ [b]) = symbolize t ++ [b] ∨ symbolize (t ++ [b]) = symbolize t := by
  induction h with
  | @code c plain =>
    rw [symbolize_code (plain.concat (isQuotable_of_isBlank blank)), symbolize_code plain]
    exact symbolizeCode_append blank c
  | string plain quoted _ ih =>
    rw [List.append_assoc, List.append_assoc, symbolize_string plain quoted, symbolize_string plain quoted]
    rcases ih with same | same <;> rw [same]
    · left
      simp
    · right
      rfl

end Vocabulary
end SclNarrator
