import Mathlib.Data.List.Induction
import SclNarrator.Proofs.Expr.Literals
import SclNarrator.Proofs.Text.Keyword

/-!
Operator words become symbols item by item. Each of the replacements sees an item as it would see it
alone (`Polite`), because no word goes on over the ends of an item; so the symbolic form of a text of
items is made up of the symbolic forms of the items (`symbolizeCode_items`).
-/

namespace SclNarrator

open Text Vocabulary

namespace Item

variable {α : Type}

/-- Whether a text can stand as a word: it starts with something other than a blank, and has no
negation in it. -/
def isSolid (u : Text) : Bool :=
  !u.isEmpty && !u.head?.any isBlank && !Construct.mentions "not".toText u

/-- Whether a text can stand for an item while the replacements are made. -/
def isGood : Item α → Text → Bool
  | space, u => u == " ".toText
  | not, u => u == "NOT ".toText || u == "!".toText
  | mark .opening, u | leaf _, u => isSolid u && u.head? != some (.char '=')
  | mark _, u => isSolid u

/-- What may be written before an item. `back` is the text before it, reversed. -/
def Behind (b : Item α) (back : Text) : Prop :=
  b = space ∨ (Stops isWord back ∧ (b.isStart = true ∨ b = not ∨ Stops extendsEquals back))

def Before (b : Item α) (rest : Text) : Prop :=
  match b with
  | space | not => Stops isBlank rest
  | mark _ | leaf _ => Ends rest

theorem isSolid_iff {u : Text} : isSolid u = true ↔
    u ≠ [] ∧ Stops isBlank u ∧ Construct.mentions "not".toText u = false := by
  simp [isSolid, any_head_eq_false, and_assoc]

variable {a b : Item α} {u v back rest : Text}

theorem isSolid_of_isGood (good : b.isGood u = true) (ne : b ≠ space) (ne' : b ≠ not) :
    isSolid u = true := by
  rcases b with _ | _ | (_ | _ | _ | o) | x
  · exact absurd rfl ne
  · exact absurd rfl ne'
  · exact (Bool.and_eq_true _ _ ▸ good).1
  · exact good
  · exact good
  · exact good
  · exact (Bool.and_eq_true _ _ ▸ good).1

theorem start_of_isGood (good : b.isGood v = true) (ne : b ≠ space) : v ≠ [] ∧ Stops isBlank v := by
  by_cases negation : b = not
  · subst negation
    simp only [isGood, Bool.or_eq_true, beq_iff_eq] at good
    rcases good with rfl | rfl
    · exact ⟨by decide, stops_cons.mpr (by decide)⟩
    · exact ⟨by decide, stops_cons.mpr (by decide)⟩
  · obtain ⟨nonempty, start, -⟩ := isSolid_iff.mp (isSolid_of_isGood good ne negation)
    exact ⟨nonempty, start⟩

theorem ne_space_of_isStart (h : b.isStart = true) : b ≠ space := by
  rintro rfl
  cases h

theorem ends_space (good : (space : Item α).isGood v = true) (rest : Text) : Ends (v ++ rest) := by
  rw [beq_iff_eq.mp good]
  exact stops_cons.mpr rfl

theorem before_append (good : b.isGood v = true) (h : a.meets b = true) (rest : Text) :
    a.Before (v ++ rest) := by
  cases a with
  | space =>
    have ne : b ≠ space := by
      rintro rfl
      cases h
    obtain ⟨nonempty, start⟩ := start_of_isGood good ne
    exact start.append nonempty
  | not =>
    obtain ⟨nonempty, start⟩ := start_of_isGood good (ne_space_of_isStart h)
    exact start.append nonempty
  | mark m =>
    obtain rfl := eq_space_of_meets h (by simp) (by simp)
    exact ends_space good rest
  | leaf x =>
    obtain rfl := eq_space_of_meets h (by simp) (by simp)
    exact ends_space good rest

theorem behind_append (good : a.isGood u = true) (h : a.meets b = true) (back : Text) :
    b.Behind (u.reverse ++ back) := by
  cases a with
  | space =>
    rw [beq_iff_eq.mp good]
    exact .inr ⟨stops_cons.mpr (by decide), .inr (.inr (stops_cons.mpr (by decide)))⟩
  | not =>
    refine .inr ⟨?_, .inl h⟩
    simp only [isGood, Bool.or_eq_true, beq_iff_eq] at good
    rcases good with rfl | rfl
    · exact stops_cons.mpr (by decide)
    · exact stops_cons.mpr (by decide)
  | mark m => exact .inl (eq_space_of_meets h (by simp) (by simp))
  | leaf x => exact .inl (eq_space_of_meets h (by simp) (by simp))

/-- Whether a pattern sees the items of a text as it would see them alone. -/
def Polite (α : Type) (p : Pattern Text) : Prop :=
  ∀ (b : Item α) (u back rest : Text), b.isGood u = true → b.Behind back → b.Before rest →
    LocalOn p back u rest

theorem replaceAll_items {p : Pattern Text} {s : Item α → Text} {items : List (Item α)}
    (polite : Polite α p) (good : ∀ b ∈ items, b.isGood (s b) = true)
    (chain : items.IsChain fun a b => a.meets b = true) :
    replaceAll p (items.flatMap s) = items.flatMap fun b => replaceAll p (s b) := by
  have general : ∀ back, (∀ b ∈ items.head?, b.Behind back) →
      (cutFrom p 0 back (items.flatMap s)).flatMap Piece.replaced
        = items.flatMap fun b => replaceAll p (s b) := by
    induction items with
    | nil => intro back _; rfl
    | cons b rest ih =>
      intro back behind
      have here := good b List.mem_cons_self
      have before : b.Before (rest.flatMap s) := by
        cases rest with
        | nil => cases b <;> exact stops_nil
        | cons next more =>
          exact before_append (good next (by simp)) (List.isChain_cons_cons.mp chain).1 _
      have seen := polite b (s b) back (rest.flatMap s) here (behind b rfl) before
      rw [List.flatMap_cons, replaced_local seen, List.flatMap_cons,
        ih (fun other mem => good other (List.mem_cons_of_mem _ mem)) chain.tail]
      intro next mem
      exact behind_append here (chain.rel_head? mem) back
  refine general [] fun b mem => ?_
  exact .inr ⟨stops_nil, .inr (.inr stops_nil)⟩

/-! ## The replacements -/

theorem exists_last_of_not (good : (not : Item α).isGood u = true) :
    ∃ first last, u = first ++ [last] ∧ isWord last = false ∧ last ≠ '<' ∧ last ≠ '=' := by
  simp only [isGood, Bool.or_eq_true, beq_iff_eq] at good
  rcases good with rfl | rfl
  · exact ⟨"NOT".toText, .char ' ', rfl, by decide, by decide, by decide⟩
  · exact ⟨[], .char '!', rfl, by decide, by decide, by decide⟩

theorem eq_of_space {x y : Text} (good : (space : Item α).isGood u = true) (same : u = x ++ y)
    (ne : y ≠ []) : x = [] ∧ y = [.char ' '] := by
  have whole : x ++ y = [.char ' '] := same ▸ beq_iff_eq.mp good
  rcases List.append_eq_singleton_iff.mp whole with h | h
  · exact h
  · exact absurd h.2 ne

theorem dropKeyword?_space {k : CodePoint} {letters : Text} (word : isWord k = true) (back rest : Text) :
    dropKeyword? (k :: letters) back (.char ' ' :: rest) = none := by
  have other : looseLetter (.char ' ') ≠ k := by
    rintro rfl
    exact absurd word (by decide)
  unfold dropKeyword?
  simp only [dropLoose?, if_neg other]
  split <;> rfl

theorem dropKeyword?_item {letters : Text} (words : ∀ k ∈ letters, isWord k = true) (ne : letters ≠ [])
    (good : b.isGood u = true) (behind : b.Behind back) (before : b.Before rest) {x y : Text}
    (same : u = x ++ y) (nonempty : y ≠ []) :
    dropKeyword? letters (x.reverse ++ back) (y ++ rest)
      = (dropKeyword? letters x.reverse y).map (· ++ rest) := by
  obtain ⟨k, letters, rfl⟩ := List.exists_cons_of_ne_nil ne
  cases b with
  | space =>
    obtain ⟨rfl, rfl⟩ := eq_of_space good same nonempty
    have word := words k List.mem_cons_self
    rw [List.singleton_append, dropKeyword?_space word, dropKeyword?_space word]
    rfl
  | not =>
    obtain ⟨first, last, ends, outside, -, -⟩ := exists_last_of_not good
    obtain ⟨stop, -⟩ := behind.resolve_left (by simp)
    obtain ⟨y, d, rfl⟩ := (List.eq_nil_or_concat' y).resolve_left nonempty
    have same : d = last := by
      rw [same, ← List.append_assoc] at ends
      simpa using (List.append_inj' ends rfl).2
    subst same
    rw [List.append_assoc, List.singleton_append,
      dropKeyword?_append words stop (stops_cons.mpr outside)]
    have alone := @dropKeyword?_append x.reverse y [] [d] _ words stops_nil (stops_cons.mpr outside)
    rw [List.append_nil] at alone
    rw [alone, Option.map_map]
    congr 1
    funext after
    simp
  | mark m =>
    obtain ⟨stop, -⟩ := behind.resolve_left (by simp)
    exact dropKeyword?_append words stop (Ends.stops before (by decide))
  | leaf a =>
    obtain ⟨stop, -⟩ := behind.resolve_left (by simp)
    exact dropKeyword?_append words stop (Ends.stops before (by decide))

theorem polite_word {letters replacement : Text} (words : ∀ k ∈ letters, isWord k = true)
    (ne : letters ≠ []) : Polite α (Vocabulary.word letters replacement) := by
  intro b u back rest good behind before x y same nonempty
  rw [Vocabulary.word, Vocabulary.word, dropKeyword?_item words ne good behind before same nonempty,
    Option.map_map, Option.map_map]
  rfl

theorem polite_negation : Polite α negation := by
  intro b u back rest good behind before x y same nonempty
  have words : ∀ k ∈ ("not".toText : Text), isWord k = true := by decide
  have seen := dropKeyword?_item words (by decide) good behind before same nonempty
  rw [negation, negation, seen, Option.map_map, Option.map_map]
  -- A negation in an item takes the blanks of the item and no more: behind it comes no blank.
  have blanks : Stops isBlank rest ∨ dropKeyword? "not".toText x.reverse y = none := by
    by_cases word : b = space ∨ b = not
    · rcases word with rfl | rfl <;> exact .inl before
    · rw [not_or] at word
      have solid := isSolid_iff.mp (isSolid_of_isGood good word.1 word.2)
      exact .inr (dropKeyword?_of_not_mentions solid.2.2 same)
  rcases blanks with stop | none
  · congr 1
    funext after
    simp [dropWhile_append_stops after stop]
  · rw [none]
    rfl

theorem head?_of_last {c d : CodePoint} {x : Text} (good : b.isGood u = true) (before : b.Before rest)
    (same : u = x ++ [c]) (sign : c = '<' ∨ c = '=') (other : d ≠ ' ') : rest.head? ≠ some d := by
  have ends : Ends rest := by
    cases b with
    | space =>
      obtain ⟨-, space⟩ := eq_of_space good same (by simp)
      rcases sign with rfl | rfl <;> cases space
    | not =>
      obtain ⟨first, last, whole, -, less, equals⟩ := exists_last_of_not good
      rw [same] at whole
      have : c = last := by simpa using (List.append_inj' whole rfl).2
      rcases sign with rfl | rfl
      · exact absurd this.symm less
      · exact absurd this.symm equals
    | mark m => exact before
    | leaf a => exact before
  intro head
  have := ends d head
  simp only [bne_eq_false_iff_eq] at this
  exact other this

theorem inequality_cons_cons (back t : Text) (c d : CodePoint) :
    inequality back (c :: d :: t)
      = if c = '<' ∧ d = '>' then some ([.char '!', .char '='], t) else none := by
  unfold inequality
  split
  · next same =>
    obtain ⟨rfl, rest⟩ := List.cons.inj same
    obtain ⟨rfl, rfl⟩ := List.cons.inj rest
    rfl
  · next other =>
    rw [if_neg]
    rintro ⟨rfl, rfl⟩
    exact other t rfl

theorem inequality_of_head? {t back : Text} {c : CodePoint} (h : c = '<' → t.head? ≠ some (.char '>')) :
    inequality back (c :: t) = none := by
  unfold inequality
  split
  · next same =>
    obtain ⟨rfl, rfl⟩ := List.cons.inj same
    exact absurd rfl (h rfl)
  · rfl

theorem polite_inequality : Polite α inequality := by
  intro b u back rest good behind before x y same nonempty
  obtain ⟨c, y, rfl⟩ := List.exists_cons_of_ne_nil nonempty
  cases y with
  | cons d y =>
    rw [List.cons_append, List.cons_append, inequality_cons_cons, inequality_cons_cons]
    split <;> rfl
  | nil =>
    have apart (less : c = '<') : rest.head? ≠ some (.char '>') :=
      head?_of_last good before same (.inl less) (by decide)
    rw [List.singleton_append, inequality_of_head? apart, inequality_of_head? (by simp)]
    rfl

theorem equality_cons (back t : Text) (c : CodePoint) :
    equality back (c :: t) =
      if c = '=' ∧ back.head?.any extendsEquals = false ∧ t.head? ≠ some (.char '=') then
        some ([.char '=', .char '='], t)
      else none := by
  unfold equality
  split
  · next same =>
    obtain ⟨rfl, rfl⟩ := List.cons.inj same
    by_cases left : back.head?.any extendsEquals <;> by_cases right : t.head? = some (.char '=') <;>
      simp [left, right]
  · next other =>
    rw [if_neg]
    rintro ⟨rfl, -⟩
    exact other t rfl

/-- An equals sign at the start of an item has no other sign before it. -/
theorem stops_of_equals {y : Text} (good : b.isGood (.char '=' :: y) = true) (behind : b.Behind back) :
    Stops extendsEquals back := by
  rcases behind with rfl | ⟨-, start | rfl | stop⟩
  · cases good
  · rcases b with _ | _ | (_ | _ | _ | o) | x <;> cases start <;> simp [isGood] at good
  · cases good
  · exact stop

theorem polite_equality : Polite α equality := by
  intro b u back rest good behind before x y same nonempty
  obtain ⟨c, y, rfl⟩ := List.exists_cons_of_ne_nil nonempty
  rw [List.cons_append, equality_cons, equality_cons]
  by_cases equals : c = '='
  · subst equals
    have left : (x.reverse ++ back).head?.any extendsEquals = x.reverse.head?.any extendsEquals := by
      cases x using List.reverseRecOn with
      | nil =>
        subst same
        exact any_head_eq_false.mpr (stops_of_equals good behind)
      | append_singleton x d => simp
    have right : (y ++ rest).head? = some (.char '=') ↔ y.head? = some (.char '=') := by
      cases y with
      | nil => simpa using head?_of_last good before same (.inr rfl) (by decide)
      | cons d y => rfl
    simp only [left, right, ne_eq]
    split <;> rfl
  · simp [equals]

theorem polite_replacements : ∀ p ∈ replacements, Polite α p := by
  have word (letters replacement : Text) (h : letters.all isWord && !letters.isEmpty) :
      Polite α (Vocabulary.word letters replacement) := by
    simp only [Bool.and_eq_true, List.all_eq_true, Bool.not_eq_true', List.isEmpty_eq_false_iff] at h
    exact polite_word h.1 h.2
  intro p mem
  simp only [replacements, List.mem_cons, List.not_mem_nil, or_false] at mem
  rcases mem with rfl | rfl | rfl | rfl | rfl | rfl | rfl | rfl | rfl
  · exact word _ _ (by decide)
  · exact word _ _ (by decide)
  · exact word _ _ (by decide)
  · exact polite_negation
  · exact word _ _ (by decide)
  · exact word _ _ (by decide)
  · exact word _ _ (by decide)
  · exact polite_inequality
  · exact polite_equality

/-! ## All of them, one after the other -/

def stages : List (Pattern Text) → Text → List Text
  | [], _ => []
  | p :: ps, u => u :: stages ps (replaceAll p u)

/-- Whether an item that is written `u` can stand there through all of the replacements, which make `v`
of it. -/
structure Symbolizes (b : Item α) (u v : Text) : Prop where
  kept : (stages replacements u).all b.isGood = true
  eq : symbolizeCode u = v

theorem foldl_items {ps : List (Pattern Text)} {s : Item α → Text} {items : List (Item α)}
    (polite : ∀ p ∈ ps, Polite α p)
    (good : ∀ b ∈ items, ∀ v ∈ stages ps (s b), b.isGood v = true)
    (chain : items.IsChain fun a b => a.meets b = true) :
    ps.foldl (fun t p => replaceAll p t) (items.flatMap s)
      = items.flatMap fun b => ps.foldl (fun t p => replaceAll p t) (s b) := by
  induction ps generalizing s with
  | nil => rfl
  | cons p ps ih =>
    have now : ∀ b ∈ items, b.isGood (s b) = true := fun b mem => good b mem _ List.mem_cons_self
    have later : ∀ b ∈ items, ∀ v ∈ stages ps (replaceAll p (s b)), b.isGood v = true :=
      fun b mem v among => good b mem v (List.mem_cons_of_mem _ among)
    simp only [List.foldl_cons]
    rw [replaceAll_items (polite p List.mem_cons_self) now chain,
      ih (fun p mem => polite p (List.mem_cons_of_mem _ mem)) later]

/-- Operator words become symbols item by item. -/
theorem symbolizeCode_items {s s' : Item α → Text} {items : List (Item α)}
    (h : ∀ b ∈ items, Symbolizes b (s b) (s' b))
    (chain : items.IsChain fun a b => a.meets b = true) :
    symbolizeCode (items.flatMap s) = items.flatMap s' := by
  have good : ∀ b ∈ items, ∀ v ∈ stages replacements (s b), b.isGood v = true :=
    fun b mem => List.all_eq_true.mp (h b mem).kept
  rw [symbolizeCode, foldl_items polite_replacements good chain]
  exact List.flatMap_congr fun b mem => (h b mem).eq

/-- A text of items with string literals among them, with its operator words replaced. -/
theorem symbolize_spell {s s' : Item α → Text} {items : List (Item (Slot α))}
    (placed : ∀ item ∈ items, IsPlaced s item)
    (h : ∀ item ∈ items, ∀ b, item.slot = .code b → Symbolizes b (s b) (s' b))
    (chain : items.IsChain fun a b => a.meets b = true) :
    symbolize (spell s items) = spell s' items := by
  have codes (code : List (Item α)) (mem : code ∈ codes items) :
      symbolizeCode (code.flatMap s) = code.flatMap s' :=
    symbolizeCode_items (forall_mem_codes h code mem) (isChain_codes chain code mem)
  rw [symbolize, ofText_spell placed, mapCode_alternation codes, text_alternation]

/-! ## What becomes of the items -/

theorem symbolizes_space : Symbolizes (space : Item α) " ".toText " ".toText := by
  have kept : (stages replacements " ".toText).all (· == " ".toText) = true := by decide
  exact ⟨kept, by decide⟩

theorem symbolizes_not : Symbolizes (not : Item α) "NOT ".toText "!".toText := by
  have kept : (stages replacements "NOT ".toText).all
      (fun u => u == "NOT ".toText || u == "!".toText) = true := by decide
  exact ⟨kept, by decide⟩

theorem symbolizes_mark (m : Mark) : Symbolizes (mark m : Item α) m.text m.symbol := by
  have solid : ∀ o : BinaryOp, (stages replacements o.sign).all isSolid = true := by
    intro o
    cases o <;> decide
  cases m with
  | opening =>
    have kept : (stages replacements "(".toText).all
        (fun u => isSolid u && u.head? != some (.char '=')) = true := by decide
    exact ⟨kept, by decide⟩
  | closing => exact ⟨(by decide : (stages replacements ")".toText).all isSolid = true), by decide⟩
  | comma => exact ⟨(by decide : (stages replacements ",".toText).all isSolid = true), by decide⟩
  | op o => exact ⟨solid o, by cases o <;> decide⟩

def keywords : List Text := ["and", "xor", "or", "not", "mod", "true", "false"].map String.toText

/-- Whether the replacements leave a text alone: it has none of the words in it and none of the
signs. -/
structure IsSteady (u : Text) : Prop where
  words : ∀ k ∈ keywords, Construct.mentions k u = false
  signs : ∀ c ∈ u, c ≠ '<' ∧ c ≠ '='

theorem replaceAll_of_isSteady {p : Pattern Text} (steady : IsSteady u) (mem : p ∈ replacements) :
    replaceAll p u = u := by
  apply replaceAll_of_none
  intro x y same nonempty
  have word {k : Text} (among : k ∈ keywords) : dropKeyword? k x.reverse y = none :=
    dropKeyword?_of_not_mentions (steady.words k among) same
  obtain ⟨c, y, rfl⟩ := List.exists_cons_of_ne_nil nonempty
  obtain ⟨less, equals⟩ := steady.signs c (by simp [same])
  simp only [replacements, List.mem_cons, List.not_mem_nil, or_false] at mem
  rcases mem with rfl | rfl | rfl | rfl | rfl | rfl | rfl | rfl | rfl
  · rw [Vocabulary.word, word (by decide), Option.map_none]
  · rw [Vocabulary.word, word (by decide), Option.map_none]
  · rw [Vocabulary.word, word (by decide), Option.map_none]
  · rw [negation, word (by decide), Option.map_none]
  · rw [Vocabulary.word, word (by decide), Option.map_none]
  · rw [Vocabulary.word, word (by decide), Option.map_none]
  · rw [Vocabulary.word, word (by decide), Option.map_none]
  · exact inequality_of_head? fun h => absurd h less
  · rw [equality_cons, if_neg fun h => equals h.1]

theorem symbolizeCode_of_fixed (fixed : ∀ p ∈ replacements, replaceAll p u = u) : symbolizeCode u = u := by
  rw [symbolizeCode]
  generalize replacements = ps at fixed
  induction ps with
  | nil => rfl
  | cons p ps ih =>
    rw [List.forall_mem_cons] at fixed
    rw [List.foldl_cons, fixed.1, ih fixed.2]

theorem symbolizes_leaf (x : α) (steady : IsSteady u) (nonempty : u ≠ []) (start : Stops isBlank u) :
    Symbolizes (leaf x) u u := by
  have fixed : ∀ p ∈ replacements, replaceAll p u = u := fun p => replaceAll_of_isSteady steady
  have good : (leaf x).isGood u = true := by
    obtain ⟨c, rest, rfl⟩ := List.exists_cons_of_ne_nil nonempty
    have solid := isSolid_iff.mpr ⟨nonempty, start, steady.words "not".toText (by decide)⟩
    simp [isGood, solid, (steady.signs c List.mem_cons_self).2]
  constructor
  · generalize replacements = ps at fixed
    rw [List.all_eq_true]
    induction ps with
    | nil => simp [stages]
    | cons p ps ih =>
      rw [List.forall_mem_cons] at fixed
      rw [stages, fixed.1, List.forall_mem_cons]
      exact ⟨good, ih fixed.2⟩
  · exact symbolizeCode_of_fixed fixed

/-- A text that is one word is left alone unless it is one of the words that are replaced. -/
theorem isSteady_of_isWord (words : ∀ c ∈ u, isWord c = true) (free : u.fold ∉ keywords) : IsSteady u := by
  constructor
  · intro k mem
    apply mentions_eq_false
    intro x y same
    refine dropKeyword?_of_isWord words (fun loose => free ?_) same
    have plain : ∀ k ∈ keywords, ∀ c ∈ k, foldChar c = [c] ∧ c ≠ 'i' := by decide
    rwa [fold_of_map_looseLetter (plain k mem) loose]
  · intro c mem
    constructor <;> rintro rfl
    · exact absurd (words _ mem) (by decide)
    · exact absurd (words _ mem) (by decide)

theorem isSteady_of_isName (h : Term.isName u = true) : IsSteady u := by
  simp only [Term.isName, Bool.and_eq_true, Bool.not_eq_true', List.contains_eq_mem,
    decide_eq_false_iff_not] at h
  have reserved : ∀ k ∈ keywords, k ∈ Term.reservedWords := by decide
  exact isSteady_of_isWord (Term.isWord_of_isIdentifier h.1) fun mem => h.2 (reserved _ mem)

theorem isSteady_of_letters (h : ∀ c ∈ u, looseLetter c ∉ "axonmtf<=".toText) : IsSteady u := by
  constructor
  · intro k mem
    apply mentions_eq_false
    intro x y same
    have first : ∀ k ∈ keywords, k ≠ [] ∧ ∀ c ∈ k.head?, c ∈ "axonmtf<=".toText := by
      decide
    obtain ⟨ne, among⟩ := first k mem
    obtain ⟨c, rest, rfl⟩ := List.exists_cons_of_ne_nil ne
    unfold dropKeyword?
    cases y with
    | nil => simp [dropLoose?]
    | cons d y =>
      have other : looseLetter d ≠ c := by
        rintro rfl
        exact h d (by simp [same]) (among _ rfl)
      simp [dropLoose?, other]
  · intro c mem
    constructor <;> rintro rfl
    · exact h _ mem (by decide)
    · exact h _ mem (by decide)

end Item
end SclNarrator
