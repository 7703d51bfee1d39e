import Mathlib.Data.List.Induction
import SclNarrator.Proofs.Except
import SclNarrator.Proofs.Expr.Literals
import SclNarrator.Proofs.Number.Numeral

/-!
Names give way to the texts of their values item by item. A bound name stands at a point only if it is
the whole word there (`takeWhile_of_nameAt?`), so of the items of a term only the leaves that are bound
names change (`replaceNames_items`), and with them the text of the whole term (`substitute_text`).
-/

namespace SclNarrator

open Text

namespace Substitution

variable {names : List Text} {f : Text → Except Fault Text} {back rest t u v w r : Text}

/-! ## Where names stand -/

theorem exists_of_nameAt? (h : nameAt? names back t = some w) :
    w ∈ names ∧ ∃ after, t = w ++ after ∧ allowsNameBefore after = true := by
  unfold nameAt? at h
  split at h
  · refine ⟨List.mem_of_find?_eq_some h, ?_⟩
    have found := List.find?_some h
    split at found
    · next after part => exact ⟨after, dropPart?_eq_some.mp part, found⟩
    · cases found
  · cases h

theorem allowsNameAfter_of_nameAt? (h : nameAt? names back t = some w) : allowsNameAfter back = true := by
  unfold nameAt? at h
  split at h
  · next starts => exact starts
  · cases h

theorem stops_of_allowsNameBefore (allows : allowsNameBefore t = true) : Stops isWord t := by
  intro c head
  rw [allowsNameBefore, Option.mem_def.mp head] at allows
  simp only [Option.any_some, Bool.not_eq_true', Bool.or_eq_false_iff] at allows
  exact allows.1.1

theorem nameAt?_ne_none (mem : w ∈ names) (starts : allowsNameAfter back = true)
    (allows : allowsNameBefore rest = true) : nameAt? names back (w ++ rest) ≠ none := by
  intro found
  rw [nameAt?, if_pos starts, List.find?_eq_none] at found
  have := found w mem
  simp [dropPart?_append, allows] at this

theorem nameAt?_of_isWord {c : CodePoint} (h : isWord c = true) : nameAt? names (c :: back) t = none := by
  simp [nameAt?, allowsNameAfter, h]

theorem nameAt?_of_stops (fine : ∀ n ∈ names, Term.isIdentifier n = true) (stop : Stops isNameStart t) :
    nameAt? names back t = none := by
  rw [Option.eq_none_iff_forall_ne_some]
  intro w h
  obtain ⟨mem, after, rfl, -⟩ := exists_of_nameAt? h
  have identifier := fine w mem
  cases w with
  | nil => cases identifier
  | cons c w =>
    rw [Term.isIdentifier, Bool.and_eq_true] at identifier
    rw [List.cons_append, stops_cons, identifier.1] at stop
    cases stop

/-- The name at a point is the word there. -/
theorem takeWhile_of_nameAt? (fine : ∀ n ∈ names, Term.isIdentifier n = true)
    (h : nameAt? names back t = some w) : t.takeWhile isWord = w := by
  obtain ⟨mem, after, rfl, allows⟩ := exists_of_nameAt? h
  exact takeWhile_append_of_stops (Term.isWord_of_isIdentifier (fine w mem))
    (stops_of_allowsNameBefore allows)

theorem nameAt?_eq_some_iff (fine : ∀ n ∈ names, Term.isIdentifier n = true) :
    nameAt? names back t = some w ↔ w ∈ names ∧ allowsNameAfter back = true ∧
      ∃ after, t = w ++ after ∧ allowsNameBefore after = true := by
  constructor
  · intro h
    obtain ⟨mem, behind⟩ := exists_of_nameAt? h
    exact ⟨mem, allowsNameAfter_of_nameAt? h, behind⟩
  · rintro ⟨mem, starts, after, rfl, allows⟩
    obtain ⟨v, found⟩ := Option.ne_none_iff_exists'.mp (nameAt?_ne_none mem starts allows)
    have word := takeWhile_of_nameAt? fine found
    rw [takeWhile_append_of_stops (Term.isWord_of_isIdentifier (fine w mem))
      (stops_of_allowsNameBefore allows)] at word
    rw [found, word]

theorem nameAt?_of_mem (fine : ∀ n ∈ names, Term.isIdentifier n = true) (mem : u ∈ names)
    (before : Ends back) (ends : Ends rest) : nameAt? names back (u ++ rest) = some u := by
  have after : allowsNameAfter back = true := by
    simp only [allowsNameAfter, Bool.not_eq_true']
    exact any_head_eq_false.mpr (before.stops (by decide))
  have behind : allowsNameBefore rest = true := by
    simp only [allowsNameBefore, Bool.not_eq_true']
    exact any_head_eq_false.mpr (ends.stops (by decide))
  exact (nameAt?_eq_some_iff fine).mpr ⟨mem, after, rest, rfl, behind⟩

/-! ## Over a stretch -/

theorem replaceNames_skip (names : List Text) (f : Text → Except Fault Text) (back a b : Text) :
    replaceNames names f a.length back (a ++ b) = replaceNames names f 0 (a.reverse ++ back) b := by
  induction a generalizing back with
  | nil => rfl
  | cons c a ih =>
    rw [List.cons_append, List.length_cons, replaceNames, ih]
    simp

/-- The same is put in the places of two lists of names, if the same of them stand at each point and they have
the same texts. -/
theorem replaceNames_congr {names' : List Text} {f' : Text → Except Fault Text}
    (same : ∀ back u, u <:+ t → nameAt? names back u = nameAt? names' back u)
    (texts : ∀ back u w, u <:+ t → nameAt? names back u = some w → f w = f' w) (skip : Nat) (back : Text) :
    replaceNames names f skip back t = replaceNames names' f' skip back t := by
  induction t generalizing skip back with
  | nil =>
    rw [replaceNames, replaceNames, ← same back [] List.suffix_rfl]
    split
    · rfl
    · next found => exact texts _ _ _ List.suffix_rfl found
  | cons c rest ih =>
    have inside {u : Text} (part : u <:+ rest) : u <:+ c :: rest := part.trans (List.suffix_cons c rest)
    have later := ih (fun back u part => same back u (inside part)) fun back u w part =>
      texts back u w (inside part)
    cases skip with
    | succ k => rw [replaceNames, replaceNames, later]
    | zero =>
      rw [replaceNames, replaceNames, ← same back _ List.suffix_rfl]
      split
      · rw [later]
      · next found => rw [texts _ _ _ List.suffix_rfl found, later]
      · next found => rw [texts _ _ _ List.suffix_rfl found, later]

theorem replaceNames_of_none
    (h : ∀ x y, u = x ++ y → y ≠ [] → nameAt? names (x.reverse ++ back) (y ++ rest) = none)
    (later : replaceNames names f 0 (u.reverse ++ back) rest = .ok r) :
    replaceNames names f 0 back (u ++ rest) = .ok (u ++ r) := by
  induction u generalizing back with
  | nil => exact later
  | cons c u ih =>
    have here := h [] (c :: u) rfl (List.cons_ne_nil _ _)
    have tail : replaceNames names f 0 (c :: back) (u ++ rest) = .ok (u ++ r) :=
      ih (fun x y same ne => by simpa using h (c :: x) y (by rw [same]; rfl) ne) (by simpa using later)
    simp only [List.reverse_nil, List.nil_append, List.cons_append] at here
    rw [List.cons_append, replaceNames, here, List.cons_append]
    simp only [tail]
    rfl

theorem replaceNames_of_some (ne : u ≠ []) (h : nameAt? names back (u ++ rest) = some u)
    (value : f u = .ok v) (later : replaceNames names f 0 (u.reverse ++ back) rest = .ok r) :
    replaceNames names f 0 back (u ++ rest) = .ok (v ++ r) := by
  obtain ⟨c, u, rfl⟩ := List.exists_cons_of_ne_nil ne
  rw [List.cons_append] at h ⊢
  rw [replaceNames, h]
  simp only [value, replaceNames_skip]
  simp only [List.reverse_cons, List.append_assoc, List.singleton_append] at later
  rw [later]
  rfl

/-- Whether a word becomes another when the names are replaced. -/
def Renames (names : List Text) (f : Text → Except Fault Text) (u v : Text) : Prop :=
  ∀ back rest r, Ends back → Ends rest → replaceNames names f 0 (u.reverse ++ back) rest = .ok r →
    replaceNames names f 0 back (u ++ rest) = .ok (v ++ r)

theorem renames_of_stops (fine : ∀ n ∈ names, Term.isIdentifier n = true)
    (h : ∀ c ∈ u, isNameStart c = false) : Renames names f u u := by
  intro back rest r _ _ later
  refine replaceNames_of_none (fun x y same ne => ?_) later
  obtain ⟨c, y, rfl⟩ := List.exists_cons_of_ne_nil ne
  exact nameAt?_of_stops fine (stops_cons.mpr (h c (by simp [same])))

theorem renames_of_not_mem (fine : ∀ n ∈ names, Term.isIdentifier n = true)
    (words : ∀ c ∈ u, isWord c = true) (absent : u ∉ names) : Renames names f u u := by
  intro back rest r _ ends later
  refine replaceNames_of_none (fun x y same ne => ?_) later
  cases x using List.reverseRecOn with
  | nil =>
    subst same
    rw [Option.eq_none_iff_forall_ne_some]
    intro w found
    have word := takeWhile_of_nameAt? fine found
    rw [takeWhile_append_of_stops words (ends.stops (by decide))] at word
    subst word
    exact absurd (exists_of_nameAt? found).1 absent
  | append_singleton x c =>
    rw [List.reverse_append, List.reverse_singleton, List.singleton_append, List.cons_append]
    exact nameAt?_of_isWord (words c (by simp [same]))

theorem renames_of_mem (fine : ∀ n ∈ names, Term.isIdentifier n = true) (mem : u ∈ names)
    (value : f u = .ok v) : Renames names f u v := by
  intro back rest r before ends later
  have ne : u ≠ [] := Term.ne_nil_of_isIdentifier (fine u mem)
  exact replaceNames_of_some ne (nameAt?_of_mem fine mem before ends) value later

/-! ## Over the items of a text -/

variable (fine : ∀ n ∈ names, Term.isName n = true)
include fine

theorem isIdentifier_of_mem : ∀ n ∈ names, Term.isIdentifier n = true := by
  intro n mem
  have := fine n mem
  rw [Term.isName, Bool.and_eq_true] at this
  exact this.1

theorem not_mem_of_reserved (h : Term.isName u = false) : u ∉ names := by
  intro mem
  rw [fine u mem] at h
  cases h

theorem renames_mark (m : Mark) : Renames names f m.text m.text := by
  have plain {u : Text} (h : u.all fun c => !isNameStart c) : Renames names f u u :=
    renames_of_stops (isIdentifier_of_mem fine) (by simpa using h)
  have word {u : Text} (h : u.all isWord && !Term.isName u) : Renames names f u u := by
    simp only [Bool.and_eq_true, List.all_eq_true, Bool.not_eq_true'] at h
    exact renames_of_not_mem (isIdentifier_of_mem fine) h.1 (not_mem_of_reserved fine h.2)
  rcases m with _ | _ | _ | o
  · exact plain (by decide)
  · exact plain (by decide)
  · exact plain (by decide)
  · cases o with
    | mod | and | or => exact word (by decide)
    | add | sub | mul | div | eq | ne | gt | ge | lt | le => exact plain (by decide)

theorem replaceNames_space (back : Text) (later : replaceNames names f 0 (.char ' ' :: back) rest = .ok r) :
    replaceNames names f 0 back (.char ' ' :: rest) = .ok (.char ' ' :: r) := by
  have missed := @nameAt?_of_stops names back (.char ' ' :: rest) (isIdentifier_of_mem fine)
    (stops_cons.mpr (by decide))
  rw [replaceNames, missed]
  simp only [later]
  rfl

/-- The names among the items of a text are replaced, and all else is kept. -/
theorem replaceNames_items {α : Type} {g g' : α → Text} {items : List (Item α)}
    (leaves : ∀ a, .leaf a ∈ items → Renames names f (g a) (g' a))
    (chain : items.IsChain fun a b => a.meets b = true) :
    replaceNames names f 0 [] (items.flatMap (Item.text g)) = .ok (items.flatMap (Item.text g')) := by
  have space (t : Text) : Ends (.char ' ' :: t) := stops_cons.mpr rfl
  have general : ∀ back, (∀ b ∈ items.head?, b = .space ∨ Ends back) →
      replaceNames names f 0 back (items.flatMap (Item.text g))
        = .ok (items.flatMap (Item.text g')) := by
    induction items with
    | nil =>
      intro back _
      rw [List.flatMap_nil, replaceNames, nameAt?_of_stops (isIdentifier_of_mem fine) stops_nil]
      rfl
    | cons b rest ih =>
      intro back before
      have before := before b rfl
      have further := ih (fun a mem => leaves a (List.mem_cons_of_mem _ mem)) chain.tail
      -- Behind a mark or a leaf there is a space or nothing.
      have word {u v : Text} (h : Renames names f u v) (ne : b ≠ .space) (ne' : b ≠ .not) :
          replaceNames names f 0 back (u ++ rest.flatMap (Item.text g))
            = .ok (v ++ rest.flatMap (Item.text g')) := by
        have next : ∀ c ∈ rest.head?, c = .space :=
          fun c mem => Item.eq_space_of_meets (chain.rel_head? mem) ne ne'
        refine h back _ _ (before.resolve_left ne) ?_ (further _ fun c mem => .inl (next c mem))
        cases rest with
        | nil => exact stops_nil
        | cons c rest =>
          obtain rfl := next c rfl
          exact space _
      cases b with
      | space => exact replaceNames_space fine back (further _ fun c _ => .inr (space _))
      | not =>
        have reserved : "NOT".toText ∉ names := not_mem_of_reserved fine (by decide)
        have kept : Renames names f "NOT".toText "NOT".toText :=
          renames_of_not_mem (isIdentifier_of_mem fine) (by decide) reserved
        exact kept back _ _ (before.resolve_left (by simp)) (space _)
          (replaceNames_space fine _ (further _ fun c _ => .inr (space _)))
      | mark m => exact word (renames_mark fine m) (by simp) (by simp)
      | leaf a => exact word (leaves a List.mem_cons_self) (by simp) (by simp)
  exact general [] fun b _ => .inr stops_nil

end Substitution

/-! ## Over the text of a term -/

def Leaf.slot : Leaf → Slot Leaf
  | .quoted t => .literal (Leaf.quoted t).text
  | a => .code a

def Leaf.replaced (env : Environment) : Leaf → Except Fault Text
  | .name n => if env.names.contains n.text then env.source n.text else .ok n.text
  | a => .ok a.text

namespace Term

theorem isQuotable_of_isWord {c : CodePoint} (h : isWord c = true) : isQuotable c = true := by
  rw [isQuotable, Bool.and_eq_true, bne_iff_ne, bne_iff_ne]
  constructor <;> rintro rfl
  · exact absurd h (by decide)
  · exact absurd h (by decide)

theorem isQuotable_of_isDigit {c : CodePoint} (h : c.isDigit = true) : isQuotable c = true :=
  forall_digit (P := isQuotable) (by decide) h

theorem Name.isIdentifier (n : Name) : Term.isIdentifier n.text = true := by
  have := n.valid
  rw [isName, Bool.and_eq_true] at this
  exact this.1

end Term

theorem Mark.isQuotable_text (m : Mark) : ∀ c ∈ m.text, Term.isQuotable c = true := by
  rcases m with _ | _ | _ | o
  · decide
  · decide
  · decide
  · cases o <;> decide

theorem Leaf.isQuotable_text {a : Leaf} (h : a.slot = .code a) : ∀ c ∈ a.text, Term.isQuotable c = true := by
  cases a with
  | number n => exact fun c mem => Term.isQuotable_of_isDigit (Numeral.isDigit_natText mem)
  | truth b => cases b <;> decide
  | quoted t => cases h
  | name n =>
    exact fun c mem => Term.isQuotable_of_isWord (Term.isWord_of_isIdentifier n.isIdentifier c mem)

theorem Term.ne_quote_of_mem_text (t : Term) : ∀ c ∈ t.text, c ≠ '"' := by
  intro c mem
  have other (h : isQuotable c = true) : c ≠ '"' := by
    rw [isQuotable, Bool.and_eq_true, bne_iff_ne, bne_iff_ne] at h
    exact h.2
  rw [text_eq] at mem
  obtain ⟨item, -, mem⟩ := List.mem_flatMap.mp mem
  rcases item with _ | _ | m | a
  · exact other (List.all_eq_true.mp (by decide : " ".toText.all isQuotable = true) c mem)
  · exact other (List.all_eq_true.mp (by decide : "NOT ".toText.all isQuotable = true) c mem)
  · exact other (m.isQuotable_text c mem)
  · cases a with
    | quoted t =>
      simp only [Item.text, Leaf.text, List.cons_append, List.mem_cons, List.mem_append,
        List.not_mem_nil, or_false] at mem
      rcases mem with rfl | mem | rfl
      · decide
      · exact other (List.all_eq_true.mp t.valid c mem)
      · decide
    | number n => exact other (@Leaf.isQuotable_text (.number n) rfl c mem)
    | truth b => exact other (@Leaf.isQuotable_text (.truth b) rfl c mem)
    | name n => exact other (@Leaf.isQuotable_text (.name n) rfl c mem)

namespace Substitution

theorem replaceAllM_of_none {p : Pattern Text} {t : Text} (f : Text → Except Fault Text)
    (h : ∀ x y, t = x ++ y → y ≠ [] → p x.reverse y = none) : replaceAllM p f t = .ok t := by
  have misses : Misses p [] t [] := misses_of_ends fun x y same ne => by simpa using h x y same ne
  have pieces := cutFrom_misses misses
  rw [List.append_nil] at pieces
  have plain (k : Piece Text → Except Fault Text) (same : ∀ c, k (.plain c) = .ok [c]) (a : Text) :
      (a.map Piece.plain).mapM k = .ok (a.map fun c => [c]) := by
    induction a with
    | nil => rfl
    | cons c a ih =>
      rw [List.map_cons, List.mapM_cons, ih, same]
      rfl
  rw [replaceAllM, cut, pieces, cutFrom, List.append_nil, plain _ fun c => rfl, ok_bind]
  simp [List.flatten_eq_flatMap, List.flatMap_map, pure, Except.pure]

theorem quotedName_of_ne {back t : Text} {c : CodePoint} (h : c ≠ '"') :
    quotedName back (c :: t) = none := by
  unfold quotedName
  split
  · next same => exact absurd (List.cons.inj same).1 h
  · rfl

theorem quotedName_of_not_mem {back t : Text} (double : .char '"' ∉ t) : quotedName back t = none := by
  cases t with
  | nil => rfl
  | cons c t => exact quotedName_of_ne fun same => double (same ▸ List.mem_cons_self)

end Substitution

theorem quotedName_eq_some {back y name rest : Text} (h : quotedName back y = some (name, rest)) :
    y = .char '"' :: name ++ .char '"' :: rest ∧ name ≠ [] := by
  unfold quotedName at h
  split at h
  · next body =>
    split at h
    · cases h
    · cases h
    · next c _ left ne =>
      cases h
      have whole := List.takeWhile_append_dropWhile (p := (· != .char '"')) (l := body)
      have quote : c = .char '"' := by
        have := stops_dropWhile (· != .char '"') body
        rw [left, stops_cons] at this
        simpa using this
      rw [left, quote] at whole
      exact ⟨by rw [List.cons_append, whole], fun empty => ne empty⟩
  · cases h

theorem quotedName_quoted {name : Text} (ne : name ≠ []) (plain : .char '"' ∉ name) (back rest : Text) :
    quotedName back (.char '"' :: name ++ .char '"' :: rest) = some (name, rest) := by
  have letters : ∀ c ∈ name, (c != .char '"') = true := by
    intro c mem
    rw [bne_iff_ne]
    rintro rfl
    exact plain mem
  have stop : Stops (· != .char '"') (.char '"' :: rest) := stops_cons.mpr (by decide)
  obtain ⟨c, more, rfl⟩ := List.exists_cons_of_ne_nil ne
  rw [List.cons_append, quotedName]
  simp only [takeWhile_append_of_stops letters stop, dropWhile_append_of_stops letters stop]

theorem fronts_quotedName : Text.Fronts quotedName := by
  intro back y name rest h
  exact ⟨.char '"' :: name ++ [.char '"'], by simp, by simp [(quotedName_eq_some h).1]⟩

open Substitution

theorem Environment.mem_names {env : Environment} {n : Text} :
    n ∈ env.names ↔ ∃ b ∈ env.bindings, b.name = n := by
  rw [names, List.mem_mergeSort, List.mem_map]

theorem Leaf.eq_of_slot {a b : Leaf} (h : a.slot = .code b) : a = b := by
  cases a <;> cases h <;> rfl

theorem Leaf.renames {env : Environment} {a : Leaf} {v : Text}
    (fine : ∀ n ∈ env.names, Term.isName n = true) (code : a.slot = .code a)
    (h : a.replaced env = .ok v) : Renames env.names env.source a.text v := by
  have identifiers := isIdentifier_of_mem fine
  cases a with
  | number n =>
    cases h
    exact renames_of_stops identifiers fun c mem => isNameStart_of_isDigit (Numeral.isDigit_natText mem)
  | truth b =>
    cases h
    refine renames_of_not_mem identifiers ?_ (not_mem_of_reserved fine ?_)
    · cases b <;> decide
    · cases b <;> decide
  | quoted t => cases code
  | name n =>
    rw [replaced] at h
    split at h
    · next mem => exact renames_of_mem identifiers (List.contains_iff_mem.mp mem) h
    · next absent =>
      cases h
      exact renames_of_not_mem identifiers (Term.isWord_of_isIdentifier n.isIdentifier)
        (mt List.contains_iff_mem.mpr absent)

def Term.places (t : Term) : List (Item (Slot Leaf)) := (Item.spaced t.items).map (Item.map Leaf.slot)

theorem Term.isChain_places (t : Term) : t.places.IsChain fun a b => a.meets b = true :=
  Item.isChain_map _ (Item.isChain_spaced (proper_items t))

theorem Term.spell_places {g : Leaf → Text} (h : ∀ q, g (.quoted q) = (Leaf.quoted q).text) (t : Term) :
    Item.spell (Item.text g) t.places = (Item.spaced t.items).flatMap (Item.text g) := by
  have same : (fun a : Leaf => Slot.text g a.slot) = g := by
    funext a
    cases a with
    | quoted q => exact (h q).symm
    | number n | truth b | name n => rfl
  rw [Item.spell_text, Term.places, Item.flatMap_text_map, same]

theorem Term.isPlaced_of_mem (t : Term) :
    ∀ item ∈ t.places, Item.IsPlaced (Item.text Leaf.text) item := by
  intro item mem
  obtain ⟨b, -, rfl⟩ := List.mem_map.mp mem
  rcases b with _ | _ | m | a
  · exact List.all_eq_true.mp (by decide : " ".toText.all isQuotable = true)
  · exact List.all_eq_true.mp (by decide : "NOT ".toText.all isQuotable = true)
  · exact m.isQuotable_text
  · cases a with
    | quoted q =>
      refine isString_apostrophes fun c mem => ?_
      have := List.all_eq_true.mp q.valid c mem
      rw [isQuotable, Bool.and_eq_true, bne_iff_ne] at this
      exact this.1
    | number n => exact @Leaf.isQuotable_text (.number n) rfl
    | truth b => exact @Leaf.isQuotable_text (.truth b) rfl
    | name n => exact @Leaf.isQuotable_text (.name n) rfl

theorem Term.slot_of_mem_codes (t : Term) :
    ∀ code ∈ Item.codes t.places, ∀ a, .leaf a ∈ code → a.slot = .code a := by
  intro code mem a among
  refine Item.forall_mem_codes (P := fun b => ∀ a, b = .leaf a → a.slot = .code a) ?_ code mem _
    among a rfl
  rintro item placed b slot a rfl
  obtain ⟨b, -, rfl⟩ := List.mem_map.mp placed
  rcases b with _ | _ | m | other
  · cases slot
  · cases slot
  · cases slot
  · cases place : other.slot with
    | literal q => simp [Item.map, Item.slot, place] at slot
    | code c =>
      simp only [Item.map, Item.slot, place, Slot.code.injEq, Item.leaf.injEq] at slot
      subst slot
      obtain rfl := Leaf.eq_of_slot place
      exact place

/-- In the text of a term the leaves that are bound names are replaced. -/
theorem Environment.substitute_text {env : Environment} {g : Leaf → Text}
    (fine : ∀ n ∈ env.names, Term.isName n = true) (h : ∀ a : Leaf, a.replaced env = .ok (g a))
    (t : Term) : env.substitute t.text = .ok ((Item.spaced t.items).flatMap (Item.text g)) := by
  have quoteless : replaceAllM quotedName env.source t.text = .ok t.text := by
    refine replaceAllM_of_none _ fun x y same ne => ?_
    obtain ⟨c, y, rfl⟩ := List.exists_cons_of_ne_nil ne
    exact quotedName_of_ne (t.ne_quote_of_mem_text c (by simp [same]))
  rw [substitute, quoteless, ok_bind]
  split
  · next unbound =>
    -- Without bound names every leaf stays.
    have same : g = Leaf.text := by
      funext a
      have := h a
      cases a with
      | name n => exact (by simpa [Leaf.replaced, unbound] using this : n.text = g (.name n)).symm
      | number n | truth b | quoted q => exact (Except.ok.inj this).symm
    rw [same, ← Term.text_eq]
    rfl
  · have quoted (q : Term.Quotable) : g (.quoted q) = (Leaf.quoted q).text :=
      (Except.ok.inj (h (.quoted q))).symm
    have codes (code : List (Item Leaf)) (mem : code ∈ Item.codes t.places) :
        replaceNames env.names env.source 0 [] (code.flatMap (Item.text Leaf.text))
          = .ok (code.flatMap (Item.text g)) := by
      refine replaceNames_items fine (fun a among => ?_) (Item.isChain_codes t.isChain_places code mem)
      exact Leaf.renames fine (Term.slot_of_mem_codes t code mem a among) (h a)
    rw [Term.text_eq, ← Term.spell_places fun q => rfl, Item.ofText_spell t.isPlaced_of_mem,
      Item.mapCodeM_alternation codes, ok_bind, Item.text_alternation, Term.spell_places quoted]
    rfl

end SclNarrator
