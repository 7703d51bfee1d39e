import SclNarrator.Proofs.Expr.Term

/-!
Items with string literals among them. A text of such items is cut into the literals and the code
between them where the literals stand (`ofText_spell`), so that what is done to the code parts is done
to the items between the literals (`mapCode_alternation`, `mapCodeM_alternation`).
-/

namespace SclNarrator

/-- A place in a text: a string literal, or something else. -/
inductive Slot (α : Type) where
  | literal (q : Text)
  | code (a : α)

def Slot.text {α : Type} (f : α → Text) : Slot α → Text
  | .literal q => q
  | .code a => f a

namespace Item

variable {α β : Type}

def slot : Item (Slot α) → Slot (Item α)
  | leaf (.literal q) => .literal q
  | leaf (.code a) => .code (leaf a)
  | space => .code space
  | not => .code not
  | mark m => .code (mark m)

def spell (s : Item α → Text) (items : List (Item (Slot α))) : Text :=
  items.flatMap fun item =>
    match item.slot with
    | .literal q => q
    | .code b => s b

/-- The items in front of the first literal, and every literal with the items up to the next. -/
def parts : List (Item (Slot α)) → List (Item α) × List (Text × List (Item α))
  | [] => ([], [])
  | item :: rest =>
    match item.slot with
    | .literal q => ([], (q, (parts rest).1) :: (parts rest).2)
    | .code b => (b :: (parts rest).1, (parts rest).2)

/-- The stretches of items between literals. -/
def codes (items : List (Item (Slot α))) : List (List (Item α)) :=
  (parts items).1 :: (parts items).2.map Prod.snd

def alternation (s : Item α → Text) (items : List (Item (Slot α))) : Alternation :=
  ⟨(parts items).1.flatMap s, (parts items).2.map fun (q, code) => (q, code.flatMap s)⟩

variable {s s' : Item α → Text} {items : List (Item (Slot α))}

theorem text_alternation (s : Item α → Text) (items : List (Item (Slot α))) :
    (alternation s items).text = spell s items := by
  induction items with
  | nil => rfl
  | cons item rest ih =>
    rw [spell, List.flatMap_cons, ← spell, ← ih]
    simp only [alternation, parts, Alternation.text]
    cases item.slot with
    | literal q => simp
    | code b => simp

theorem spell_text (f : α → Text) (items : List (Item (Slot α))) :
    spell (Item.text f) items = items.flatMap (Item.text (Slot.text f)) := by
  refine List.flatMap_congr fun item _ => ?_
  rcases item with _ | _ | m | (q | a) <;> rfl

theorem flatMap_text_map (f : β → Text) (g : α → β) (items : List (Item α)) :
    (items.map (Item.map g)).flatMap (Item.text f) = items.flatMap (Item.text fun a => f (g a)) := by
  rw [List.flatMap_map]
  refine List.flatMap_congr fun item _ => ?_
  cases item <;> rfl

/-- Whether a text is a string literal, whatever follows it. -/
structure IsString (q : Text) : Prop where
  ne : q ≠ []
  read : ∀ rest, Lexeme.string? (q ++ rest) = some (q, rest)

end Item

theorem Lexeme.taken_left (u rest : Text) : Lexeme.taken (u ++ rest) rest = (u, rest) := by
  simp [Lexeme.taken]

theorem afterApostrophe?_append {t : Text} (h : ∀ c ∈ t, c ≠ '\'') (rest : Text) :
    Lexeme.afterApostrophe? (t ++ .char '\'' :: rest) = some rest := by
  induction t with
  | nil => rfl
  | cons c t ih =>
    rw [List.forall_mem_cons] at h
    rw [List.cons_append, Lexeme.afterApostrophe?]
    · exact ih h.2
    · exact h.1

theorem isString_apostrophes {t : Text} (h : ∀ c ∈ t, c ≠ '\'') :
    Item.IsString (.char '\'' :: t ++ [.char '\'']) := by
  refine ⟨by simp, fun rest => ?_⟩
  have whole : .char '\'' :: t ++ [.char '\''] ++ rest = .char '\'' :: (t ++ .char '\'' :: rest) := by
    simp
  have taken := Lexeme.taken_left (.char '\'' :: t ++ [.char '\'']) rest
  rw [whole] at taken ⊢
  simp only [Lexeme.string?, afterApostrophe?_append h, Option.map_some, taken]

/-- A text as an expression quotes it, between its quotes. -/
def escaped (t : Text) : Text :=
  t.flatMap fun c => if c = .char '\\' ∨ c = .char '"' then [.char '\\', c] else [c]

theorem quotedSource_eq (t : Text) : Value.quotedSource t = .char '"' :: escaped t ++ [.char '"'] := rfl

theorem escaped_cons (c : CodePoint) (t : Text) :
    escaped (c :: t) = (if c = .char '\\' ∨ c = .char '"' then [.char '\\', c] else [c]) ++ escaped t :=
  List.flatMap_cons ..

theorem afterQuote?_escaped (t rest : Text) :
    Lexeme.afterQuote? (escaped t ++ .char '"' :: rest) = some rest := by
  induction t with
  | nil => rfl
  | cons c t ih =>
    rw [escaped_cons]
    split
    · next special =>
      have line : c ≠ '\n' := by
        rcases special with rfl | rfl <;> decide
      simp only [List.cons_append, List.nil_append, Lexeme.afterQuote?, if_neg line, ih]
    · next plain =>
      rw [not_or] at plain
      rw [List.append_assoc, List.singleton_append, Lexeme.afterQuote?]
      · exact ih
      · exact plain.2
      · exact fun same _ => plain.1 same
      · exact fun _ _ same _ => plain.1 same

theorem isString_quotedSource (t : Text) : Item.IsString (Value.quotedSource t) := by
  refine ⟨by simp [quotedSource_eq], fun rest => ?_⟩
  rw [quotedSource_eq]
  have whole : .char '"' :: escaped t ++ [.char '"'] ++ rest
      = .char '"' :: (escaped t ++ .char '"' :: rest) := by
    simp
  have taken := Lexeme.taken_left (.char '"' :: escaped t ++ [.char '"']) rest
  rw [whole] at taken ⊢
  simp only [Lexeme.string?, afterQuote?_escaped, Option.map_some, taken]

namespace Item

variable {α β : Type} {s s' : Item α → Text} {items : List (Item (Slot α))}

/-- Whether an item is a string literal, or code without a quote. -/
def IsPlaced (s : Item α → Text) (item : Item (Slot α)) : Prop :=
  match item.slot with
  | .literal q => IsString q
  | .code b => ∀ c ∈ s b, Term.isQuotable c = true

theorem ofPieces_plain (a : Text) (pieces : List (Piece Unit)) :
    Alternation.ofPieces (a.map .plain ++ pieces)
      = ⟨a ++ (Alternation.ofPieces pieces).first, (Alternation.ofPieces pieces).rest⟩ := by
  induction a with
  | nil => rfl
  | cons c a ih => simp [Alternation.ofPieces, ih]

theorem misses_stringLiteral {a : Text} (h : ∀ c ∈ a, Term.isQuotable c = true) (back b : Text) :
    Text.Misses stringLiteral back a b := by
  induction a generalizing back with
  | nil => trivial
  | cons c a ih =>
    refine ⟨?_, ih (fun d mem => h d (List.mem_cons_of_mem _ mem)) _⟩
    have here := h c List.mem_cons_self
    simp only [Term.isQuotable, Bool.and_eq_true, bne_iff_ne, ne_eq] at here
    unfold stringLiteral Lexeme.string?
    split
    · next same => exact absurd (List.cons.inj same).1 here.2
    · next same => exact absurd (List.cons.inj same).1 here.1
    · rfl

/-- A text of items is cut at its literals. -/
theorem ofText_spell (h : ∀ item ∈ items, IsPlaced s item) :
    Alternation.ofText (spell s items) = alternation s items := by
  have general : ∀ back, Alternation.ofPieces (Text.cutFrom stringLiteral 0 back (spell s items))
      = alternation s items := by
    induction items with
    | nil => intro back; rfl
    | cons item rest ih =>
      intro back
      have later := ih fun other mem => h other (List.mem_cons_of_mem _ mem)
      have here := h item List.mem_cons_self
      rw [spell, List.flatMap_cons, ← spell]
      simp only [IsPlaced, alternation, parts] at here later ⊢
      cases place : item.slot with
      | literal q =>
        rw [place] at here
        have found : stringLiteral back (q ++ spell s rest) = some ((), spell s rest) := by
          rw [stringLiteral, here.read, Option.map_some]
        simp only
        rw [Text.cutFrom_found here.ne found, Alternation.ofPieces, later]
        rfl
      | code b =>
        rw [place] at here
        simp only
        rw [Text.cutFrom_misses (misses_stringLiteral here back _), ofPieces_plain, later]
        simp
  exact general []

/-- What is done to every stretch of items is done to the code parts. -/
theorem mapCode_alternation {f : Text → Text}
    (h : ∀ code ∈ codes items, f (code.flatMap s) = code.flatMap s') :
    (alternation s items).mapCode f = alternation s' items := by
  simp only [codes, List.forall_mem_cons, List.forall_mem_map] at h
  simp only [alternation, Alternation.mapCode, h.1, List.map_map]
  congr 1
  refine List.map_congr_left fun part mem => ?_
  simp [h.2 part mem]

theorem mapCodeM_alternation {f : Text → Except Fault Text}
    (h : ∀ code ∈ codes items, f (code.flatMap s) = .ok (code.flatMap s')) :
    (alternation s items).mapCodeM f = .ok (alternation s' items) := by
  simp only [codes, List.forall_mem_cons, List.forall_mem_map] at h
  have rest : ∀ parts : List (Text × List (Item α)),
      (∀ part ∈ parts, f (part.2.flatMap s) = .ok (part.2.flatMap s')) →
      (parts.map fun (q, code) => (q, code.flatMap s)).mapM
          (fun (literal, code) => do return (literal, ← f code))
        = .ok (parts.map fun (q, code) => (q, code.flatMap s')) := by
    intro parts
    induction parts with
    | nil => intro _; rfl
    | cons part parts ih =>
      intro all
      rw [List.map_cons, List.mapM_cons, ih fun other mem => all other (List.mem_cons_of_mem _ mem)]
      simp only [all part List.mem_cons_self]
      rfl
  simp only [alternation, Alternation.mapCodeM, h.1, rest _ h.2]
  rfl

/-! ## What stands next to what -/

def code? : Slot (Item α) → Option (Item α)
  | .literal _ => none
  | .code b => some b

theorem head?_parts (items : List (Item (Slot α))) :
    (parts items).1.head? = items.head?.bind fun item => code? item.slot := by
  cases items with
  | nil => rfl
  | cons item rest =>
    simp only [parts, List.head?_cons, Option.bind_some]
    cases item.slot <;> rfl

theorem meets_of_slot {a b : Item (Slot α)} {x y : Item α} (ha : a.slot = .code x)
    (hb : b.slot = .code y) (h : a.meets b = true) : x.meets y = true := by
  rcases a with _ | _ | m | (q | a) <;> cases ha <;>
    rcases b with _ | _ | (_ | _ | _ | o) | (q | b) <;> cases hb <;> exact h

theorem meets_map (g : α → β) (a b : Item α) : (a.map g).meets (b.map g) = a.meets b := by
  rcases a with _ | _ | m | x <;> rcases b with _ | _ | (_ | _ | _ | o) | y <;> rfl

theorem isChain_map {items : List (Item α)} (g : α → β)
    (h : items.IsChain fun a b => a.meets b = true) :
    (items.map (Item.map g)).IsChain fun a b => a.meets b = true := by
  rw [List.isChain_map]
  exact h.imp fun a b meets => by rwa [meets_map]

/-- The stretches between literals keep what stands next to what. -/
theorem isChain_codes (h : items.IsChain fun a b => a.meets b = true) :
    ∀ code ∈ codes items, code.IsChain fun a b => a.meets b = true := by
  induction items with
  | nil => simp [codes, parts]
  | cons item rest ih =>
    have later := ih h.tail
    simp only [codes, parts, List.forall_mem_cons] at later ⊢
    cases place : item.slot with
    | literal q =>
      simp only [List.map_cons, List.forall_mem_cons]
      exact ⟨.nil, later⟩
    | code x =>
      refine ⟨List.isChain_cons.mpr ⟨fun y mem => ?_, later.1⟩, later.2⟩
      -- The next item of the stretch is the next item at all.
      rw [head?_parts] at mem
      obtain ⟨next, first, found⟩ := Option.bind_eq_some_iff.mp mem
      obtain ⟨more, rfl⟩ := List.head?_eq_some_iff.mp first
      cases here : next.slot with
      | literal q =>
        rw [here] at found
        cases found
      | code z =>
        rw [here] at found
        cases found
        exact meets_of_slot place here (List.isChain_cons_cons.mp h).1

theorem forall_mem_codes {P : Item α → Prop} (h : ∀ item ∈ items, ∀ b, item.slot = .code b → P b) :
    ∀ code ∈ codes items, ∀ b ∈ code, P b := by
  induction items with
  | nil => simp [codes, parts]
  | cons item rest ih =>
    have later := ih fun other mem => h other (List.mem_cons_of_mem _ mem)
    simp only [codes, parts, List.forall_mem_cons] at later ⊢
    cases place : item.slot with
    | literal q =>
      simp only [List.map_cons, List.forall_mem_cons]
      exact ⟨by simp, later⟩
    | code x =>
      simp only [List.forall_mem_cons]
      exact ⟨⟨h item List.mem_cons_self x place, later.1⟩, later.2⟩

end Item
end SclNarrator
