import SclNarrator.Proofs.Text.Stretch
import SclNarrator.Proofs.Text.Cut

/-!
A reader of expression text. It goes over a text character by character, knows whether it is in code
or between quotes, and collects the words that stand in code. Two texts of which one was made from
the other by replacing stretches are read side by side: whatever every step keeps is kept to the end
(`Rewrites.read`). What is kept here is `Covers`: both readers are at the same point of quoting, and
the first has met no word but those of the second and some that are allowed.
-/

namespace SclNarrator

/-- Where in a text a reader is: in code, between apostrophes, between double quotes, behind a backslash
between double quotes, or behind a character from which no expression goes on. -/
inductive Quoting where
  | code | apostrophes | quotes | escape | broken
  deriving DecidableEq

/-- Where the reader is behind one more character. -/
def Quoting.next (q : Quoting) (c : CodePoint) : Quoting :=
  match q with
  | code =>
    if c = '\'' then apostrophes else if c = '"' then quotes else if c = '\\' then broken else code
  | apostrophes => if c = '\'' then code else apostrophes
  | quotes => if c = '"' then code else if c = '\\' then escape else quotes
  | escape => if c = '\n' then broken else quotes
  | broken => broken

namespace Quoting

def after (q : Quoting) (t : Text) : Quoting := t.foldl next q

@[simp] theorem after_nil (q : Quoting) : q.after [] = q := rfl

@[simp] theorem after_cons (q : Quoting) (c : CodePoint) (t : Text) :
    q.after (c :: t) = (q.next c).after t := rfl

theorem after_append (q : Quoting) (a b : Text) : q.after (a ++ b) = (q.after a).after b := List.foldl_append

theorem after_broken (t : Text) : broken.after t = broken := by
  induction t with
  | nil => rfl
  | cons c t ih => exact ih

/-- Whether a character changes nothing about quoting. -/
def isDull (c : CodePoint) : Bool := c != '\'' && c != '"' && c != '\\'

theorem isDull_of_class {p : CodePoint → Bool} (h : p '\'' = false ∧ p '"' = false ∧ p '\\' = false)
    {c : CodePoint} (inside : p c = true) : isDull c = true := by
  have ne {d : CodePoint} (out : p d = false) : c ≠ d := by
    rintro rfl
    rw [out] at inside
    cases inside
  simp only [isDull, Bool.and_eq_true, bne_iff_ne]
  exact ⟨⟨ne h.1, ne h.2.1⟩, ne h.2.2⟩

theorem isDull_of_isWord {c : CodePoint} (word : isWord c = true) : isDull c = true :=
  isDull_of_class (by decide) word

/-- Where a reader is behind dull characters, of which the first is given. -/
def settled (q : Quoting) (first : CodePoint) : Quoting :=
  match q with
  | .escape => if first = '\n' then .broken else .quotes
  | q => q

theorem next_of_isDull {c : CodePoint} (dull : isDull c = true) (q : Quoting) : q.next c = settled q c := by
  simp only [isDull, Bool.and_eq_true, bne_iff_ne] at dull
  obtain ⟨⟨single, double⟩, slash⟩ := dull
  cases q <;> simp [Quoting.next, settled, single, double, slash]

theorem settled_settled (q : Quoting) (c d : CodePoint) : settled (settled q c) d = settled q c := by
  cases q with
  | escape => by_cases line : c = '\n' <;> simp [settled, line]
  | code | apostrophes | quotes | broken => rfl

/-- Dull characters leave a reader where it was; the character behind a backslash counts as read. -/
theorem after_of_isDull {c : CodePoint} {t : Text} (dull : ∀ d ∈ c :: t, isDull d = true) (q : Quoting) :
    q.after (c :: t) = settled q c := by
  induction t generalizing c q with
  | nil => exact next_of_isDull (dull c List.mem_cons_self) q
  | cons d t ih =>
    rw [List.forall_mem_cons] at dull
    rw [after_cons, ih dull.2, next_of_isDull dull.1, settled_settled]

end Quoting

/-- A reader: where it is, the word of code that it is in, and the words of code before that. -/
structure Reader where
  quoting : Quoting := .code
  word : Text := []
  words : List Text := []

namespace Reader

/-- The reader behind one more character. A word goes on with word characters of code alone. -/
def next (r : Reader) (c : CodePoint) : Reader :=
  if r.quoting = .code ∧ isWord c = true then { r with word := r.word ++ [c] }
  else ⟨r.quoting.next c, [], r.word :: r.words⟩

def read (r : Reader) (t : Text) : Reader := t.foldl next r

@[simp] theorem read_nil (r : Reader) : r.read [] = r := rfl

@[simp] theorem read_cons (r : Reader) (c : CodePoint) (t : Text) : r.read (c :: t) = (r.next c).read t := rfl

theorem read_append (r : Reader) (a b : Text) : r.read (a ++ b) = (r.read a).read b := List.foldl_append

theorem next_of_isWord {r : Reader} {c : CodePoint} (code : r.quoting = .code) (word : isWord c = true) :
    r.next c = { r with word := r.word ++ [c] } := if_pos ⟨code, word⟩

theorem next_of_not_isWord {c : CodePoint} (word : isWord c = false) (r : Reader) :
    r.next c = ⟨r.quoting.next c, [], r.word :: r.words⟩ := if_neg fun h => by simp [word] at h

theorem next_of_not_code {r : Reader} (code : r.quoting ≠ .code) (c : CodePoint) :
    r.next c = ⟨r.quoting.next c, [], r.word :: r.words⟩ := if_neg fun h => code h.1

/-- The words of code that are over once the text ends. -/
def spoken (r : Reader) : List Text := r.word :: r.words

theorem mem_words_read {w : Text} {r : Reader} (mem : w ∈ r.words) (t : Text) : w ∈ (r.read t).words := by
  induction t generalizing r with
  | nil => exact mem
  | cons c t ih =>
    apply ih
    unfold next
    split
    · exact mem
    · exact List.mem_cons_of_mem _ mem

theorem mem_spoken_read {t : Text} (stop : Stops isWord t) (r : Reader) : r.word ∈ (r.read t).spoken := by
  cases t with
  | nil => exact List.mem_cons_self
  | cons c t =>
    rw [read_cons, next_of_not_isWord (stops_cons.mp stop)]
    exact List.mem_cons_of_mem _ (mem_words_read List.mem_cons_self t)

theorem quoting_next (r : Reader) (c : CodePoint) : (r.next c).quoting = r.quoting.next c := by
  unfold next
  split
  · next inside =>
    rw [inside.1, Quoting.next_of_isDull (Quoting.isDull_of_isWord inside.2)]
    rfl
  · rfl

theorem quoting_read (r : Reader) (t : Text) : (r.read t).quoting = r.quoting.after t := by
  induction t generalizing r with
  | nil => rfl
  | cons c t ih => rw [read_cons, ih, quoting_next, Quoting.after_cons]

/-! ## Words -/

theorem read_word {t : Text} (words : ∀ c ∈ t, isWord c = true) {r : Reader} (code : r.quoting = .code) :
    r.read t = { r with word := r.word ++ t } := by
  induction t generalizing r with
  | nil => simp
  | cons c t ih =>
    rw [List.forall_mem_cons] at words
    rw [read_cons, next_of_isWord code words.1, ih words.2]
    · simp
    · exact code

/-- A reader of no word that reads one word character or another behind code is in no word. -/
def Idle (back : Text) (r : Reader) : Prop := Stops isWord back → r.word = []

theorem idle_next (back : Text) (c : CodePoint) (r : Reader) : Idle (c :: back) (r.next c) := by
  intro stop
  rw [next_of_not_isWord (stops_cons.mp stop)]

/-- Behind a text that was read, the reader is in no word if the text ends outside of one. -/
theorem idle_read {t : Text} (ne : t ≠ []) (back : Text) (r : Reader) :
    Idle (t.reverse ++ back) (r.read t) := by
  induction t generalizing back r with
  | nil => exact absurd rfl ne
  | cons c t ih =>
    rw [read_cons, List.reverse_cons, List.append_assoc, List.singleton_append]
    cases t with
    | nil => exact idle_next back c r
    | cons d t => exact ih (List.cons_ne_nil d t) (c :: back) (r.next c)

theorem word_read {t : Text} (ne : t ≠ []) (others : ∀ c ∈ t, isWord c = false) (r : Reader) :
    (r.read t).word = [] := by
  refine idle_read ne [] r ?_
  intro c mem
  rw [List.append_nil, List.head?_reverse] at mem
  exact others c (List.mem_of_getLast? mem)

theorem infix_of_mem_spoken {t w : Text} (mem : w ∈ (({} : Reader).read t).spoken) :
    w <:+: t ∧ ∀ c ∈ w, isWord c = true := by
  have general (t : Text) : ∀ (front : Text) (r : Reader), r.word <:+ front →
      (∀ w ∈ r.spoken, w <:+: front ∧ ∀ c ∈ w, isWord c = true) →
      ∀ w ∈ (r.read t).spoken, w <:+: front ++ t ∧ ∀ c ∈ w, isWord c = true := by
    induction t with
    | nil => exact fun front r _ met w mem => by simpa using met w mem
    | cons c t ih =>
      intro front r last met w mem
      have before (w : Text) (mem : w ∈ r.spoken) : w <:+: front ++ [c] ∧ ∀ d ∈ w, isWord d = true :=
        ⟨(met w mem).1.trans (List.prefix_append front [c]).isInfix, (met w mem).2⟩
      have step := ih (front ++ [c]) (r.next c)
      rw [List.append_assoc, List.singleton_append] at step
      refine step ?_ ?_ w mem
      · unfold next
        split
        · obtain ⟨more, rfl⟩ := last
          exact ⟨more, by simp⟩
        · exact List.nil_suffix
      · unfold next
        split
        · next inside =>
          obtain ⟨more, rfl⟩ := last
          refine List.forall_mem_cons.mpr ⟨⟨⟨more, [], by simp⟩, ?_⟩, ?_⟩
          · have here := (met r.word List.mem_cons_self).2
            simpa [or_imp, forall_and, inside.2] using here
          · exact fun w mem => before w (List.mem_cons_of_mem _ mem)
        · exact List.forall_mem_cons.mpr ⟨⟨List.nil_infix, by simp⟩, before⟩
  have whole := general t [] {} List.nil_suffix (by simp [spoken]) w mem
  rwa [List.nil_append] at whole

end Reader

/-! ## Texts read side by side -/

/-- How a text is rewritten from a point on: a character is kept, or a stretch is swapped for another
one. `swap back m m' rest` says which stretches can be swapped between which texts. -/
inductive Rewrites (swap : (back m m' rest : Text) → Prop) : (back t out : Text) → Prop where
  | done (back : Text) : Rewrites swap back [] []
  | keep {back rest out : Text} (c : CodePoint) (later : Rewrites swap (c :: back) rest out) :
      Rewrites swap back (c :: rest) (c :: out)
  | swap {back m m' rest out : Text} (here : swap back m m' rest)
      (later : Rewrites swap (m.reverse ++ back) rest out) : Rewrites swap back (m ++ rest) (m' ++ out)

/-- What every kept character and every swapped stretch keeps is kept over the whole text. -/
theorem Rewrites.read {swap : Text → Text → Text → Text → Prop} (inv : Text → Text → Reader → Reader → Prop)
    (kept : ∀ back c rest a b, inv back (c :: rest) a b → inv (c :: back) rest (a.next c) (b.next c))
    (swapped : ∀ back m m' rest a b, swap back m m' rest → inv back (m ++ rest) a b →
      inv (m.reverse ++ back) rest (a.read m') (b.read m))
    {back t out : Text} (h : Rewrites swap back t out) :
    ∀ a b, inv back t a b → inv (t.reverse ++ back) [] (a.read out) (b.read t) := by
  induction h with
  | done back => exact fun a b start => start
  | keep c later ih =>
    intro a b start
    have next := ih _ _ (kept _ _ _ _ _ start)
    rwa [List.reverse_cons, List.append_assoc, List.singleton_append]
  | swap here later ih =>
    intro a b start
    have next := ih _ _ (swapped _ _ _ _ _ _ here start)
    rwa [Reader.read_append, Reader.read_append, List.reverse_append, List.append_assoc]

/-- Whether a reader is where another one is and has met no words but those of the other and some that
are allowed. The words that they are in may differ where they are over. -/
structure Covers (allowed : Text → Prop) (rest : Text) (a b : Reader) : Prop where
  quoting : a.quoting = b.quoting
  words : ∀ w ∈ a.words, w ∈ b.words ∨ allowed w
  word : a.word = b.word ∨ Stops isWord rest ∧ allowed a.word

namespace Covers

variable {allowed : Text → Prop} {rest : Text} {a b c : Reader}

theorem refl (r : Reader) : Covers allowed rest r r := ⟨rfl, fun _ => .inl, .inl rfl⟩

theorem trans (first : Covers allowed [] a b) (second : Covers allowed [] b c) : Covers allowed [] a c := by
  refine ⟨first.quoting.trans second.quoting, fun w mem => ?_, ?_⟩
  · rcases first.words w mem with mem | fine
    · exact second.words w mem
    · exact .inr fine
  · rcases first.word with same | fine
    · rw [same]
      exact second.word
    · exact .inr fine

theorem spoken (h : Covers allowed rest a b) : ∀ w ∈ a.spoken, w ∈ b.spoken ∨ allowed w := by
  intro w mem
  rcases List.mem_cons.mp mem with rfl | mem
  · rcases h.word with same | ⟨-, fine⟩
    · exact .inl (same ▸ List.mem_cons_self)
    · exact .inr fine
  · exact (h.words w mem).imp_left (List.mem_cons_of_mem _)

/-- What is over at the end of a text is over before a character that belongs to no word. -/
theorem of_stops (h : Covers allowed [] a b) (stop : Stops isWord rest) : Covers allowed rest a b :=
  ⟨h.quoting, h.words, h.word.imp_right fun fine => ⟨stop, fine.2⟩⟩

theorem next {d : CodePoint} (h : Covers allowed (d :: rest) a b) :
    Covers allowed rest (a.next d) (b.next d) := by
  by_cases code : a.quoting = .code ∧ isWord d = true
  · -- a word goes on, so it is the same one
    have same : a.word = b.word := by
      refine h.word.resolve_right fun ended => ?_
      have stop := stops_cons.mp ended.1
      rw [code.2] at stop
      cases stop
    rw [Reader.next_of_isWord code.1 code.2, Reader.next_of_isWord (h.quoting ▸ code.1) code.2]
    exact ⟨h.quoting, h.words, .inl (by rw [same])⟩
  · have code' : ¬(b.quoting = .code ∧ isWord d = true) := h.quoting ▸ code
    simp only [Reader.next, if_neg code, if_neg code']
    exact ⟨by rw [h.quoting], h.spoken, .inl rfl⟩

theorem read {t : Text} (h : Covers allowed (t ++ rest) a b) : Covers allowed rest (a.read t) (b.read t) := by
  induction t generalizing a b with
  | nil => exact h
  | cons d t ih => exact ih h.next

end Covers
end SclNarrator
