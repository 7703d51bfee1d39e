/-!
Work that can fail, taken apart: what a success or a failure says about its parts, and where an entry
that is looked up comes from.
-/

namespace SclNarrator

variable {ε α β : Type}

/-- A sequence succeeds only if its first part does and the second does with what that gave. -/
theorem ok_of_bind {x : Except ε α} {f : α → Except ε β} {b : β} (h : (x >>= f) = .ok b) :
    ∃ a, x = .ok a ∧ f a = .ok b := by
  cases x with
  | error e => cases h
  | ok a => exact ⟨a, rfl, h⟩

theorem ok_of_map {x : Except ε α} {f : α → β} {b : β} (h : x.map f = .ok b) :
    ∃ a, x = .ok a ∧ f a = b := by
  cases x with
  | error e => cases h
  | ok a =>
    cases h
    exact ⟨a, rfl, rfl⟩

@[simp] theorem ok_bind (a : α) (f : α → Except ε β) : (Except.ok a >>= f) = f a := rfl

@[simp] theorem error_bind (e : ε) (f : α → Except ε β) :
    ((Except.error e : Except ε α) >>= f) = .error e := rfl

theorem mapM_congr {f g : α → Except ε β} {xs : List α} (same : ∀ x ∈ xs, f x = g x) :
    xs.mapM f = xs.mapM g := by
  induction xs with
  | nil => rfl
  | cons x rest ih =>
    rw [List.forall_mem_cons] at same
    rw [List.mapM_cons, List.mapM_cons, same.1, ih same.2]

/-- Work along a list fails at an element behind some for which it succeeds. -/
theorem error_of_foldlM {step : β → α → Except ε β} {xs : List α} {start : β} {e : ε}
    (h : xs.foldlM step start = .error e) :
    ∃ before x after middle, xs = before ++ x :: after ∧ before.foldlM step start = .ok middle ∧
      step middle x = .error e := by
  induction xs generalizing start with
  | nil => cases h
  | cons x rest ih =>
    rw [List.foldlM_cons] at h
    cases first : step start x with
    | error e' =>
      rw [first] at h
      cases h
      exact ⟨[], x, rest, start, rfl, rfl, first⟩
    | ok next =>
      rw [first] at h
      obtain ⟨before, y, after, middle, whole, done, failed⟩ := ih h
      refine ⟨x :: before, y, after, middle, by rw [whole, List.cons_append], ?_, failed⟩
      rw [List.foldlM_cons, first]
      exact done

theorem foldlM_kept {step : β → α → Except ε β} {P : β → Prop} {xs : List α} {start last : β}
    (h : xs.foldlM step start = .ok last)
    (kept : ∀ b x b', x ∈ xs → step b x = .ok b' → P b → P b') (first : P start) : P last := by
  induction xs generalizing start with
  | nil =>
    cases h
    exact first
  | cons x rest ih =>
    obtain ⟨next, made, later⟩ := ok_of_bind h
    apply ih later
    · exact fun b y b' mem => kept b y b' (List.mem_cons_of_mem _ mem)
    · exact kept start x next List.mem_cons_self made first

theorem mapM_fails_iff {f : α → Except ε β} {xs : List α} :
    (∃ e, xs.mapM f = .error e) ↔ ∃ x ∈ xs, ∃ e, f x = .error e := by
  induction xs with
  | nil =>
    constructor
    · rintro ⟨e, h⟩
      cases h
    · rintro ⟨x, mem, -⟩
      cases mem
  | cons x rest ih =>
    rw [List.mapM_cons]
    cases first : f x with
    | error e => exact ⟨fun _ => ⟨x, List.mem_cons_self, e, first⟩, fun _ => ⟨e, rfl⟩⟩
    | ok b =>
      have later : (∃ e, (do let bs ← rest.mapM f; return b :: bs) = .error e) ↔
          ∃ e, rest.mapM f = .error e := by
        cases rest.mapM f with
        | error e => exact ⟨fun _ => ⟨e, rfl⟩, fun _ => ⟨e, rfl⟩⟩
        | ok bs =>
          constructor
          · rintro ⟨e, h⟩
            cases h
          · rintro ⟨e, h⟩
            cases h
      rw [ok_bind, later, ih]
      simp [first]

/-- Work on each element of a list succeeds if it does for each of them, and what holds of each
result holds of all. -/
theorem exists_mapM {f : α → Except ε β} {P : β → Prop} {xs : List α}
    (each : ∀ x ∈ xs, ∃ b, f x = .ok b ∧ P b) :
    ∃ bs, xs.mapM f = .ok bs ∧ ∀ b ∈ bs, P b := by
  induction xs with
  | nil => exact ⟨[], rfl, fun _ mem => absurd mem List.not_mem_nil⟩
  | cons x rest ih =>
    rw [List.forall_mem_cons] at each
    obtain ⟨⟨b, made, holds⟩, others⟩ := each
    obtain ⟨bs, later, all⟩ := ih others
    refine ⟨b :: bs, ?_, List.forall_mem_cons.mpr ⟨holds, all⟩⟩
    rw [List.mapM_cons, made, ok_bind, later, ok_bind]
    rfl

theorem mem_of_lookup {κ : Type} [BEq κ] [LawfulBEq κ] {entries : List (κ × α)} {k : κ} {a : α}
    (h : entries.lookup k = some a) : (k, a) ∈ entries := by
  obtain ⟨before, after, whole, -⟩ := List.lookup_eq_some_iff.mp h
  rw [whole]
  exact List.mem_append_right before List.mem_cons_self

/-! ## Two pieces of work -/

/-- Whether two pieces of work both fail, with one fault, or both give results that are related. -/
inductive Likewise (R : α → α → Prop) : Except ε α → Except ε α → Prop where
  | ok {a b : α} (h : R a b) : Likewise R (.ok a) (.ok b)
  | error (e : ε) : Likewise R (.error e) (.error e)

namespace Likewise

variable {R : α → α → Prop} {S : β → β → Prop} {x x' : Except ε α} {f f' : α → Except ε β}

/-- Work that goes on alike with related results. -/
theorem bind (first : Likewise R x x') (second : ∀ a a', R a a' → Likewise S (f a) (f' a')) :
    Likewise S (x >>= f) (x' >>= f') := by
  cases first with
  | ok related => exact second _ _ related
  | error e => exact .error e

theorem eq (h : Likewise R x x') (same : ∀ a a', R a a' → a = a') : x = x' := by
  cases h with
  | ok related => rw [same _ _ related]
  | error e => rfl

theorem foldlM {step : β → α → Except ε β} {xs : List α}
    (alike : ∀ x ∈ xs, ∀ b b', S b b' → Likewise S (step b x) (step b' x)) {b b' : β} (h : S b b') :
    Likewise S (xs.foldlM step b) (xs.foldlM step b') := by
  induction xs generalizing b b' with
  | nil => exact .ok h
  | cons x xs ih =>
    rw [List.forall_mem_cons] at alike
    rw [List.foldlM_cons, List.foldlM_cons]
    exact (alike.1 b b' h).bind fun _ _ next => ih alike.2 next

/-- Work on each element of a list gives the same on a condition if it does for each element. -/
theorem mapM {P : Prop} {g g' : α → Except ε β} {xs : List α}
    (alike : ∀ x ∈ xs, Likewise (fun b b' => P → b = b') (g x) (g' x)) :
    Likewise (fun bs bs' => P → bs = bs') (xs.mapM g) (xs.mapM g') := by
  induction xs with
  | nil => exact .ok fun _ => rfl
  | cons x xs ih =>
    rw [List.forall_mem_cons] at alike
    rw [List.mapM_cons, List.mapM_cons]
    refine alike.1.bind fun b b' first => (ih alike.2).bind fun bs bs' rest => .ok fun holds => ?_
    rw [first holds, rest holds]

end Likewise
end SclNarrator
