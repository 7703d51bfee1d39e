import Mathlib.Data.List.Induction
import Mathlib.Data.List.Nodup
import Mathlib.Data.List.Perm.Basic
import SclNarrator.Json.Basic
import SclNarrator.Proofs.Except

/-!
Lists of values under keys, and the first elements of a list with each key.

What is proved:
  1. a value that is put under a key is found there, and nothing changes under other keys
     (`lookup_putKey`, `filter_putKey`); a new key comes last, and what is said alike of the old and
     the new entry of a known key stays as it was (`map_putKey`);
  2. a look-up does not depend on the order of the entries, as long as one at most has the key
     (`lookup_perm`);
  3. the first elements with each key are what is left of a list that is taken up from left to right
     when an element whose key is known already is passed over (`firstsBy_concat`).
-/

namespace SclNarrator

section Keys

variable {κ α : Type}

/-! ## Look-up -/

section Lookup

variable [BEq κ] [LawfulBEq κ]

theorem lookup_of_mem {entries : List (κ × α)} (keys : (entries.map Prod.fst).Nodup) {e : κ × α}
    (mem : e ∈ entries) : entries.lookup e.1 = some e.2 := by
  cases found : entries.lookup e.1 with
  | none => exact absurd rfl (bne_iff_ne.mp (List.lookup_eq_none_iff.mp found e mem))
  | some b => exact congrArg (fun e => some e.2) (List.inj_on_of_nodup_map keys (mem_of_lookup found) mem rfl)

/-- The first element with a property is the same in two orders of a list that both follow a relation, if the
relation leaves no two of the elements with the property apart in both ways. -/
theorem find?_perm {r : α → α → Prop} {p : α → Bool} {xs ys : List α} (perm : xs.Perm ys)
    (left : xs.Pairwise r) (right : ys.Pairwise r)
    (one : ∀ a ∈ xs, ∀ b ∈ xs, p a = true → p b = true → r a b → r b a → a = b) :
    xs.find? p = ys.find? p := by
  have same : xs.filter p = ys.filter p := by
    refine List.Perm.eq_of_pairwise (fun a b ha hb => ?_) (left.filter p) (right.filter p) (perm.filter p)
    rw [List.mem_filter] at ha hb
    exact one a ha.1 b (perm.mem_iff.mpr hb.1) ha.2 hb.2
  rw [← List.head?_filter, ← List.head?_filter, same]

/-- What stands under a key is the same in two orders, if there is one entry at most. -/
theorem lookup_perm {xs ys : List (κ × α)} {k : κ} (perm : xs.Perm ys)
    (one : ∀ a ∈ xs, ∀ b ∈ xs, a.1 = k → b.1 = k → a = b) : xs.lookup k = ys.lookup k := by
  have found (l : List (κ × α)) : l.lookup k = (l.find? fun e => k == e.1).map Prod.snd := by
    induction l with
    | nil => rfl
    | cons e rest ih =>
      rw [List.lookup_cons, List.find?_cons]
      cases k == e.1 with
      | true => rfl
      | false => exact ih
  have every (l : List (κ × α)) : l.Pairwise fun _ _ => True := List.pairwise_of_forall fun _ _ => trivial
  rw [found, found, find?_perm perm (every xs) (every ys) fun a ha b hb here there _ _ => ?_]
  exact one a ha b hb (eq_of_beq here).symm (eq_of_beq there).symm

end Lookup

theorem lookup_cons [BEq κ] [LawfulBEq κ] [DecidableEq κ] (k : κ) (e : κ × α) (rest : List (κ × α)) :
    (e :: rest).lookup k = if k = e.1 then some e.2 else rest.lookup k := by
  rw [List.lookup_cons]
  by_cases same : k = e.1
  · simp [same]
  · rw [if_neg same, beq_eq_false_iff_ne.mpr same]

/-! ## Putting a value under a key -/

variable [DecidableEq κ] {key : κ} {a : α} {entries : List (κ × α)}

theorem putKey_append_of_not_mem {front : List (κ × α)} (h : ∀ e ∈ front, e.1 ≠ key) (back : List (κ × α)) :
    putKey key a (front ++ back) = front ++ putKey key a back := by
  induction front with
  | nil => rfl
  | cons e rest ih =>
    rw [List.forall_mem_cons] at h
    rw [List.cons_append, putKey, if_neg h.1, ih h.2]
    rfl

theorem mem_putKey {e : κ × α} (h : e ∈ putKey key a entries) : e = (key, a) ∨ e ∈ entries := by
  induction entries with
  | nil => exact .inl (List.mem_singleton.mp h)
  | cons head rest ih =>
    rw [putKey] at h
    split at h
    · exact (List.mem_cons.mp h).imp id (List.mem_cons_of_mem _)
    · rcases List.mem_cons.mp h with rfl | h
      · exact .inr List.mem_cons_self
      · exact (ih h).imp id (List.mem_cons_of_mem _)

/-- Putting a value among entries of which some are kept, if it is kept and gives way to none that is not. -/
theorem filter_putKey_of_kept {p : κ × α → Bool} (new : p (key, a) = true)
    (old : ∀ e ∈ entries, e.1 = key → p e = true) :
    (putKey key a entries).filter p = putKey key a (entries.filter p) := by
  induction entries with
  | nil => simp [putKey, new]
  | cons e rest ih =>
    rw [List.forall_mem_cons] at old
    rw [putKey]
    by_cases here : e.1 = key
    · rw [if_pos here, List.filter_cons_of_pos new, List.filter_cons_of_pos (old.1 here), putKey, if_pos here]
    · rw [if_neg here, List.filter_cons, List.filter_cons, ih old.2]
      split
      · rw [putKey, if_neg here]
      · rfl

section Other

variable [BEq κ] [LawfulBEq κ]

theorem filter_putKey (key : κ) (a : α) (entries : List (κ × α)) :
    (putKey key a entries).filter (·.1 != key) = entries.filter (·.1 != key) := by
  induction entries with
  | nil => simp [putKey]
  | cons e rest ih =>
    rw [putKey]
    split
    · next same => simp [same]
    · simp only [List.filter_cons, ih]

theorem filter_putKey_of_ne {k : κ} (other : key ≠ k) (a : α) (entries : List (κ × α)) :
    (putKey key a entries).filter (·.1 != k) = putKey key a (entries.filter (·.1 != k)) :=
  filter_putKey_of_kept (by simpa using other) fun e _ here => by simpa [here] using other

theorem lookup_putKey (key k : κ) (a : α) (entries : List (κ × α)) :
    (putKey key a entries).lookup k = if k = key then some a else entries.lookup k := by
  induction entries with
  | nil => rw [putKey, lookup_cons]
  | cons e rest ih =>
    rw [putKey]
    by_cases here : e.1 = key
    · rw [if_pos here, lookup_cons, lookup_cons, here]
      by_cases same : k = key <;> simp [same]
    · rw [if_neg here, lookup_cons, lookup_cons, ih]
      by_cases same : k = e.1
      · simp [same, here]
      · simp [same]

/-- What is said of each entry stays as it was when a value is put among them, if it is said alike of the one
that gives way; a value under a new key is put at the end. -/
theorem map_putKey {β : Type} (f : κ × α → β)
    (same : ∀ old, entries.lookup key = some old → f (key, old) = f (key, a)) :
    (putKey key a entries).map f =
      if key ∈ entries.map Prod.fst then entries.map f else entries.map f ++ [f (key, a)] := by
  induction entries with
  | nil => rfl
  | cons e rest ih =>
    obtain ⟨k, c⟩ := e
    rw [putKey, List.map_cons, List.map_cons]
    by_cases here : k = key
    · subst here
      have alike : f (k, c) = f (k, a) := same c (by rw [lookup_cons, if_pos rfl])
      rw [if_pos rfl, if_pos List.mem_cons_self, List.map_cons, alike]
    · have later : ∀ old, rest.lookup key = some old → f (key, old) = f (key, a) := fun old found =>
        same old (by rw [lookup_cons, if_neg (Ne.symm here), found])
      rw [if_neg here, List.map_cons, ih later]
      simp only [List.mem_cons, Ne.symm here, false_or]
      split
      · rfl
      · rfl

/-- A value that is put somewhere stands beside the entries under other keys. -/
theorem perm_putKey (a : α) (keys : (entries.map Prod.fst).Nodup) :
    (putKey key a entries).Perm ((key, a) :: entries.filter (·.1 != key)) := by
  induction entries with
  | nil => exact .refl _
  | cons e rest ih =>
    rw [List.map_cons, List.nodup_cons] at keys
    rw [putKey]
    by_cases here : e.1 = key
    · have others : rest.filter (·.1 != key) = rest := by
        refine List.filter_eq_self.mpr fun e mem => bne_iff_ne.mpr fun same => keys.1 ?_
        exact List.mem_map.mpr ⟨e, mem, same.trans here.symm⟩
      rw [if_pos here, List.filter_cons_of_neg (by simp [here]), others]
    · rw [if_neg here, List.filter_cons_of_pos (by simpa using here)]
      exact ((ih keys.2).cons _).trans (.swap _ _ _)

end Other
end Keys

/-! ## The first elements with each key -/

variable {α β : Type} [BEq β]

/-- The elements of a list that are the first ones with their keys. -/
def firstsBy (key : α → β) (xs : List α) : List α := xs.eraseDupsBy fun a b => key a == key b

/-- One more element at the end is passed over if its key is known. -/
theorem firstsBy_concat [LawfulBEq β] (key : α → β) (xs : List α) (x : α) :
    firstsBy key (xs ++ [x]) =
      if (firstsBy key xs).any fun a => key a == key x then firstsBy key xs else firstsBy key xs ++ [x] := by
  -- `known` is what was taken up before, the last one first
  have loop : ∀ known, List.eraseDupsBy.loop (fun a b => key a == key b) (xs ++ [x]) known =
      if (List.eraseDupsBy.loop (fun a b => key a == key b) xs known).any fun a => key a == key x then
        List.eraseDupsBy.loop (fun a b => key a == key b) xs known
      else List.eraseDupsBy.loop (fun a b => key a == key b) xs known ++ [x] := by
    induction xs with
    | nil =>
      intro known
      simp only [List.nil_append, List.eraseDupsBy.loop, List.any_reverse, BEq.comm (b := key x)]
      split
      · next passed => rw [if_pos passed]
      · next taken => rw [if_neg (by rw [taken]; decide), List.reverse_cons]
    | cons y xs ih =>
      intro known
      simp only [List.cons_append, List.eraseDupsBy.loop]
      by_cases passed : (known.any fun b => key y == key b) = true
      · simp only [passed]
        exact ih known
      · simp only [Bool.eq_false_iff.mpr passed]
        exact ih (y :: known)
  exact loop []

variable [LawfulBEq β] {key : α → β}

theorem any_key (xs : List α) (k : β) : (xs.any fun a => key a == k) = (xs.map key).contains k := by
  rw [List.contains_eq_any_beq, List.any_map]
  simp only [BEq.comm (a := k)]
  rfl

theorem map_firstsBy (xs : List α) : (firstsBy key xs).map key = (xs.map key).eraseDups := by
  induction xs using List.reverseRecOn with
  | nil => rfl
  | append_singleton xs x ih =>
    rw [firstsBy_concat, any_key, ih, List.map_append, List.eraseDups_append]
    by_cases known : key x ∈ xs.map key
    · rw [if_pos (by simpa using known), ih]
      simp [List.removeAll, known]
    · rw [if_neg (by simpa using known), List.map_append, ih]
      simp [List.removeAll, known, List.eraseDups_cons]

theorem nodup_firstsBy (xs : List α) : ((firstsBy key xs).map key).Nodup := by
  induction xs using List.reverseRecOn with
  | nil => exact List.nodup_nil
  | append_singleton xs x ih =>
    rw [firstsBy_concat, any_key]
    split
    · exact ih
    · next fresh =>
      rw [List.map_append, List.map_singleton, List.nodup_append]
      refine ⟨ih, by simp, fun a mem b same => ?_⟩
      rw [List.mem_singleton.mp same]
      rintro rfl
      exact fresh (by simpa using mem)

theorem countP_firstsBy {xs : List α} {x : α} (mem : x ∈ xs) :
    (firstsBy key xs).countP (fun a => key a == key x) = 1 := by
  have among : key x ∈ (firstsBy key xs).map key := by
    rw [map_firstsBy, List.mem_eraseDups]
    exact List.mem_map_of_mem mem
  have once := List.count_eq_one_of_mem (nodup_firstsBy xs) among
  rwa [List.count, List.countP_map] at once

end SclNarrator
