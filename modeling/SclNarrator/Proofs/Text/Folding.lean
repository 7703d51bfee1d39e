import Mathlib.Data.List.Basic
import SclNarrator.Proofs.Except
import SclNarrator.Proofs.Text.Stretch
import SclNarrator.Text.Case

/-!
Folding and the other case maps. The three maps are tables, so what is said of them comes down to a
check of the tables, number by number.

What is proved:
  1. small letters fold as the text does (`fold_lower`), and so do capitals as long as the text has no
     dotless i (`fold_upper`), whose capital is the capital of another letter;
  2. what the table of capitals gives is made of visible characters that are their own capitals, so a
     text in capitals stays as it is when it is put in capitals again (`upper_upper`), and a text
     without blanks around it has none around its capitals (`trim_upper`).
-/

namespace SclNarrator

/-! ## Folding -/

section

theorem CodePoint.toNat_ofNat {n : Nat} (h : n ≤ 0x10ffff) : (ofNat n).toNat = n := by
  unfold ofNat
  split
  · next half =>
    simp only [toNat]
    omega
  · next character =>
    have valid : n.isValidChar := by
      simp only [firstHalf] at character
      simp only [Nat.isValidChar]
      omega
    rw [toNat, Char.ofNat, dif_pos valid]
    exact UInt32.toNat_ofNatLT ..

theorem forall_ascii {P : CodePoint → Bool}
    (h : (rangeMembers [(0, 127)]).all fun n => P (CodePoint.ofNat n)) {c : CodePoint}
    (small : c.toNat < 128) : P c = true :=
  forall_inRanges h (inRanges_singleton.mpr ⟨Nat.zero_le _, by omega⟩)

/-! ### Tables as maps of numbers -/

/-- The numbers that a run of a case table reaches. -/
def runMembers (run : Nat × Nat × Nat × Int) : List Nat :=
  List.range' run.1 ((run.2.1 - run.1) / run.2.2.1 + 1) run.2.2.1

/-- Whether a run of a case table reaches a number. -/
def runReaches (run : Nat × Nat × Nat × Int) (n : Nat) : Bool :=
  Nat.ble run.1 n && Nat.ble n run.2.1 && Nat.beq ((n - run.1) % run.2.2.1) 0

theorem runReaches_iff {run : Nat × Nat × Nat × Int} {n : Nat} :
    runReaches run n = true ↔
      run.1 ≤ n ∧ n ≤ run.2.1 ∧ (n - run.1) % run.2.2.1 = 0 := by
  simp [runReaches, and_assoc]

theorem mem_runMembers {run : Nat × Nat × Nat × Int} {n : Nat} (h : runReaches run n = true) :
    n ∈ runMembers run := by
  obtain ⟨first, last, step, shift⟩ := run
  obtain ⟨low, high, exact⟩ := runReaches_iff.mp h
  dsimp only at low high exact
  refine List.mem_range'.mpr ⟨(n - first) / step, ?_, ?_⟩
  · have : (n - first) / step ≤ (last - first) / step := Nat.div_le_div_right (by omega)
    exact Nat.lt_succ_of_le this
  · have := Nat.div_add_mod (n - first) step
    dsimp only
    omega

theorem beq_eq_false {m n : Nat} (h : m ≠ n) : Nat.beq m n = false :=
  Bool.eq_false_iff.mpr fun same => h (Nat.eq_of_beq_eq_true same)

/-- The numbers of a counterpart under a case table, in one pass over the table. -/
def counterpartNumbers (runs : List (Nat × Nat × Nat × Int)) (expansions : List (Nat × List Nat))
    (n : Nat) : List Nat :=
  expansions.foldr (fun e other => bif Nat.beq n e.1 then e.2 else other)
    (runs.foldr (fun run other =>
      bif runReaches run n then [((n : Int) + run.2.2.2).toNat] else other) [n])

variable {runs : List (Nat × Nat × Nat × Int)} {expansions : List (Nat × List Nat)}

theorem foldr_runs_eq (runs : List (Nat × Nat × Nat × Int)) (n : Nat) :
    runs.foldr (fun run other =>
      bif runReaches run n then [((n : Int) + run.2.2.2).toNat] else other) [n] =
      [(shifted? runs n).getD n] := by
  induction runs with
  | nil => rfl
  | cons run rest ih =>
    have same : (decide (run.1 ≤ n) && decide (n ≤ run.2.1) && (n - run.1) % run.2.2.1 == 0) =
        runReaches run n := by
      rw [Bool.eq_iff_iff, runReaches_iff]
      simp [and_assoc]
    rw [List.foldr_cons, ih]
    cases reached : runReaches run n with
    | false => simp [shifted?, same, reached]
    | true => simp [shifted?, same, reached]

theorem counterpart_eq (c : CodePoint) :
    counterpart runs expansions c =
      (counterpartNumbers runs expansions c.toNat).map CodePoint.ofNat := by
  induction expansions with
  | nil =>
    rw [counterpart, counterpartNumbers, List.lookup_nil, List.foldr_nil, foldr_runs_eq]
    cases shifted? runs c.toNat with
    | none => simp [CodePoint.ofNat_toNat]
    | some n => rfl
  | cons e rest ih =>
    rw [counterpart] at ih ⊢
    rw [counterpartNumbers, List.foldr_cons, ← counterpartNumbers, List.lookup_cons]
    by_cases same : c.toNat = e.1
    · simp [same]
    · rw [beq_eq_false same, beq_eq_false_iff_ne.mpr same]
      exact ih

theorem counterpart_cases (runs : List (Nat × Nat × Nat × Int))
    (expansions : List (Nat × List Nat)) (c : CodePoint) :
    counterpart runs expansions c = [c] ∨
    (∃ e ∈ expansions, e.1 = c.toNat ∧ counterpart runs expansions c = e.2.map CodePoint.ofNat) ∨
    ∃ run ∈ runs, c.toNat ∈ runMembers run ∧
      counterpart runs expansions c = [CodePoint.ofNat ((c.toNat : Int) + run.2.2.2).toNat] := by
  unfold counterpart
  split
  · next ns found =>
    exact .inr (.inl ⟨(c.toNat, ns), mem_of_lookup found, rfl, rfl⟩)
  · split
    · next n found =>
      obtain ⟨run, first, rfl⟩ := Option.map_eq_some_iff.mp found
      have reached := List.find?_some first
      refine .inr (.inr ⟨run, List.mem_of_find?_eq_some first, mem_runMembers ?_, rfl⟩)
      rw [runReaches_iff]
      simpa [and_assoc] using reached
    · exact .inl rfl

/-! ### Folding as a map of numbers -/

/-- Hands a number on. A kernel that evaluates this computes the number first, for the case it is in. -/
def handOn {α : Type} (n : Nat) (f : Nat → α) : α :=
  match n with
  | 0 => f 0
  | k + 1 => f (k + 1)

theorem handOn_eq {α : Type} (n : Nat) (f : Nat → α) : handOn n f = f n := by
  cases n <;> rfl

def runsIn (block : Nat) (runs : List (Nat × Nat × Nat × Int)) : List (Nat × Nat × Nat × Int) :=
  runs.filter fun run => Nat.ble (run.1 / 64) block && Nat.ble block (run.2.1 / 64)

def expansionsIn (block : Nat) (expansions : List (Nat × List Nat)) : List (Nat × List Nat) :=
  expansions.filter fun e => Nat.beq (e.1 / 64) block

theorem counterpartNumbers_block (n : Nat) :
    counterpartNumbers (runsIn (n / 64) runs) (expansionsIn (n / 64) expansions) n =
      counterpartNumbers runs expansions n := by
  unfold counterpartNumbers runsIn expansionsIn
  rw [List.foldr_filter, List.foldr_filter]
  congr 1
  · funext e other
    by_cases same : n = e.1
    · simp [same]
    · simp [beq_eq_false same]
  · congr 1
    funext run other
    cases reached : runReaches run n with
    | false => simp
    | true =>
      obtain ⟨low, high, -⟩ := runReaches_iff.mp reached
      have first := Nat.div_le_div_right (c := 64) low
      have last := Nat.div_le_div_right (c := 64) high
      simp [first, last]

/-- The numbers of the folded form of a code point. Only one block of the table is looked at, so that the
whole table can be checked number by number. -/
def foldNumbers (n : Nat) : List Nat :=
  bif Nat.ble 128 n then
    handOn (n / 64) fun block =>
      counterpartNumbers (runsIn block foldRuns) (expansionsIn block foldExpansions) n
  else [bif Nat.ble 65 n && Nat.ble n 90 then n + 32 else n]

theorem foldChar_eq (c : CodePoint) : foldChar c = (foldNumbers c.toNat).map CodePoint.ofNat := by
  unfold foldChar foldNumbers
  split
  · next small =>
    have := forall_ascii (P := fun c =>
      decide (c.toLower = CodePoint.ofNat (bif Nat.ble 65 c.toNat && Nat.ble c.toNat 90
        then c.toNat + 32 else c.toNat))) (by decide) small
    have out : Nat.ble 128 c.toNat = false := by
      rw [← Bool.not_eq_true, Nat.ble_eq]
      omega
    rw [out, cond_false, of_decide_eq_true this]
    rfl
  · next large =>
    rw [counterpart_eq, handOn_eq, counterpartNumbers_block, Nat.ble_eq_true_of_le (by omega)]
    rfl

/-- Whether numbers are those of code points that together fold as one code point does. -/
def foldsAs (n : Nat) (ns : List Nat) : Bool :=
  ns.all (Nat.ble · 0x10ffff) && ns.flatMap foldNumbers == foldNumbers n

theorem fold_of_foldsAs {c : CodePoint} {ns : List Nat} (h : foldsAs c.toNat ns = true) :
    (ns.map CodePoint.ofNat).flatMap foldChar = foldChar c := by
  simp only [foldsAs, Bool.and_eq_true, List.all_eq_true, Nat.ble_eq, beq_iff_eq] at h
  obtain ⟨valid, same⟩ := h
  rw [foldChar_eq c, ← same, List.map_flatMap, List.flatMap_map]
  refine List.flatMap_congr fun n mem => ?_
  rw [foldChar_eq, CodePoint.toNat_ofNat (valid n mem)]

/-- Whether a case table keeps the folding of every number that `among` admits. -/
def keepsFolding (among : Nat → Bool) (runs : List (Nat × Nat × Nat × Int))
    (expansions : List (Nat × List Nat)) : Bool :=
  (expansions.all fun e => !among e.1 || foldsAs e.1 e.2) &&
  runs.all fun run => (runMembers run).all fun n => handOn n fun n =>
    !among n || handOn ((n : Int) + run.2.2.2).toNat fun m => foldsAs n [m]

theorem fold_counterpart {among : Nat → Bool} (h : keepsFolding among runs expansions = true)
    {c : CodePoint} (hc : among c.toNat = true) :
    (counterpart runs expansions c).flatMap foldChar = foldChar c := by
  simp only [keepsFolding, handOn_eq, Bool.and_eq_true, List.all_eq_true] at h
  obtain ⟨expanded, shifted⟩ := h
  rcases counterpart_cases runs expansions c with
    same | ⟨e, mem, key, same⟩ | ⟨run, mem, member, same⟩
  · rw [same, List.flatMap_singleton]
  · have := expanded e mem
    rw [key, hc, Bool.not_true, Bool.false_or] at this
    rw [same, fold_of_foldsAs this]
  · have := shifted run mem _ member
    rw [hc, Bool.not_true, Bool.false_or] at this
    rw [same, ← fold_of_foldsAs this, List.map_singleton]

/-! ### The case maps -/

theorem fold_lowerChar (c : CodePoint) : (lowerChar c).flatMap foldChar = foldChar c := by
  unfold lowerChar
  split
  · next small =>
    have := forall_ascii (P := fun c => decide ([c.toLower].flatMap foldChar = foldChar c))
      (by decide) small
    exact of_decide_eq_true this
  · have table : keepsFolding (fun _ => true) lowerRuns lowerExpansions = true := by decide +kernel
    exact fold_counterpart table rfl

theorem fold_upperChar {c : CodePoint} (h : c ≠ 'ı') :
    (upperChar c).flatMap foldChar = foldChar c := by
  unfold upperChar
  split
  · next small =>
    have := forall_ascii (P := fun c => decide ([c.toUpper].flatMap foldChar = foldChar c))
      (by decide) small
    exact of_decide_eq_true this
  · have table : keepsFolding (fun n => !Nat.beq n 0x131) upperRuns upperExpansions = true := by
      decide +kernel
    refine fold_counterpart table ?_
    rw [beq_eq_false, Bool.not_false]
    intro number
    apply h
    rw [← CodePoint.ofNat_toNat c, number]
    decide

/-- What a character folds to is not empty, and starts with a number sign for that sign only. -/
theorem foldChar_head (c : CodePoint) :
    ∃ d rest, foldChar c = d :: rest ∧ (d = '#' → c = '#') := by
  unfold foldChar
  split
  · next small =>
    have := forall_ascii (P := fun c => c.toLower != '#' || c == '#') (by decide) small
    refine ⟨c.toLower, [], rfl, fun sign => ?_⟩
    simpa [sign] using this
  · rcases counterpart_cases foldRuns foldExpansions c with
      same | ⟨e, mem, -, same⟩ | ⟨run, mem, member, same⟩
    · exact ⟨c, [], same, id⟩
    · have table : (foldExpansions.all fun e =>
          (e.2.head?.map CodePoint.ofNat).any (· != CodePoint.char '#')) = true := by decide +kernel
      have first := List.all_eq_true.mp table e mem
      cases ns : e.2 with
      | nil => simp [ns] at first
      | cons n ns' =>
        refine ⟨.ofNat n, ns'.map CodePoint.ofNat, by rw [same, ns, List.map_cons], fun sign => ?_⟩
        simp [ns, sign] at first
    · have table : (foldRuns.all fun run => (runMembers run).all fun n =>
          CodePoint.ofNat ((n : Int) + run.2.2.2).toNat != '#') = true := by decide +kernel
      have target := List.all_eq_true.mp (List.all_eq_true.mp table run mem) _ member
      refine ⟨_, [], same, fun sign => ?_⟩
      simp [sign] at target

namespace Text

@[simp] theorem fold_cons (c : CodePoint) (t : Text) : fold (c :: t) = foldChar c ++ fold t := rfl

@[simp] theorem fold_append (s t : Text) : (s ++ t).fold = s.fold ++ t.fold :=
  List.flatMap_append

theorem fold_lowerFrom (back t : Text) : (lowerFrom back t).fold = t.fold := by
  induction t generalizing back with
  | nil => rfl
  | cons c rest ih =>
    rw [lowerFrom, fold_append, fold_cons, ih]
    congr 1
    split
    · next sigma =>
      subst sigma
      -- both small sigmas fold as the capital does
      split <;> decide +kernel
    · exact fold_lowerChar c

/-- A text in small letters folds as the text does. -/
theorem fold_lower (t : Text) : t.lower.fold = t.fold := fold_lowerFrom [] t

/-- A text in capitals folds as the text does, if it has no dotless i. -/
theorem fold_upper {t : Text} (h : CodePoint.char 'ı' ∉ t) : t.upper.fold = t.fold := by
  induction t with
  | nil => rfl
  | cons c rest ih =>
    have other : c ≠ 'ı' := fun same => h (same ▸ List.mem_cons_self)
    have later := ih fun mem => h (List.mem_cons_of_mem _ mem)
    rw [upper] at later ⊢
    rw [List.flatMap_cons, fold_append, fold_cons, later, fold, fold_upperChar other]

theorem head?_fold {t : Text} (h : t.head? ≠ some (.char '#')) : t.fold.head? ≠ some (.char '#') := by
  cases t with
  | nil => exact h
  | cons c rest =>
    obtain ⟨d, ds, form, sign⟩ := foldChar_head c
    intro first
    rw [fold_cons, form, List.cons_append, List.head?_cons, Option.some_inj] at first
    exact h (by rw [sign first]; rfl)

theorem head?_dropLeading (t : Text) : (dropLeading '#' t).head? ≠ some (.char '#') := by
  intro first
  have := List.head?_dropWhile_not (· == CodePoint.char '#') t
  rw [dropLeading] at first
  rw [first] at this
  simp at this

theorem dropLeading_of_head? {t : Text} (h : t.head? ≠ some (.char '#')) : dropLeading '#' t = t := by
  cases t with
  | nil => rfl
  | cons c rest =>
    have other : c ≠ '#' := fun same => h (by rw [same]; rfl)
    rw [dropLeading, List.dropWhile_cons_of_neg (by simpa using other)]

end Text

end

/-! ## Capitals -/

/-- Whether a number is that of a code point which the table of capitals leaves alone. Only one
block of the table is looked at. -/
def isOwnCapital (n : Nat) : Bool :=
  bif Nat.ble 128 n then
    handOn (n / 64) fun block =>
      counterpartNumbers (runsIn block upperRuns) (expansionsIn block upperExpansions) n == [n]
  else !(Nat.ble 97 n && Nat.ble n 122)

theorem upperChar_of_isOwnCapital {c : CodePoint} (h : isOwnCapital c.toNat = true) : upperChar c = [c] := by
  unfold isOwnCapital at h
  rw [upperChar]
  split
  · next small =>
    have out : Nat.ble 128 c.toNat = false := by
      rw [← Bool.not_eq_true, Nat.ble_eq]
      omega
    rw [out, cond_false] at h
    have letter := forall_ascii (P := fun c => (Nat.ble 97 c.toNat && Nat.ble c.toNat 122) || c.toUpper == c)
      (by decide) small
    rw [Bool.not_eq_true'] at h
    rw [h, Bool.false_or, beq_iff_eq] at letter
    rw [letter]
  · next large =>
    rw [Nat.ble_eq_true_of_le (by omega), cond_true, handOn_eq, counterpartNumbers_block, beq_iff_eq] at h
    rw [counterpart_eq, h, List.map_singleton, CodePoint.ofNat_toNat]

/-- Whether a number is that of a visible code point which is its own capital. -/
def isCapitalForm (n : Nat) : Bool := Nat.ble n 0x10ffff && !inRanges blankRanges n && isOwnCapital n

/-- A character is its own capital, or its capital form is made of visible characters that are their own. -/
theorem upperChar_cases (c : CodePoint) :
    upperChar c = [c] ∨ upperChar c ≠ [] ∧ ∀ d ∈ upperChar c, isBlank d = false ∧ upperChar d = [d] := by
  have form {n : Nat} (h : isCapitalForm n = true) :
      isBlank (CodePoint.ofNat n) = false ∧ upperChar (CodePoint.ofNat n) = [CodePoint.ofNat n] := by
    simp only [isCapitalForm, Bool.and_eq_true, Nat.ble_eq, Bool.not_eq_true'] at h
    obtain ⟨⟨valid, visible⟩, own⟩ := h
    rw [← CodePoint.toNat_ofNat valid] at visible own
    exact ⟨visible, upperChar_of_isOwnCapital own⟩
  by_cases small : c.toNat < 128
  · have letters := forall_ascii (P := fun c => c.toUpper == c || isCapitalForm c.toUpper.toNat)
      (by decide) small
    rw [upperChar, if_pos small]
    rw [Bool.or_eq_true, beq_iff_eq] at letters
    obtain same | capital := letters
    · exact .inl (by rw [same])
    · have made := form capital
      rw [CodePoint.ofNat_toNat] at made
      exact .inr ⟨by simp, by simpa using made⟩
  · rw [upperChar, if_neg small]
    obtain same | ⟨e, among, -, same⟩ | ⟨run, among, member, same⟩ :=
      counterpart_cases upperRuns upperExpansions c
    · exact .inl same
    · have table : (upperExpansions.all fun e => !e.2.isEmpty && e.2.all isCapitalForm) = true := by
        decide +kernel
      obtain ⟨nonempty, all⟩ := Bool.and_eq_true_iff.mp (List.all_eq_true.mp table e among)
      rw [same]
      refine .inr ⟨by simpa using nonempty, fun d mem => ?_⟩
      obtain ⟨n, number, rfl⟩ := List.mem_map.mp mem
      exact form (List.all_eq_true.mp all n number)
    · have table : (upperRuns.all fun run => (runMembers run).all fun n =>
          handOn ((n : Int) + run.2.2.2).toNat isCapitalForm) = true := by decide +kernel
      have found := List.all_eq_true.mp (List.all_eq_true.mp table run among) _ member
      rw [handOn_eq] at found
      rw [same]
      exact .inr ⟨by simp, by simpa using form found⟩

namespace Text

/-- Capitals are their own capitals. -/
theorem upper_upper (t : Text) : t.upper.upper = t.upper := by
  have own : ∀ d ∈ t.upper, upperChar d = [d] := by
    intro d mem
    obtain ⟨c, -, made⟩ := List.mem_flatMap.mp mem
    obtain same | ⟨-, capitals⟩ := upperChar_cases c
    · rw [same, List.mem_singleton] at made
      rw [made, same]
    · exact (capitals d made).2
  rw [upper, List.flatMap_congr own, List.flatMap_singleton']

theorem visible_upperChar {c : CodePoint} (visible : isBlank c = false) :
    upperChar c ≠ [] ∧ ∀ d ∈ upperChar c, isBlank d = false := by
  obtain same | ⟨nonempty, capitals⟩ := upperChar_cases c
  · rw [same]
    exact ⟨by simp, by simpa using visible⟩
  · exact ⟨nonempty, fun d mem => (capitals d mem).1⟩

theorem stops_upper {t : Text} (h : Stops isBlank t) : Stops isBlank t.upper := by
  cases t with
  | nil => exact stops_nil
  | cons c t =>
    obtain ⟨nonempty, visible⟩ := visible_upperChar (stops_cons.mp h)
    rw [upper, List.flatMap_cons]
    exact Stops.append (fun d mem => visible d (List.mem_of_mem_head? mem)) nonempty

theorem stops_reverse_upper {t : Text} (h : Stops isBlank t.reverse) : Stops isBlank t.upper.reverse := by
  obtain rfl | ⟨t, c, rfl⟩ := List.eq_nil_or_concat t
  · exact stops_nil
  · rw [List.concat_eq_append, List.reverse_append, List.reverse_singleton, List.singleton_append,
      stops_cons] at h
    obtain ⟨nonempty, visible⟩ := visible_upperChar h
    rw [List.concat_eq_append, upper, List.flatMap_append, List.flatMap_singleton, List.reverse_append]
    refine Stops.append (fun d mem => visible d ?_) (by simpa using nonempty)
    exact List.mem_reverse.mp (List.mem_of_mem_head? mem)

/-- The capitals of a trimmed text have no blanks around them. -/
theorem trim_upper (t : Text) : t.trim.upper.trim = t.trim.upper := by
  obtain ⟨start, finish⟩ := stops_trim t
  exact trim_of_stops (stops_upper start) (stops_reverse_upper finish)

end Text

end SclNarrator
