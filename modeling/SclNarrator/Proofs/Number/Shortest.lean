import Mathlib.Algebra.Order.Field.Power
import Mathlib.Tactic.FieldSimp
import Mathlib.Tactic.Linarith
import Mathlib.Tactic.Positivity
import Mathlib.Tactic.Ring
import SclNarrator.Number.Numeral
import SclNarrator.Proofs.Number.Double
import SclNarrator.Proofs.Number.Numeral

/-!
The fewest digits that read back as a double.

What is proved:
  1. around the size of a double lies an interval of numbers that are nearer to it than to its
     neighbours (`RoundsTo`); a ratio in the interval is read as that double (`ofRatio?_eq`). At the
     least size of a binade the interval is shorter on its lower side, because the neighbour there is
     nearer;
  2. on its way from coarse to fine grids the search for digits ends on a decimal that is rounded to the
     double that it is looking for, before its steps run out; so the decimal reads back as that double.
-/

namespace SclNarrator

/-! ## Which ratios are read as a double -/

/-- A quotient is rounded to the whole number that it is no further than a half away from, and a half
to the even one of two. -/
theorem roundDiv_eq {n d m : Nat} (low : d * (2 * m) ≤ 2 * n + d) (high : 2 * n ≤ d * (2 * m) + d)
    (half : d * (2 * m) = 2 * n + d ∨ 2 * n = d * (2 * m) + d → m % 2 = 0) (pos : 0 < d) :
    roundDiv n d = m := by
  have parts := Nat.div_add_mod n d
  have below := Nat.mod_lt n pos
  generalize quotient : n / d = q at parts
  generalize remainder : n % d = r at parts below
  have twice : d * (2 * q) = 2 * (d * q) := by rw [Nat.mul_left_comm]
  have apart : q = m ∨ q + 1 = m := by
    rcases Nat.lt_or_ge m q with above | le
    · have := Nat.mul_le_mul_left d (show 2 * (m + 1) ≤ 2 * q by omega)
      rw [Nat.mul_add, Nat.mul_add] at this
      omega
    · rcases Nat.lt_or_ge (q + 1) m with far | near
      · have := Nat.mul_le_mul_left d (show 2 * (q + 2) ≤ 2 * m by omega)
        rw [Nat.mul_add, Nat.mul_add] at this
        omega
      · omega
  simp only [roundDiv, quotient, remainder]
  rcases apart with rfl | rfl
  · split
    · rfl
    · rw [if_neg (by omega), if_pos (half (by omega))]
  · rw [Nat.mul_add, Nat.mul_add] at low high half
    rw [if_neg (by omega)]
    split
    · rfl
    · have := half (by omega)
      rw [if_neg (by omega)]

namespace Double

/-- How far below a size, in quarters of units, the numbers go that are rounded to it: half a gap, and
half of that where the gap gets smaller. -/
def below (m k : Nat) : Nat := if m = 2 ^ 52 ∧ 0 < k then 2 ^ k else 2 * 2 ^ k

/-- Whether a number, in units, is rounded to the size `m * 2 ^ k`: it is no further away than half of
the gap on its side, and nearer if `m` is odd. -/
structure RoundsTo (m k : Nat) (u : ℚ) : Prop where
  low : 4 * (m * 2 ^ k) ≤ 4 * u + below m k
  high : 4 * u ≤ 4 * (m * 2 ^ k) + 2 * 2 ^ k
  half : 4 * (m * 2 ^ k) = 4 * u + below m k ∨ 4 * u = 4 * (m * 2 ^ k) + 2 * 2 ^ k → m % 2 = 0

variable {m k n d : Nat}

/-- The bounds of a quotient that is rounded to a size, without fractions. -/
theorem roundsTo_div_iff (pos : 0 < d) :
    RoundsTo m k ((n : ℚ) / d) ↔
      4 * (m * 2 ^ k) * d ≤ 4 * n + below m k * d ∧ 4 * n ≤ (4 * (m * 2 ^ k) + 2 * 2 ^ k) * d ∧
      (4 * (m * 2 ^ k) * d = 4 * n + below m k * d ∨ 4 * n = (4 * (m * 2 ^ k) + 2 * 2 ^ k) * d →
        m % 2 = 0) := by
  have pos' : (0 : ℚ) < d := by exact_mod_cast pos
  have cancel : 4 * ((n : ℚ) / d) * d = 4 * n := by field_simp
  have low : 4 * ((m : ℚ) * 2 ^ k) ≤ 4 * (n / d) + below m k ↔
      4 * (m * 2 ^ k) * d ≤ 4 * n + below m k * d := by
    rw [← mul_le_mul_iff_left₀ pos', add_mul, cancel]
    exact_mod_cast Iff.rfl
  have high : 4 * ((n : ℚ) / d) ≤ 4 * (m * 2 ^ k) + 2 * 2 ^ k ↔
      4 * n ≤ (4 * (m * 2 ^ k) + 2 * 2 ^ k) * d := by
    rw [← mul_le_mul_iff_left₀ pos', cancel]
    exact_mod_cast Iff.rfl
  have lowest : 4 * ((m : ℚ) * 2 ^ k) = 4 * (n / d) + below m k ↔
      4 * (m * 2 ^ k) * d = 4 * n + below m k * d := by
    rw [← mul_left_inj' pos'.ne', add_mul, cancel]
    exact_mod_cast Iff.rfl
  have highest : 4 * ((n : ℚ) / d) = 4 * (m * 2 ^ k) + 2 * 2 ^ k ↔
      4 * n = (4 * (m * 2 ^ k) + 2 * 2 ^ k) * d := by
    rw [← mul_left_inj' pos'.ne', cancel]
    exact_mod_cast Iff.rfl
  rw [← low, ← high, ← lowest, ← highest]
  exact ⟨fun h => ⟨h.low, h.high, h.half⟩, fun h => ⟨h.1, h.2.1, h.2.2⟩⟩

/-- The rounding that reading a ratio does: to a multiple of the gap around it. -/
def rounded (n d : Nat) : Nat :=
  let step := 2 ^ gapExponent (n / d)
  roundDiv n (d * step) * step

/-- Where the gap below a size is smaller, a number there is rounded on the finer grid, and up to the
size. -/
theorem rounded_below (pos : 0 < d) (near : RoundsTo (2 ^ 52) (k + 1) ((n : ℚ) / d))
    (less : n < 2 ^ 52 * 2 ^ (k + 1) * d) : rounded n d = 2 ^ 52 * 2 ^ (k + 1) := by
  obtain ⟨low, -, -⟩ := (roundsTo_div_iff pos).mp near
  rw [below, if_pos ⟨rfl, k.succ_pos⟩] at low
  have area : 0 < 2 ^ k * d := Nat.mul_pos (Nat.two_pow_pos k) pos
  have double : 2 ^ (k + 1) * d = 2 * (2 ^ k * d) := by rw [Nat.pow_succ', Nat.mul_assoc]
  simp only [Nat.mul_assoc, double] at low less
  have gap : gapExponent (n / d) = k := by
    refine gapExponent_eq (.inr ?_) ?_
    · rw [Nat.le_div_iff_mul_le pos, Nat.mul_assoc]
      omega
    · rw [Nat.div_lt_iff_lt_mul pos, Nat.mul_assoc]
      omega
  have nearest : roundDiv n (d * 2 ^ k) = 2 ^ 53 := by
    rw [Nat.mul_comm d]
    exact roundDiv_eq (by omega) (by omega) (fun _ => rfl) area
  simp only [rounded, gap, nearest, Nat.pow_succ' (n := k)]
  omega

theorem gapExponent_of_roundsTo (pos : 0 < d) (lt : m < 2 ^ 53) (normal : k = 0 ∨ 2 ^ 52 ≤ m)
    (near : RoundsTo m k ((n : ℚ) / d)) (least : m = 2 ^ 52 → 0 < k → 2 ^ 52 * 2 ^ k * d ≤ n) :
    gapExponent (n / d) = k := by
  obtain ⟨low, high, -⟩ := (roundsTo_div_iff pos).mp near
  have area : 0 < 2 ^ k * d := Nat.mul_pos (Nat.two_pow_pos k) pos
  simp only [Nat.mul_assoc, Nat.add_mul] at low high least
  refine gapExponent_eq (k.eq_zero_or_pos.imp_right fun up => ?_) ?_
  · rw [Nat.le_div_iff_mul_le pos, Nat.mul_assoc]
    by_cases edge : m = 2 ^ 52
    · exact least edge up
    · rw [below, if_neg fun both => edge both.1, Nat.mul_assoc] at low
      have := Nat.mul_le_mul_right (2 ^ k * d) (show 2 ^ 52 + 1 ≤ m by omega)
      omega
  · rw [Nat.div_lt_iff_lt_mul pos, Nat.mul_assoc]
    have := Nat.mul_le_mul_right (2 ^ k * d) (show m ≤ 2 ^ 53 - 1 by omega)
    omega

theorem rounded_eq (pos : 0 < d) (lt : m < 2 ^ 53) (normal : k = 0 ∨ 2 ^ 52 ≤ m)
    (near : RoundsTo m k ((n : ℚ) / d)) : rounded n d = m * 2 ^ k := by
  by_cases edge : (m = 2 ^ 52 ∧ 0 < k) ∧ n < 2 ^ 52 * 2 ^ k * d
  · obtain ⟨⟨rfl, up⟩, less⟩ := edge
    obtain ⟨j, rfl⟩ := Nat.exists_eq_succ_of_ne_zero up.ne'
    exact rounded_below pos near less
  have gap : gapExponent (n / d) = k :=
    gapExponent_of_roundsTo pos lt normal near fun least up =>
      Nat.not_lt.mp fun less => edge ⟨⟨least, up⟩, less⟩
  obtain ⟨low, high, half⟩ := (roundsTo_div_iff pos).mp near
  have area : 0 < 2 ^ k * d := Nat.mul_pos (Nat.two_pow_pos k) pos
  have swap : 2 ^ k * d * (2 * m) = 2 * (m * (2 ^ k * d)) := by
    rw [Nat.mul_left_comm, Nat.mul_comm _ m]
  have nearest : roundDiv n (2 ^ k * d) = m := by
    simp only [below, Nat.mul_assoc, Nat.add_mul] at low high half
    split at low
    · next least =>
      have even : m % 2 = 0 := by omega
      exact roundDiv_eq (by omega) (by omega) (fun _ => even) area
    · next regular =>
      rw [if_neg regular] at half
      rw [Nat.mul_assoc] at low half
      exact roundDiv_eq (by omega) (by omega) (fun tie => half (by omega)) area
  simp only [rounded, gap, Nat.mul_comm d, nearest]

/-- A ratio is read as the double whose size it is rounded to. -/
theorem ofRatio?_eq {negative : Bool} {units : Nat} (size : IsSize units m k) (pos : 0 < d)
    (near : RoundsTo m k ((n * one : Nat) / d)) : ofRatio? negative n d = ofUnits? negative units := by
  have here : ofRatio? negative n d = ofUnits? negative (rounded (n * one) d) := rfl
  rw [here, rounded_eq pos size.lt size.normal near, size.eq]

end Double

/-! ## The digits -/

namespace Decimal

open Double

/-- The number that digits with an exponent stand for. -/
def decimal (n : Nat) (e : Int) : ℚ := n * 10 ^ e

/-- A power of ten with a whole exponent as a ratio of natural numbers. -/
theorem ten_zpow (e : Int) :
    (10 : ℚ) ^ e = ((10 ^ e.toNat : Nat) : ℚ) / ((10 ^ (-e).toNat : Nat) : ℚ) := by
  rcases Int.le_total 0 e with nonneg | neg
  · obtain ⟨j, rfl⟩ := Int.eq_ofNat_of_zero_le nonneg
    simp
  · obtain ⟨j, same⟩ := Int.eq_ofNat_of_zero_le (show 0 ≤ -e by omega)
    have : e = -(j : Int) := by omega
    subst this
    simp

theorem decimal_mul_one (n : Nat) (e : Int) :
    decimal n e * one = ((n * 10 ^ e.toNat * one : Nat) : ℚ) / ((10 ^ (-e).toNat : Nat) : ℚ) := by
  rw [decimal, ten_zpow]
  push_cast
  ring

variable {units m k n : Nat} {e : Int}

/-- A number that is rounded to a positive size is at least half a unit. -/
theorem half_le_of_roundsTo {u : ℚ} (pos : 0 < m) (near : RoundsTo m k u) : 1 / 2 ≤ u := by
  have low := near.low
  have gap : (1 : ℚ) ≤ 2 ^ k := one_le_pow₀ (by norm_num)
  have least : (below m k : ℚ) ≤ 2 * 2 ^ k := by
    unfold below
    split
    · push_cast
      linarith
    · push_cast
      exact le_refl _
  have many : (1 : ℚ) ≤ m := by exact_mod_cast pos
  nlinarith

/-- A number that is rounded to the size of a double is below the first size that is too large. -/
theorem lt_of_roundsTo {u : ℚ} (lt : m < 2 ^ 53) (small : k < 2046) (near : RoundsTo m k u) :
    u < 2 ^ 1024 * 2 ^ 1074 := by
  have high := near.high
  have most : (m : ℚ) ≤ 2 ^ 53 - 1 := by
    have : (m : ℚ) + 1 ≤ 2 ^ 53 := by exact_mod_cast lt
    linarith
  have gap : (2 : ℚ) ^ k ≤ 2 ^ 2045 := pow_le_pow_right₀ (by norm_num) (by omega)
  have pos : (0 : ℚ) < 2 ^ k := by positivity
  calc u ≤ (m + 1 / 2) * 2 ^ k := by linarith
    _ < 2 ^ 53 * 2 ^ k := by nlinarith
    _ ≤ 2 ^ 53 * 2 ^ 2045 := mul_le_mul_of_nonneg_left gap (by positivity)
    _ = 2 ^ 2098 := (pow_add 2 53 2045).symm
    _ = 2 ^ 1024 * 2 ^ 1074 := pow_add 2 1024 1074

theorem two_pow_cast (j : Nat) : (Nat.pow 2 j : ℚ) = 2 ^ j := by
  rw [Nat.pow_eq, Nat.cast_pow, Nat.cast_ofNat]

theorem one_cast : (one : ℚ) = 2 ^ 1074 := by
  unfold one
  simp only [two_pow_cast]

theorem one_pos : 0 < one := by
  have : (0 : ℚ) < one := by
    rw [one_cast]
    positivity
  exact_mod_cast this

theorem ten_zpow_pos (e : Int) : (0 : ℚ) < 10 ^ e := zpow_pos (by norm_num) e

theorem decimal_lt (n : Nat) (e : Int) : decimal n e < 10 ^ ((Numeral.natText n).length + e) := by
  have few : (n : ℚ) < 10 ^ (Numeral.natText n).length := by
    exact_mod_cast Numeral.lt_pow_length_natText n
  rw [decimal, zpow_add₀ (by norm_num), zpow_natCast]
  exact mul_lt_mul_of_pos_right few (ten_zpow_pos e)

theorem le_decimal (pos : 0 < n) (e : Int) :
    10 ^ ((Numeral.natText n).length + e - 1) ≤ decimal n e := by
  have length := List.length_pos_iff.mpr (Numeral.natText_ne_nil n)
  have many : (10 : ℚ) ^ ((Numeral.natText n).length - 1) ≤ n := by
    exact_mod_cast Numeral.pow_length_natText_le pos
  have split : ((Numeral.natText n).length : Int) + e - 1
      = (((Numeral.natText n).length - 1 : Nat) : Int) + e := by omega
  rw [decimal, split, zpow_add₀ (by norm_num), zpow_natCast]
  exact mul_le_mul_of_nonneg_right many (ten_zpow_pos e).le

/-- A decimal that is rounded to the size of a double is neither too small nor too large to be read. -/
theorem place_of_roundsTo (pos : 0 < m) (lt : m < 2 ^ 53) (small : k < 2046)
    (near : RoundsTo m k (decimal n e * one)) :
    n ≠ 0 ∧ -330 ≤ ((Numeral.natText n).length : Int) + e ∧
      ((Numeral.natText n).length : Int) + e ≤ 310 := by
  have least := half_le_of_roundsTo pos near
  have most := lt_of_roundsTo lt small near
  rw [one_cast] at least most
  have unit : (0 : ℚ) < 2 ^ 1074 := by positivity
  have nonzero : n ≠ 0 := by
    rintro rfl
    simp only [decimal, Nat.cast_zero, zero_mul] at least
    norm_num at least
  refine ⟨nonzero, ?_, ?_⟩
  · by_contra less
    have tiny : (2 : ℚ) * 2 ^ 1074 ≤ 10 ^ 331 := by
      exact_mod_cast (by decide +kernel : 2 * 2 ^ 1074 ≤ 10 ^ 331)
    have place : (10 : ℚ) ^ (((Numeral.natText n).length : Int) + e) ≤ 10 ^ (-331 : Int) :=
      zpow_le_zpow_right₀ (by norm_num) (by omega)
    have bound := mul_lt_mul_of_pos_right ((decimal_lt n e).trans_le place) unit
    have smallest : (10 : ℚ) ^ (-331 : Int) * 2 ^ 1074 ≤ 1 / 2 := by
      rw [zpow_neg, zpow_ofNat, inv_mul_le_iff₀ (by positivity), mul_one_div,
        le_div_iff₀ two_pos, mul_comm]
      exact tiny
    exact absurd (bound.trans_le smallest) (not_lt.mpr least)
  · by_contra more
    have huge : (2 : ℚ) ^ 1024 ≤ 10 ^ 310 := by
      exact_mod_cast (by decide +kernel : 2 ^ 1024 ≤ 10 ^ 310)
    have place : (10 : ℚ) ^ (310 : Int) ≤ 10 ^ (((Numeral.natText n).length : Int) + e - 1) :=
      zpow_le_zpow_right₀ (by norm_num) (by omega)
    have bound := place.trans (le_decimal (Nat.pos_of_ne_zero nonzero) e)
    have above := lt_of_mul_lt_mul_right most unit.le
    exact absurd (huge.trans bound) (not_le.mpr above)

theorem nearest_eq {negative : Bool} {x : Float} (size : IsSize units m k) (small : k < 2046)
    (pos : 0 < m) (same : ofUnits? negative units = some x)
    (near : RoundsTo m k (decimal n e * one)) : nearest negative n e = x := by
  obtain ⟨nonzero, low, high⟩ := place_of_roundsTo pos size.lt small near
  rw [decimal_mul_one] at near
  have ten : 0 < 10 ^ (-e).toNat := Nat.pow_pos (by decide)
  simp only [nearest, Nat.pow_eq]
  rw [if_neg (by omega), if_neg (by omega), ofRatio?_eq size ten near, same, Option.getD_some]

/-! ### The search -/

/-- Whether a point of a grid lies between the bounds. -/
structure Between (low high : Nat) (closed : Bool) (point : Nat) : Prop where
  notBelow : low ≤ point
  notAbove : point ≤ high
  ends : low = point ∨ point = high → closed = true

variable {size low high : Nat} {closed : Bool} {place : Int}

theorem between_iff {point : Nat} : Between low high closed point ↔
    (if closed then decide (low ≤ point) && decide (point ≤ high)
      else decide (low < point) && decide (point < high)) = true := by
  constructor
  · intro h
    have := h.notBelow
    have := h.notAbove
    cases closed with
    | true => simp; omega
    | false =>
      have strict := mt h.ends (by decide)
      simp
      omega
  · intro h
    cases closed with
    | true =>
      simp only [if_true, Bool.and_eq_true, decide_eq_true_eq] at h
      exact ⟨h.1, h.2, fun _ => rfl⟩
    | false =>
      simp only [Bool.false_eq_true, if_false, Bool.and_eq_true, decide_eq_true_eq] at h
      exact ⟨by omega, by omega, fun edge => by omega⟩

theorem between_of_onGrid? {n : Nat} (h : onGrid? size low high closed place = some n) :
    Between (low * 10 ^ (-place).toNat) (high * 10 ^ (-place).toNat) closed
      (n * (4 * one * 10 ^ place.toNat)) := by
  rw [between_iff]
  simp only [onGrid?, Nat.pow_eq] at h
  -- The size of one is of no importance here.
  generalize one = unit at h ⊢
  split at h
  · next below above =>
    cases h
    rcases roundDiv_eq_or (size * 10 ^ (-place).toNat) (4 * unit * 10 ^ place.toNat) with same | same
    · rw [same]; exact below
    · rw [same]; exact above
  · next below above =>
    cases h
    exact below
  · next below above =>
    cases h
    exact above
  · cases h

/-- On a grid that is fine enough the next point below the size lies between the bounds. -/
theorem between_of_fine {scale step : Nat} (scalePos : 0 < scale) (stepPos : 0 < step)
    (above : size < high) (fine : low * scale + step ≤ size * scale) :
    Between (low * scale) (high * scale) closed (size * scale / step * step) := by
  have less := Nat.mul_lt_mul_of_pos_right above scalePos
  have parts := Nat.div_add_mod (size * scale) step
  have rest := Nat.mod_lt (size * scale) stepPos
  rw [Nat.mul_comm step] at parts
  exact ⟨by omega, by omega, fun edge => by omega⟩

theorem onGrid?_ne_none (above : size < high)
    (fine : low * 10 ^ (-place).toNat + 4 * one * 10 ^ place.toNat ≤ size * 10 ^ (-place).toNat) :
    onGrid? size low high closed place ≠ none := by
  intro h
  have ten (j : Nat) : 0 < 10 ^ j := Nat.pow_pos (by decide)
  have step : 0 < 4 * one * 10 ^ place.toNat := Nat.mul_pos (by have := one_pos; omega) (ten _)
  have inside := between_iff.mp (@between_of_fine _ _ _ closed _ _ (ten _) step above fine)
  simp only [onGrid?, Nat.pow_eq] at h
  split at h
  · cases h
  · cases h
  · cases h
  · next outside _ => exact Bool.false_ne_true (outside.symm.trans inside)

/-- The search ends on a grid where something is found, if there is one within its steps. -/
theorem firstGrid_eq {fuel : Nat} (j : Nat) (less : j < fuel)
    (hit : onGrid? size low high closed (place - j) ≠ none) :
    ∃ n found, firstGrid size low high closed fuel place = (n, found) ∧
      onGrid? size low high closed found = some n := by
  induction fuel generalizing place j with
  | zero => omega
  | succ fuel ih =>
    rw [firstGrid]
    cases here : onGrid? size low high closed place with
    | some n => exact ⟨n, place, rfl, here⟩
    | none =>
      cases j with
      | zero => exact absurd here (by simpa using hit)
      | succ j =>
        refine ih j (by omega) ?_
        rwa [show place - 1 - (j : Int) = place - ((j + 1 : Nat) : Int) by omega]

theorem below_pos (m k : Nat) : 2 ^ k ≤ below m k := by
  unfold below
  split <;> omega

theorem below_le (pos : 0 < m) : below m k ≤ 4 * (m * 2 ^ k) := by
  have := Nat.mul_le_mul_right (2 ^ k) (show 1 ≤ m from pos)
  unfold below
  split <;> omega

theorem roundsTo_of_onGrid?
    (h : onGrid? (4 * (m * 2 ^ k)) (4 * (m * 2 ^ k) - below m k) (4 * (m * 2 ^ k) + 2 * 2 ^ k)
      (m % 2 == 0) place = some n) :
    RoundsTo m k (decimal n place * one) := by
  obtain ⟨low, high, ends⟩ := between_of_onGrid? h
  have point : n * (4 * one * 10 ^ place.toNat) = 4 * (n * 10 ^ place.toNat * one) := by ring
  rw [point] at low high ends
  rw [decimal_mul_one, roundsTo_div_iff (Nat.pow_pos (by decide))]
  rw [Nat.sub_mul] at low ends
  refine ⟨by omega, high, fun edge => ?_⟩
  simpa using ends (edge.imp_left fun same => by omega)

/-! ### The first place -/

theorem one_le_leadingPlace {fuel j : Nat} (h : one ≤ units * 10 ^ (j + fuel)) :
    one ≤ units * 10 ^ leadingPlace units fuel j := by
  induction fuel generalizing j with
  | zero => exact h
  | succ fuel ih =>
    rw [leadingPlace]
    split
    · next here => exact here
    · exact ih (by rwa [Nat.add_right_comm, Nat.add_assoc])

theorem firstPlace_le (pos : 0 < units) : 10 ^ firstPlace units * (one : ℚ) ≤ units := by
  unfold firstPlace
  split
  · next large =>
    have whole : 0 < units / one := Nat.div_pos large one_pos
    have length := List.length_pos_iff.mpr (Numeral.natText_ne_nil (units / one))
    have digits := Numeral.pow_length_natText_le whole
    have product : 10 ^ ((Numeral.natText (units / one)).length - 1) * one ≤ units :=
      (Nat.le_div_iff_mul_le one_pos).mp digits
    have exponent : ((Numeral.natText (units / one)).length : Int) - 1
        = (((Numeral.natText (units / one)).length - 1 : Nat) : Int) := by omega
    rw [exponent, zpow_natCast]
    exact_mod_cast product
  · next small =>
    have limit : one ≤ 10 ^ (1 + 330) := by decide +kernel
    have enough : one ≤ units * 10 ^ (1 + 330) := limit.trans (Nat.le_mul_of_pos_left _ pos)
    have reached := one_le_leadingPlace enough
    rw [zpow_neg, zpow_natCast, inv_mul_le_iff₀ (by positivity), mul_comm]
    exact_mod_cast reached

/-- Seventeen places behind the first one the grid is finer than a quarter of the gap. -/
theorem fine_of_size (size : IsSize units m k) (pos : 0 < m) :
    (4 * (m * 2 ^ k) - below m k) * 10 ^ (-(firstPlace units - 17)).toNat
        + 4 * one * 10 ^ (firstPlace units - 17).toNat
      ≤ 4 * (m * 2 ^ k) * 10 ^ (-(firstPlace units - 17)).toNat := by
  have unitsPos : 0 < units := by
    rw [size.eq]
    exact Nat.mul_pos pos (Nat.two_pow_pos k)
  have first := firstPlace_le unitsPos
  generalize firstPlace units = place at first ⊢
  have gap : (2 : ℚ) ^ k ≤ below m k := by exact_mod_cast below_pos m k
  have most : (units : ℚ) ≤ 2 ^ 53 * 2 ^ k := by
    rw [size.eq]
    exact_mod_cast Nat.mul_le_mul_right _ size.lt.le
  have step : 4 * (one : ℚ) * 10 ^ (place - 17) ≤ below m k := by
    calc 4 * (one : ℚ) * 10 ^ (place - 17) = 4 * (10 ^ place * one) / 10 ^ 17 := by
          rw [zpow_sub₀ (by norm_num), zpow_ofNat]
          ring
      _ ≤ 4 * (2 ^ 53 * 2 ^ k) / 10 ^ 17 := by
          have := first.trans most
          gcongr
      _ ≤ 2 ^ k := by
          have : (0 : ℚ) < 2 ^ k := by positivity
          rw [div_le_iff₀ (by positivity)]
          nlinarith
      _ ≤ below m k := gap
  have scale : (0 : ℚ) < ((10 ^ (-(place - 17)).toNat : Nat) : ℚ) := by positivity
  rw [ten_zpow, ← mul_div_assoc, div_le_iff₀ scale] at step
  have steps : 4 * one * 10 ^ (place - 17).toNat ≤ below m k * 10 ^ (-(place - 17)).toNat := by
    exact_mod_cast step
  have := Nat.mul_le_mul_right (10 ^ (-(place - 17)).toNat) (@below_le _ k pos)
  rw [Nat.sub_mul]
  omega

theorem exists_firstGrid (size : IsSize units m k) (pos : 0 < m) :
    ∃ n place, firstGrid (4 * (m * 2 ^ k)) (4 * (m * 2 ^ k) - below m k) (4 * (m * 2 ^ k) + 2 * 2 ^ k)
        (m % 2 == 0) 18 (firstPlace units) = (n, place) ∧
      RoundsTo m k (decimal n place * one) := by
  have above : 4 * (m * 2 ^ k) < 4 * (m * 2 ^ k) + 2 * 2 ^ k := by
    have := Nat.two_pow_pos k
    omega
  obtain ⟨n, place, search, found⟩ :=
    firstGrid_eq 17 (show 17 < 18 by decide) (onGrid?_ne_none above (fine_of_size size pos))
  exact ⟨n, place, search, roundsTo_of_onGrid? found⟩

/-! ### The digits -/

/-- A numeral without its last zeros. -/
def kept (n : Nat) : Text := ((Numeral.natText n).reverse.dropWhile (· == .char '0')).reverse

theorem exists_natText_eq (n : Nat) : ∃ count, Numeral.natText n = kept n ++ zeros count := by
  generalize reversed : (Numeral.natText n).reverse = t
  have whole : Numeral.natText n = t.reverse := by rw [← reversed, List.reverse_reverse]
  have taken : t.takeWhile (· == .char '0') = zeros (t.takeWhile (· == .char '0')).length := by
    refine List.eq_replicate_iff.mpr ⟨rfl, fun c mem => ?_⟩
    simpa using List.mem_takeWhile_imp mem
  refine ⟨(t.takeWhile (· == .char '0')).length, ?_⟩
  have parts : t.takeWhile (· == .char '0') ++ t.dropWhile (· == .char '0') = t :=
    List.takeWhile_append_dropWhile
  calc Numeral.natText n = t.reverse := whole
    _ = (t.dropWhile (· == .char '0')).reverse ++ (t.takeWhile (· == .char '0')).reverse := by
        rw [← List.reverse_append, parts]
    _ = kept n ++ (t.takeWhile (· == .char '0')).reverse := by rw [kept, reversed]
    _ = kept n ++ zeros (t.takeWhile (· == .char '0')).length := by
        rw [taken, zeros, List.reverse_replicate, List.length_replicate]
        rfl

theorem isDigit_kept {c : CodePoint} (h : c ∈ kept n) : c.isDigit = true := by
  obtain ⟨count, same⟩ := exists_natText_eq n
  exact Numeral.isDigit_natText (same ▸ List.mem_append_left _ h)

def Scientific.decimal (d : Scientific) : ℚ :=
  Decimal.decimal (Numeral.digitsValue d.digits) (d.exponent + 1 - d.digits.length)

theorem decimal_kept (n : Nat) (place : Int) :
    Scientific.decimal ⟨kept n, place + ((Numeral.natText n).length - 1 : Nat)⟩ = decimal n place := by
  obtain ⟨count, same⟩ := exists_natText_eq n
  have length : (Numeral.natText n).length = (kept n).length + count := by
    rw [same, List.length_append, zeros, List.length_replicate]
  have value : Numeral.digitsValue (kept n) * 10 ^ count = n := by
    have := Numeral.digitsValue_natText n
    rwa [same, zeros, Numeral.digitsValue_append (Numeral.isDigit_zeros count),
      Numeral.digitsValue_zeros, List.length_replicate] at this
  have positive := List.length_pos_iff.mpr (Numeral.natText_ne_nil n)
  have exponent : place + ((Numeral.natText n).length - 1 : Nat) + 1 - (kept n).length
      = (count : Int) + place := by omega
  rw [Scientific.decimal, exponent, decimal, decimal, zpow_add₀ (by norm_num), ← mul_assoc,
    zpow_natCast]
  congr 1
  exact_mod_cast value

theorem down_eq (size : IsSize units m k) :
    (if units = 2 ^ 52 * 2 ^ k ∧ 1 < 2 ^ k then 2 ^ k else 2 * 2 ^ k) = below m k := by
  have least : units = 2 ^ 52 * 2 ^ k ↔ m = 2 ^ 52 := by
    rw [size.eq]
    exact Nat.mul_left_inj (Nat.two_pow_pos k).ne'
  have wide : 1 < 2 ^ k ↔ 0 < k := by
    rw [Nat.one_lt_two_pow_iff, Nat.pos_iff_ne_zero]
  simp only [below, least, wide]

theorem roundsTo_shortest (size : IsSize units m k) (pos : 0 < m) :
    (∀ c ∈ (shortest units).digits, c.isDigit = true) ∧
      RoundsTo m k ((shortest units).decimal * one) := by
  obtain ⟨n, place, search, near⟩ := exists_firstGrid size pos
  have gap : units / 2 ^ k = m := by
    rw [size.eq, Nat.mul_div_cancel _ (Nat.two_pow_pos k)]
  have here : shortest units = ⟨kept n, place + ((Numeral.natText n).length - 1 : Nat)⟩ := by
    simp only [shortest, size.gapExponent_eq, Nat.pow_eq, down_eq size, gap]
    rw [← size.eq] at search
    rw [search]
    rfl
  rw [here, decimal_kept]
  exact ⟨fun c => isDigit_kept, near⟩

end Decimal

end SclNarrator
