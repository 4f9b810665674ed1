import Mathlib.Tactic.Linarith
import Mathlib.Tactic.Qify
import Mathlib.Tactic.Ring
import LinkedCommit.Number.Shortest
import LinkedCommit.Proofs.Number.Datum
/-!
# Rounding to the nearest datum

The numbers that round to `m · 2 ^ q` are an interval about it, whose ends belong to it when `m` is
even (`RoundsTo`).  Data lie twice as close below a power of two, so the interval of a power of two
is narrower on that side.  `nearest` finds the datum whose interval a fraction lies in
(`nearest_of_roundsTo`); so a number that is a datum is rounded to itself.
-/

set_option autoImplicit false

namespace LinkedCommit.Double

/-! ## The interval of a datum -/

/-- The part of the spacing at `m · 2 ^ q` that is rounded up to it. -/
def gapBelow (m : Nat) (q : Int) : ℚ := if m = 2 ^ 52 ∧ -1074 < q then 1 / 4 else 1 / 2

def lowerEnd (m : Nat) (q : Int) : ℚ := (m - gapBelow m q) * 2 ^ q

def upperEnd (m : Nat) (q : Int) : ℚ := (m + 1 / 2) * 2 ^ q

/-- A number rounds to `m · 2 ^ q`. -/
structure RoundsTo (m : Nat) (q : Int) (x : ℚ) : Prop where
  low : lowerEnd m q ≤ x
  high : x ≤ upperEnd m q
  inside : m % 2 = 1 → lowerEnd m q < x ∧ x < upperEnd m q

theorem gapBelow_pos (m : Nat) (q : Int) : 0 < gapBelow m q := by
  rw [gapBelow]
  split <;> norm_num

theorem gapBelow_le (m : Nat) (q : Int) : gapBelow m q ≤ 1 / 2 := by
  rw [gapBelow]
  split <;> norm_num

theorem two_zpow_pos (q : Int) : (0 : ℚ) < 2 ^ q := zpow_pos (by norm_num) q

theorem lowerEnd_lt (m : Nat) (q : Int) : lowerEnd m q < m * 2 ^ q :=
  mul_lt_mul_of_pos_right (sub_lt_self _ (gapBelow_pos m q)) (two_zpow_pos q)

theorem lt_upperEnd (m : Nat) (q : Int) : m * 2 ^ q < upperEnd m q :=
  mul_lt_mul_of_pos_right (lt_add_of_pos_right _ (by norm_num)) (two_zpow_pos q)

theorem roundsTo_self (m : Nat) (q : Int) : RoundsTo m q (m * 2 ^ q) where
  low := (lowerEnd_lt m q).le
  high := (lt_upperEnd m q).le
  inside := fun _ => ⟨lowerEnd_lt m q, lt_upperEnd m q⟩

/-! ## Division -/

/-- A division is rounded to the number whose interval it lies in. -/
theorem divideHalfEven_eq {num den c : Nat} (positive : 0 < den)
    (low : 2 * (c * den) ≤ 2 * num + den) (high : 2 * num ≤ 2 * (c * den) + den)
    (inside : c % 2 = 1 → 2 * (c * den) < 2 * num + den ∧ 2 * num < 2 * (c * den) + den) :
    divideHalfEven num den = c := by
  have parts := Nat.div_add_mod' num den
  have remainder := Nat.mod_lt num positive
  rw [divideHalfEven]
  generalize num / den = q at parts ⊢
  generalize num % den = r at parts remainder ⊢
  have notLess : q ≤ c := by
    refine Nat.le_of_lt_succ (Nat.lt_of_mul_lt_mul_right (a := den) ?_)
    rw [Nat.add_one_mul]
    omega
  have notMore : c ≤ q + 1 := by
    refine Nat.le_of_lt_succ (Nat.lt_of_mul_lt_mul_right (a := den) ?_)
    rw [Nat.add_one_mul, Nat.add_one_mul]
    omega
  obtain rfl | rfl : c = q ∨ c = q + 1 := by omega
  · by_cases tie : 2 * r < den
    · rw [if_pos tie]
    · have even : c % 2 ≠ 1 := fun odd => by
        have := inside odd
        omega
      rw [if_neg tie, if_neg (by omega)]
      omega
  · rw [Nat.add_one_mul q den] at low high inside
    rw [if_neg (by omega)]
    by_cases tie : den < 2 * r
    · rw [if_pos tie]
    · have even : (q + 1) % 2 ≠ 1 := fun odd => by
        have := inside odd
        omega
      rw [if_neg tie]
      omega

/-! ## The nearest datum -/

theorem cast_twoTo (n : Nat) : (twoTo n : ℚ) = 2 ^ (n : ℤ) := by
  rw [twoTo_eq, Nat.cast_pow, zpow_natCast]
  rfl

/-- The scale at which a fraction is rounded is the one that gives it 53 binary digits. -/
theorem nearest_of_scale (negative : Bool) {num den k : Nat} (positive : 0 < den)
    (least : k = 0 ∨ 2 ^ 52 * (den * twoTo k) ≤ num * twoTo 1074)
    (fits : num * twoTo 1074 < 2 ^ 53 * (den * twoTo k)) :
    nearest negative num den =
      ofMagnitude negative (k * twoTo 52 + divideHalfEven (num * twoTo 1074) (den * twoTo k)) := by
  have scale : (num * twoTo 1074 / den).log2 - 52 = k := by
    rw [twoTo_eq k] at least fits
    generalize num * twoTo 1074 = units at least fits ⊢
    have below : units / den < 2 ^ (53 + k) := by
      rw [Nat.div_lt_iff_lt_mul positive, Nat.pow_add, Nat.mul_assoc, Nat.mul_comm (2 ^ k)]
      exact fits
    rcases least with rfl | least
    · by_cases zero : units / den = 0
      · rw [zero]
        rfl
      · have small := (Nat.log2_lt zero).mpr below
        omega
    · have above : 2 ^ (52 + k) ≤ units / den := by
        rw [Nat.le_div_iff_mul_le positive, Nat.pow_add, Nat.mul_assoc, Nat.mul_comm (2 ^ k)]
        exact least
      have nonzero : units / den ≠ 0 := Nat.ne_of_gt (Nat.lt_of_lt_of_le (Nat.two_pow_pos _) above)
      have small := (Nat.log2_lt nonzero).mpr below
      have great := (Nat.le_log2 nonzero).mpr above
      omega
  rw [nearest, scale]

/-- Multiplying with `den · 2 ^ 1074` turns fractions of spacings into whole numbers. -/
theorem scale_unit (k den : Nat) :
    (2 : ℚ) ^ (k - 1074 : ℤ) * (den * twoTo 1074 : ℕ) = (den * twoTo k : ℕ) := by
  have exponent : (k - 1074 : ℤ) + (1074 : ℕ) = (k : ℕ) := by push_cast; ring
  rw [Nat.cast_mul, Nat.cast_mul, cast_twoTo, cast_twoTo, mul_left_comm,
    ← zpow_add₀ (by norm_num), exponent]

theorem fraction_unit {den : Nat} (positive : 0 < den) (num : Nat) :
    (num / den : ℚ) * (den * twoTo 1074 : ℕ) = (num * twoTo 1074 : ℕ) := by
  have nonzero : (den : ℚ) ≠ 0 := Nat.cast_ne_zero.mpr positive.ne'
  rw [Nat.cast_mul, Nat.cast_mul, ← mul_assoc, div_mul_cancel₀ _ nonzero]

/-- The interval of a datum in whole numbers: the fraction is `units / spacing` spacings. -/
structure WholeInterval (k c units spacing : Nat) : Prop where
  low : 2 * (c * spacing) ≤ 2 * units + spacing
  narrow : 0 < k → c = 2 ^ 52 → 4 * (c * spacing) ≤ 4 * units + spacing
  high : 2 * units ≤ 2 * (c * spacing) + spacing
  inside : c % 2 = 1 →
    2 * (c * spacing) < 2 * units + spacing ∧ 2 * units < 2 * (c * spacing) + spacing

theorem RoundsTo.whole {k c num den : Nat} (positive : 0 < den)
    (rounds : RoundsTo c (k - 1074) (num / den)) :
    WholeInterval k c (num * twoTo 1074) (den * twoTo k) := by
  have unit : (0 : ℚ) < (den * twoTo 1074 : ℕ) :=
    Nat.cast_pos.mpr (Nat.mul_pos positive (twoTo_pos _))
  have nonneg : (0 : ℚ) ≤ (den * twoTo k : ℕ) := Nat.cast_nonneg _
  have fraction := fraction_unit positive num
  have lower : lowerEnd c (k - 1074) * (den * twoTo 1074 : ℕ) =
      (c - gapBelow c (k - 1074)) * (den * twoTo k : ℕ) := by
    rw [lowerEnd, mul_assoc, scale_unit]
  have upper : upperEnd c (k - 1074) * (den * twoTo 1074 : ℕ) =
      (c + 1 / 2) * (den * twoTo k : ℕ) := by
    rw [upperEnd, mul_assoc, scale_unit]
  have gap := mul_le_mul_of_nonneg_right (gapBelow_le c (k - 1074)) nonneg
  have low := mul_le_mul_of_nonneg_right rounds.low unit.le
  have high := mul_le_mul_of_nonneg_right rounds.high unit.le
  have above (odd : c % 2 = 1) := mul_lt_mul_of_pos_right (rounds.inside odd).1 unit
  have below (odd : c % 2 = 1) := mul_lt_mul_of_pos_right (rounds.inside odd).2 unit
  rw [lower, fraction] at low above
  rw [upper, fraction] at high below
  generalize num * twoTo 1074 = units at low high above below ⊢
  generalize den * twoTo k = spacing at nonneg gap low high above below ⊢
  constructor
  · qify
    linarith
  · intro scale significand
    have quarter : gapBelow c (k - 1074) = 1 / 4 := if_pos ⟨significand, by omega⟩
    rw [quarter] at low
    qify
    linarith
  · qify
    linarith
  · intro odd
    have above := above odd
    have below := below odd
    qify
    constructor <;> linarith

/-- A fraction just below a power of two has the scale before it, and is rounded up out of it. -/
theorem nearest_below_power {j num den : Nat} (positive : 0 < den)
    (near : 4 * (2 ^ 52 * (den * twoTo (j + 1))) ≤ 4 * (num * twoTo 1074) + den * twoTo (j + 1))
    (below : num * twoTo 1074 < 2 ^ 52 * (den * twoTo (j + 1))) (negative : Bool) :
    nearest negative num den = scaled negative (j + 1) (2 ^ 52) := by
  have spacing : 0 < den * twoTo j := Nat.mul_pos positive (twoTo_pos j)
  have double : den * twoTo (j + 1) = 2 * (den * twoTo j) := by
    rw [Nat.add_comm j, twoTo_add, Nat.mul_left_comm]
    rfl
  rw [double] at near below
  have rounded : divideHalfEven (num * twoTo 1074) (den * twoTo j) = 2 ^ 53 :=
    divideHalfEven_eq spacing (by omega) (by omega) (by omega)
  have halves : 2 ^ 53 = 2 ^ 52 + 2 ^ 52 := by norm_num
  rw [nearest_of_scale (k := j) negative positive (.inr (by omega)) (by omega), rounded, scaled,
    twoTo_eq, Nat.add_one_mul, Nat.add_assoc, halves]

/-- A fraction in the interval of a datum is rounded to it. -/
theorem nearest_of_roundsTo {k c num den : Nat} (normalized : Normalized k c) (positive : 0 < den)
    (rounds : RoundsTo c (k - 1074) (num / den)) (negative : Bool) :
    nearest negative num den = scaled negative k c := by
  obtain ⟨low, narrow, high, inside⟩ := rounds.whole positive
  obtain ⟨significand, scale, leading⟩ := normalized
  have spacing : 0 < den * twoTo k := Nat.mul_pos positive (twoTo_pos k)
  by_cases least : k = 0 ∨ 2 ^ 52 * (den * twoTo k) ≤ num * twoTo 1074
  · have less : (c + 1) * (den * twoTo k) ≤ 2 ^ 53 * (den * twoTo k) :=
      Nat.mul_le_mul_right _ significand
    rw [Nat.add_one_mul] at less
    rw [nearest_of_scale negative positive least (by omega),
      divideHalfEven_eq spacing low high inside, scaled]
  · obtain ⟨nonzero, below⟩ := not_or.mp least
    have power : c = 2 ^ 52 := by
      refine Nat.le_antisymm (Nat.le_of_lt_succ ?_) (leading.resolve_left nonzero)
      refine Nat.lt_of_mul_lt_mul_right (a := den * twoTo k) ?_
      rw [Nat.succ_mul]
      omega
    obtain ⟨j, rfl⟩ := Nat.exists_eq_succ_of_ne_zero nonzero
    have near := narrow j.succ_pos power
    rw [power] at near ⊢
    exact nearest_below_power positive near (Nat.lt_of_not_le below) negative

end LinkedCommit.Double
