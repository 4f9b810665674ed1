import Mathlib.Algebra.Order.Ring.Pow
import LinkedCommit.Proofs.Number.Grid
/-!
# The shortest digits

`shortest` is a decimal that rounds to the datum, and no decimal with fewer places does
(`isShortest_shortest`); so its last digit is not zero.  The search starts above the leading digit
of the datum, and seventeen digits are enough: on their grid a step is less than the interval.
-/

set_option autoImplicit false

namespace LinkedCommit.Double

variable {m : Nat} {q : Int}

/-! ## Search -/

/-- The search ends with a hit, after which no coarser grid of the search has one. -/
theorem search_eq (i : RoundingInterval) (tie : Tie) (steps : Nat) (e : Int)
    (fine : i.onGrid? tie (e - steps) ≠ none) :
    ∃ n e', i.search tie steps e = ⟨n, e'⟩ ∧ i.onGrid? tie e' = some n ∧
      (e' = e ∨ i.onGrid? tie (e' + 1) = none) := by
  induction steps generalizing e with
  | zero =>
      rw [Nat.cast_zero, sub_zero] at fine
      obtain ⟨n, found⟩ := Option.ne_none_iff_exists'.mp fine
      exact ⟨n, e, by rw [RoundingInterval.search, found, Option.getD_some], found, .inl rfl⟩
  | succ steps ih =>
      rw [RoundingInterval.search]
      cases first : i.onGrid? tie e with
      | some n => exact ⟨n, e, rfl, first, .inl rfl⟩
      | none =>
          have same : e - (steps + 1 : ℕ) = e - 1 - steps := by push_cast; ring
          obtain ⟨n, e', equal, found, start | missed⟩ := ih (e - 1) (same ▸ fine)
          · exact ⟨n, e', equal, found, .inr (by rw [start, sub_add_cancel, first])⟩
          · exact ⟨n, e', equal, found, .inr missed⟩

/-! ## The leading digit -/

theorem leadingExponent_spec {num den fuel : Nat} {k : Int} (positive : 0 < den)
    (low : (10 : ℚ) ^ (k - fuel) ≤ num / den) (high : (num / den : ℚ) < 10 ^ (k + 1)) :
    (10 : ℚ) ^ leadingExponent num den fuel k ≤ num / den ∧
      (num / den : ℚ) < 10 ^ (leadingExponent num den fuel k + 1) := by
  induction fuel generalizing k with
  | zero =>
      rw [Nat.cast_zero, sub_zero] at low
      exact ⟨low, high⟩
  | succ fuel ih =>
      have test : (powerOfTen k).1 * den ≤ num * (powerOfTen k).2 ↔ (10 : ℚ) ^ k ≤ num / den :=
        end_le_iff positive (powerOfTen_pos k).2 (powerOfTen_eq k) num
      rw [leadingExponent]
      dsimp only
      split
      case isTrue reached => exact ⟨test.mp reached, high⟩
      case isFalse missed =>
        have same : k - (fuel + 1 : ℕ) = k - 1 - fuel := by push_cast; ring
        refine ih (same ▸ low) ?_
        rw [sub_add_cancel]
        exact not_le.mp (mt test.mpr missed)

/-! ## The estimate of the exponent -/

theorem zpow_le_zpow_of_nonpos {x y : ℚ} (positive : 0 < x) (less : x ≤ y) {b : Int}
    (nonpos : b ≤ 0) : y ^ b ≤ x ^ b := by
  obtain ⟨n, rfl⟩ := Int.exists_eq_neg_ofNat nonpos
  rw [zpow_neg, zpow_neg, zpow_natCast, zpow_natCast]
  exact inv_anti₀ (pow_pos positive n) (pow_le_pow_left₀ positive.le less n)

/-- A power of two is compared with a power of ten through powers of them. -/
theorem two_zpow_le_of_powers {p r : Nat} {b e : Int} (positive : p ≠ 0)
    (step : ((2 : ℚ) ^ p) ^ b ≤ (10 ^ r) ^ b) (exponents : r * b ≤ p * e) :
    (2 : ℚ) ^ b ≤ 10 ^ e := by
  refine le_of_pow_le_pow_left₀ positive (ten_zpow_pos e).le ?_
  calc ((2 : ℚ) ^ b) ^ p
      = (2 ^ p) ^ b := by rw [← zpow_natCast, ← zpow_mul, mul_comm, zpow_mul, zpow_natCast]
    _ ≤ (10 ^ r) ^ b := step
    _ = 10 ^ (r * b) := by rw [zpow_mul, zpow_natCast]
    _ ≤ 10 ^ (p * e) := zpow_le_zpow_right₀ (by norm_num) exponents
    _ = (10 ^ e) ^ p := by rw [mul_comm, zpow_mul, zpow_natCast]

/-- For exponents of the format, the decimal exponent of a power of two is `30103 / 100000` of the
binary one, up to one place. -/
theorem two_zpow_le_ten_zpow {b e : Int} (low : -1100 ≤ b) (high : b ≤ 1100)
    (above : 30103 * b + 100000 ≤ 100000 * e) : (2 : ℚ) ^ b ≤ 10 ^ e := by
  -- `2 ^ 93 < 10 ^ 28` and `10 ^ 59 < 2 ^ 196` are close enough for exponents of this size.
  rcases le_total 0 b with nonneg | nonpos
  · refine two_zpow_le_of_powers (p := 93) (r := 28) (by decide) ?_ (by push_cast; omega)
    exact zpow_le_zpow_left₀ nonneg (by norm_num) (by norm_num)
  · refine two_zpow_le_of_powers (p := 196) (r := 59) (by decide) ?_ (by push_cast; omega)
    exact zpow_le_zpow_of_nonpos (by norm_num) (by norm_num) nonpos

theorem ten_zpow_le_two_zpow {b e : Int} (low : -1100 ≤ b) (high : b ≤ 1100)
    (below : 100000 * e + 100000 ≤ 30103 * b) : (10 : ℚ) ^ e ≤ 2 ^ b := by
  have inverse := two_zpow_le_ten_zpow (b := -b) (e := -e) (by omega) (by omega) (by omega)
  rw [zpow_neg, zpow_neg] at inverse
  exact (inv_le_inv₀ (two_zpow_pos b) (ten_zpow_pos e)).mp inverse

theorem exponentBound_spec (nonzero : m ≠ 0) (significand : m < 2 ^ 53) (low : -1074 ≤ q)
    (high : q ≤ 971) :
    (10 : ℚ) ^ (exponentBound m q - (4 : ℕ)) ≤ m * 2 ^ q ∧
      (m * 2 ^ q : ℚ) < 10 ^ (exponentBound m q + 1) := by
  have digits : m.log2 < 53 := (Nat.log2_lt nonzero).mpr significand
  have least : (2 : ℚ) ^ (m.log2 : Int) ≤ m := by
    rw [zpow_natCast]
    exact_mod_cast Nat.log2_self_le nonzero
  have most : (m : ℚ) < 2 ^ (m.log2 + 1 : Int) := by
    have less : m < 2 ^ (m.log2 + 1) := Nat.lt_log2_self
    exact_mod_cast less
  rw [exponentBound, Int.fdiv_eq_ediv_of_nonneg _ (by decide)]
  constructor
  · calc (10 : ℚ) ^ ((m.log2 + 1 + q) * 30103 / 100000 + 1 - (4 : ℕ))
        ≤ 2 ^ (m.log2 + q) := ten_zpow_le_two_zpow (by omega) (by omega) (by omega)
      _ = 2 ^ (m.log2 : Int) * 2 ^ q := zpow_add₀ (by norm_num) _ _
      _ ≤ m * 2 ^ q := mul_le_mul_of_nonneg_right least (two_zpow_pos q).le
  · calc (m * 2 ^ q : ℚ)
        < 2 ^ (m.log2 + 1 : Int) * 2 ^ q := mul_lt_mul_of_pos_right most (two_zpow_pos q)
      _ = 2 ^ (m.log2 + 1 + q) := (zpow_add₀ (by norm_num) _ _).symm
      _ ≤ 10 ^ ((m.log2 + 1 + q) * 30103 / 100000 + 1 + 1) :=
          two_zpow_le_ten_zpow (by omega) (by omega) (by omega)

/-! ## Digits enough -/

theorem step_lt_interval (significand : m < 2 ^ 53) {step : ℚ}
    (fine : step * 10 ^ 16 ≤ m * 2 ^ q) : step < upperEnd m q - lowerEnd m q := by
  have positive := two_zpow_pos q
  have bounded : (m * 2 ^ q : ℚ) ≤ 2 ^ 53 * 2 ^ q :=
    mul_le_mul_of_nonneg_right (by exact_mod_cast significand.le) positive.le
  rw [upperEnd, lowerEnd, gapBelow]
  split
  case isTrue power =>
    obtain ⟨rfl, -⟩ := power
    push_cast at fine ⊢
    linarith
  case isFalse => linarith

/-- On the grid of the seventeenth digit a neighbour of the datum rounds to it. -/
theorem onGrid?_ne_none (nonzero : m ≠ 0) (significand : m < 2 ^ 53) (tie : Tie) {e : Int}
    (fine : (10 : ℚ) ^ (e + 16) ≤ m * 2 ^ q) : (roundingInterval m q).onGrid? tie e ≠ none := by
  intro missed
  obtain ⟨n, below, above, onGrid⟩ := exists_onGrid (q := q) nonzero tie e
  have sixteen : (10 : ℚ) ^ (e + 16) = 10 ^ e * 10 ^ 16 := zpow_add₀ (by norm_num) e 16
  rw [sixteen] at fine
  have interval := step_lt_interval significand fine
  have step := ten_zpow_pos e
  have aboveLow := lowerEnd_lt m q
  have belowHigh := lt_upperEnd m q
  rw [missed] at onGrid
  cases onGrid with
  | none noLower noUpper =>
      -- Both neighbours are outside, so the whole interval lies between them.
      have high : upperEnd m q ≤ (n + 1 : ℕ) * 10 ^ e := by
        refine not_lt.mp fun inside => noUpper ⟨?_, inside.le, fun _ => ⟨?_, inside⟩⟩ <;> linarith
      push_cast at above high
      have positive : 0 < n := by
        refine Nat.pos_of_ne_zero fun zero => ?_
        rw [zero, Nat.cast_zero] at above
        linarith
      have low : n * 10 ^ e ≤ lowerEnd m q := by
        refine not_lt.mp fun inside =>
          noLower positive ⟨inside.le, ?_, fun _ => ⟨inside, ?_⟩⟩ <;> linarith
      linarith

/-! ## The result -/

/-- A decimal rounds to a datum, and none with fewer places does. -/
structure IsShortest (m : Nat) (q : Int) (x : DecimalDigits) : Prop where
  positive : 0 < x.digits
  rounds : RoundsTo m q (x.digits * 10 ^ x.exponent)
  coarsest : ∀ n > 0, ∀ e > x.exponent, ¬RoundsTo m q ((n : ℕ) * 10 ^ e)

theorem IsShortest.mod_ten_ne_zero {x : DecimalDigits} (isShortest : IsShortest m q x) :
    x.digits % 10 ≠ 0 := by
  intro zero
  obtain ⟨n, tenfold⟩ := Nat.dvd_of_mod_eq_zero zero
  have positive : 0 < n := by
    have nonzero := isShortest.positive
    omega
  refine isShortest.coarsest n positive (x.exponent + 1) (Int.lt_succ _) ?_
  have same : (n * 10 ^ (x.exponent + 1) : ℚ) = x.digits * 10 ^ x.exponent := by
    rw [tenfold, zpow_add₀ (by norm_num)]
    push_cast
    ring
  rw [same]
  exact isShortest.rounds

/-- No multiple on a coarser grid rounds to the datum if none on the next grid does. -/
theorem coarsest_of_next {e : Int} (next : ∀ n > 0, ¬RoundsTo m q ((n : ℕ) * 10 ^ (e + 1))) :
    ∀ n > 0, ∀ e' > e, ¬RoundsTo m q ((n : ℕ) * 10 ^ e') := by
  intro n positive e' coarser rounds
  obtain ⟨j, rfl⟩ : ∃ j : Nat, e' = e + 1 + j := ⟨(e' - (e + 1)).toNat, by omega⟩
  refine next (n * 10 ^ j) (Nat.mul_pos positive (Nat.pow_pos (by decide))) ?_
  have same : ((n * 10 ^ j : ℕ) * 10 ^ (e + 1) : ℚ) = n * 10 ^ (e + 1 + j) := by
    rw [zpow_add₀ (by norm_num) (e + 1), zpow_natCast]
    push_cast
    ring
  rw [same]
  exact rounds

theorem not_roundsTo_of_large (nonzero : m ≠ 0) {e : Int} (large : (m * 2 ^ q : ℚ) < 10 ^ e)
    {n : Nat} (positive : 0 < n) : ¬RoundsTo m q (n * 10 ^ (e + 1)) := by
  intro rounds
  have least : (2 : ℚ) ^ q ≤ m * 2 ^ q :=
    le_mul_of_one_le_left (two_zpow_pos q).le (by exact_mod_cast Nat.one_le_iff_ne_zero.mpr nonzero)
  have multiple : (10 : ℚ) ^ (e + 1) ≤ n * 10 ^ (e + 1) :=
    le_mul_of_one_le_left (ten_zpow_pos _).le (by exact_mod_cast positive)
  have high := rounds.high
  rw [upperEnd] at high
  rw [zpow_add_one₀ (by norm_num)] at multiple high
  have power := ten_zpow_pos e
  linarith

theorem DecimalDigits.trim_eq_self {x : DecimalDigits} (digit : x.digits % 10 ≠ 0) (fuel : Nat) :
    x.trim fuel = x := by
  cases fuel with
  | zero => rfl
  | succ fuel => exact if_neg fun zeros => digit zeros.2

/-- The digits that are written are the shortest. -/
theorem isShortest_shortest (tie : Tie) (nonzero : m ≠ 0) (significand : m < 2 ^ 53)
    (low : -1074 ≤ q) (high : q ≤ 971) : IsShortest m q (shortest tie m q) := by
  have unit := denominator_pos m q
  have value : ((roundingInterval m q).value / (roundingInterval m q).denominator : ℚ) =
      m * 2 ^ q := by
    rw [value_eq, mul_div_cancel_right₀ _ (Nat.cast_ne_zero.mpr unit.ne')]
  obtain ⟨below, above⟩ := exponentBound_spec nonzero significand low high
  rw [← value] at below above
  obtain ⟨reached, above⟩ := leadingExponent_spec unit below above
  rw [shortest]
  generalize leadingExponent _ _ 4 (exponentBound m q) = k at reached above ⊢
  rw [value] at reached above
  have seventeenth : k + 1 - (17 : ℕ) + 16 = k := by
    push_cast
    ring
  obtain ⟨n, e, equal, found, last⟩ := search_eq (roundingInterval m q) tie 17 (k + 1)
    (onGrid?_ne_none nonzero significand tie (seventeenth.symm ▸ reached))
  obtain ⟨positive, rounds⟩ := roundsTo_of_onGrid? nonzero found
  have next : ∀ n > 0, ¬RoundsTo m q ((n : ℕ) * 10 ^ (e + 1)) := by
    intro n positive
    rcases last with rfl | missed
    · exact not_roundsTo_of_large nonzero above positive
    · exact not_roundsTo_of_onGrid? nonzero missed positive
  have isShortest : IsShortest m q ⟨n, e⟩ := ⟨positive, rounds, coarsest_of_next next⟩
  rw [equal, DecimalDigits.trim_eq_self isShortest.mod_ten_ne_zero]
  exact isShortest

end LinkedCommit.Double
