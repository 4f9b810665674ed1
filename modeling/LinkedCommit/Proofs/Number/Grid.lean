import LinkedCommit.Proofs.Number.Rounding
/-!
# Decimals in the interval of a datum

The interval that the digits are searched in is the one that rounds to the datum (`contains_iff`).
Among the multiples of a power of ten only the two neighbours of the datum need a test: `onGrid?`
finds a multiple that rounds to the datum, and it finds one if there is any
(`roundsTo_of_onGrid?`, `not_roundsTo_of_onGrid?`).
-/

set_option autoImplicit false

namespace LinkedCommit.Double

variable {m : Nat} {q : Int}

theorem RoundsTo.between {x y : ℚ} (rounds : RoundsTo m q x)
    (order : x ≤ y ∧ y ≤ m * 2 ^ q ∨ m * 2 ^ q ≤ y ∧ y ≤ x) : RoundsTo m q y := by
  obtain ⟨low, high, inside⟩ := rounds
  have below := lowerEnd_lt m q
  have above := lt_upperEnd m q
  rcases order with ⟨first, second⟩ | ⟨first, second⟩
  · exact ⟨low.trans first, second.trans above.le,
      fun odd => ⟨(inside odd).1.trans_le first, second.trans_lt above⟩⟩
  · exact ⟨below.le.trans first, second.trans high,
      fun odd => ⟨below.trans_le first, second.trans_lt (inside odd).2⟩⟩

/-! ## The interval in whole numbers -/

theorem denominator_pos (m : Nat) (q : Int) : 0 < (roundingInterval m q).denominator := by
  rw [roundingInterval]
  dsimp only
  split
  · exact Nat.one_pos
  · exact twoTo_pos _

/-- A quarter of the spacing, over the denominator of the interval. -/
def quarterSpacing (q : Int) : Nat := if 2 ≤ q then twoTo (q - 2).toNat else 1

theorem quarterSpacing_eq (m : Nat) (q : Int) :
    (quarterSpacing q : ℚ) = 2 ^ q / 4 * (roundingInterval m q).denominator := by
  have quarter : (2 : ℚ) ^ q / 4 = 2 ^ (q - 2) := by
    rw [zpow_sub₀ (by norm_num)]
    norm_num
  rw [quarter, quarterSpacing, roundingInterval]
  dsimp only
  split
  · rw [cast_twoTo, Int.toNat_of_nonneg (by omega), Nat.cast_one, mul_one]
  · have cancel : q - 2 + (2 - q).toNat = 0 := by omega
    rw [cast_twoTo, ← zpow_add₀ (by norm_num), cancel, zpow_zero, Nat.cast_one]

theorem value_eq (m : Nat) (q : Int) :
    ((roundingInterval m q).value : ℚ) = m * 2 ^ q * (roundingInterval m q).denominator := by
  have form : (roundingInterval m q).value = 4 * m * quarterSpacing q := rfl
  rw [form, Nat.cast_mul, quarterSpacing_eq m]
  push_cast
  ring

theorem high_eq (m : Nat) (q : Int) :
    ((roundingInterval m q).high : ℚ) = upperEnd m q * (roundingInterval m q).denominator := by
  have form : (roundingInterval m q).high = (4 * m + 2) * quarterSpacing q := rfl
  rw [form, Nat.cast_mul, quarterSpacing_eq m, upperEnd]
  push_cast
  ring

theorem low_eq (nonzero : m ≠ 0) (q : Int) :
    ((roundingInterval m q).low : ℚ) = lowerEnd m q * (roundingInterval m q).denominator := by
  have form : (roundingInterval m q).low =
      (4 * m - if m = twoTo 52 ∧ -1074 < q then 1 else 2) * quarterSpacing q := rfl
  rw [form, Nat.cast_mul, quarterSpacing_eq m, lowerEnd, gapBelow, twoTo_eq]
  split
  · rw [Nat.cast_sub (by omega)]
    push_cast
    ring
  · rw [Nat.cast_sub (by omega)]
    push_cast
    ring

section

variable {n den unit : Nat} {bound : ℚ} (positive : 0 < den) (unitPositive : 0 < unit)
  (form : (n : ℚ) = bound * unit)
include positive unitPositive form

theorem end_le_iff (num : Nat) : n * den ≤ num * unit ↔ bound ≤ num / den := by
  have cast : n * den ≤ num * unit ↔ (n * den : ℚ) ≤ num * unit := by norm_cast
  rw [cast, form, mul_right_comm, mul_le_mul_iff_left₀ (Nat.cast_pos.mpr unitPositive),
    le_div_iff₀ (Nat.cast_pos.mpr positive)]

theorem end_lt_iff (num : Nat) : n * den < num * unit ↔ bound < num / den := by
  have cast : n * den < num * unit ↔ (n * den : ℚ) < num * unit := by norm_cast
  rw [cast, form, mul_right_comm, mul_lt_mul_iff_left₀ (Nat.cast_pos.mpr unitPositive),
    lt_div_iff₀ (Nat.cast_pos.mpr positive)]

end

/-- The interval of the search holds the numbers that round to the datum. -/
theorem contains_iff (nonzero : m ≠ 0) {num den : Nat} (positive : 0 < den) :
    (roundingInterval m q).contains num den = true ↔ RoundsTo m q (num / den) := by
  have unit := denominator_pos m q
  have low := end_le_iff positive unit (low_eq nonzero q) num
  have aboveLow := end_lt_iff positive unit (low_eq nonzero q) num
  have high := not_iff_not.mpr (end_lt_iff positive unit (high_eq m q) num)
  have belowHigh := not_iff_not.mpr (end_le_iff positive unit (high_eq m q) num)
  rw [not_lt, not_lt] at high
  rw [not_le, not_le] at belowHigh
  rw [RoundingInterval.contains]
  by_cases even : m % 2 = 0
  · have closed : (roundingInterval m q).closed = true := decide_eq_true even
    simp only [closed, if_true, Bool.and_eq_true, decide_eq_true_eq, low, high]
    exact ⟨fun ⟨above, below⟩ => ⟨above, below, fun odd => by omega⟩,
      fun rounds => ⟨rounds.low, rounds.high⟩⟩
  · have openEnds : (roundingInterval m q).closed = false := decide_eq_false even
    simp only [openEnds, Bool.false_eq_true, if_false, Bool.and_eq_true, decide_eq_true_eq,
      aboveLow, belowHigh]
    exact ⟨fun ends => ⟨ends.1.le, ends.2.le, fun _ => ends⟩,
      fun rounds => rounds.inside (by omega)⟩

/-! ## Multiples of a power of ten -/

theorem tenTo_pos (n : Nat) : 0 < tenTo n := Nat.pow_pos (by decide)

theorem cast_tenTo (n : Nat) : (tenTo n : ℚ) = 10 ^ (n : ℤ) := by
  rw [tenTo, zpow_natCast]
  exact Nat.cast_pow 10 n

theorem ten_zpow_pos (e : Int) : (0 : ℚ) < 10 ^ e := zpow_pos (by norm_num) e

theorem powerOfTen_pos (e : Int) : 0 < (powerOfTen e).1 ∧ 0 < (powerOfTen e).2 := by
  rw [powerOfTen]
  split
  · exact ⟨tenTo_pos _, Nat.one_pos⟩
  · exact ⟨Nat.one_pos, tenTo_pos _⟩

theorem powerOfTen_eq (e : Int) : ((powerOfTen e).1 : ℚ) = 10 ^ e * (powerOfTen e).2 := by
  rw [powerOfTen]
  split
  · rw [cast_tenTo, Int.toNat_of_nonneg ‹0 ≤ e›, Nat.cast_one, mul_one]
  · have cancel : e + (-e).toNat = 0 := by omega
    rw [cast_tenTo, ← zpow_add₀ (by norm_num), cancel, zpow_zero, Nat.cast_one]

theorem multiple_eq (e : Int) (n : Nat) :
    ((n * (powerOfTen e).1 : ℕ) / (powerOfTen e).2 : ℚ) = n * 10 ^ e := by
  have nonzero : ((powerOfTen e).2 : ℚ) ≠ 0 := Nat.cast_ne_zero.mpr (powerOfTen_pos e).2.ne'
  rw [Nat.cast_mul, powerOfTen_eq, ← mul_assoc, mul_div_cancel_right₀ _ nonzero]

theorem contains_multiple_iff (nonzero : m ≠ 0) (e : Int) (n : Nat) :
    (roundingInterval m q).contains (n * (powerOfTen e).1) (powerOfTen e).2 = true ↔
      RoundsTo m q (n * 10 ^ e) := by
  rw [contains_iff nonzero (powerOfTen_pos e).2, multiple_eq]

/-- What the search on one grid finds: a neighbour of the datum that rounds to it, or none. -/
inductive OnGrid (m : Nat) (q e : Int) (n : Nat) : Option Nat → Prop
  | lower (positive : 0 < n) (rounds : RoundsTo m q (n * 10 ^ e)) : OnGrid m q e n (some n)
  | upper (rounds : RoundsTo m q ((n + 1 : ℕ) * 10 ^ e)) : OnGrid m q e n (some (n + 1))
  | none (noLower : 0 < n → ¬RoundsTo m q (n * 10 ^ e))
      (noUpper : ¬RoundsTo m q ((n + 1 : ℕ) * 10 ^ e)) : OnGrid m q e n none

theorem exists_onGrid (nonzero : m ≠ 0) (tie : Tie) (e : Int) :
    ∃ n : Nat, n * 10 ^ e ≤ (m * 2 ^ q : ℚ) ∧ (m * 2 ^ q : ℚ) < (n + 1 : ℕ) * 10 ^ e ∧
      OnGrid m q e n ((roundingInterval m q).onGrid? tie e) := by
  have hit (n : Nat) := contains_multiple_iff (q := q) nonzero e n
  have multiple (n : Nat) := multiple_eq e n
  have value := value_eq m q
  have unit := denominator_pos m q
  obtain ⟨numPositive, positive⟩ := powerOfTen_pos e
  rw [RoundingInterval.onGrid?]
  generalize roundingInterval m q = i at hit value unit ⊢
  generalize powerOfTen e = power at hit multiple numPositive positive ⊢
  obtain ⟨num, den⟩ := power
  dsimp only at hit multiple numPositive positive ⊢
  have less (n : Nat) : i.value * den < n * num * i.denominator ↔ (m * 2 ^ q : ℚ) < n * 10 ^ e := by
    rw [← multiple n]
    exact end_lt_iff positive unit value _
  have spacing : 0 < i.denominator * num := Nat.mul_pos unit numPositive
  have floor := Nat.div_mul_le_self (i.value * den) (i.denominator * num)
  have ceiling := Nat.lt_mul_of_div_lt (Nat.lt_succ_self (i.value * den / (i.denominator * num)))
    spacing
  generalize i.value * den / (i.denominator * num) = n at floor ceiling ⊢
  generalize i.value * den % (i.denominator * num) = r
  rw [Nat.mul_comm i.denominator, ← Nat.mul_assoc] at floor ceiling
  refine ⟨n, not_lt.mp (mt (less n).mpr (not_lt.mpr floor)), (less (n + 1)).mp ceiling, ?_⟩
  have lower : (decide (0 < n) && i.contains (n * num) den) = true ↔
      0 < n ∧ RoundsTo m q (n * 10 ^ e) := by
    rw [Bool.and_eq_true, decide_eq_true_eq, hit]
  have upper := hit (n + 1)
  split
  case isTrue both =>
    obtain ⟨below, above⟩ := (Bool.and_eq_true _ _).mp both
    obtain ⟨nonzero, rounds⟩ := lower.mp below
    split
    · exact .upper (upper.mp above)
    · exact .lower nonzero rounds
  case isFalse =>
    split
    case isTrue below => exact .lower (lower.mp below).1 (lower.mp below).2
    case isFalse noLower =>
      split
      case isTrue above => exact .upper (upper.mp above)
      case isFalse noUpper =>
        exact .none (fun nonzero rounds => noLower (lower.mpr ⟨nonzero, rounds⟩))
          (mt upper.mpr noUpper)

theorem roundsTo_of_onGrid? (nonzero : m ≠ 0) {tie : Tie} {e : Int} {n : Nat}
    (found : (roundingInterval m q).onGrid? tie e = some n) :
    0 < n ∧ RoundsTo m q (n * 10 ^ e) := by
  obtain ⟨floor, -, -, onGrid⟩ := exists_onGrid (q := q) nonzero tie e
  rw [found] at onGrid
  cases onGrid with
  | lower positive rounds => exact ⟨positive, rounds⟩
  | upper rounds => exact ⟨floor.succ_pos, rounds⟩

theorem not_roundsTo_of_onGrid? (nonzero : m ≠ 0) {tie : Tie} {e : Int}
    (missed : (roundingInterval m q).onGrid? tie e = none) {n : Nat} (positive : 0 < n) :
    ¬RoundsTo m q (n * 10 ^ e) := by
  obtain ⟨floor, below, above, onGrid⟩ := exists_onGrid (q := q) nonzero tie e
  rw [missed] at onGrid
  have order {a b : Nat} (less : a ≤ b) : (a * 10 ^ e : ℚ) ≤ b * 10 ^ e :=
    mul_le_mul_of_nonneg_right (Nat.cast_le.mpr less) (ten_zpow_pos e).le
  intro rounds
  cases onGrid with
  | none noLower noUpper =>
      rcases Nat.lt_or_ge floor n with greater | notGreater
      · exact noUpper (rounds.between (.inr ⟨above.le, order greater⟩))
      · exact noLower (Nat.lt_of_lt_of_le positive notGreater)
          (rounds.between (.inl ⟨order notGreater, below⟩))

end LinkedCommit.Double
