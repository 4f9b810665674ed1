import Mathlib.Data.Nat.Digits.Defs
import LinkedCommit.Number.Reader
import LinkedCommit.Proofs.Number.Numeral
import LinkedCommit.Proofs.Number.ShortestDigits
/-!
# Reading decimals

A decimal is read as the datum that it rounds to (`ofDecimal_of_roundsTo`): the texts that are
answered without computing denote numbers far beyond all data.  A text with a digit before the point
and an exponent is read by its digits and the place of the last one (`read?_scientificText`).
-/

set_option autoImplicit false

namespace LinkedCommit.Double

open Decimal (IsDigits value)

/-! ## Decimals -/

theorem ten_pow_le_of_pos {n : Nat} (positive : 0 < n) :
    10 ^ ((Nat.toDigits 10 n).length - 1) ≤ n := by
  by_contra less
  have digits : 0 < (Nat.toDigits 10 n).length := List.length_pos_iff.mpr Nat.toDigits_ne_nil
  by_cases single : (Nat.toDigits 10 n).length - 1 = 0
  · rw [single] at less
    omega
  · have short := Nat.toDigits_length 10 n _ (Nat.pos_of_ne_zero single) (Nat.lt_of_not_le less)
    omega

theorem lt_ten_pow (n : Nat) : n < 10 ^ (Nat.toDigits 10 n).length := by
  have less := Decimal.value_lt (Decimal.isDigits_toDigits n).isDigit
  rwa [Decimal.value_toDigits] at less

theorem leading_bounds {n : Nat} (positive : 0 < n) (e : Int) :
    (10 : ℚ) ^ (e + (Nat.toDigits 10 n).length - 1) ≤ n * 10 ^ e ∧
      (n * 10 ^ e : ℚ) < 10 ^ (e + (Nat.toDigits 10 n).length) := by
  have least := ten_pow_le_of_pos positive
  have most := lt_ten_pow n
  have digits : 0 < (Nat.toDigits 10 n).length := List.length_pos_iff.mpr Nat.toDigits_ne_nil
  generalize (Nat.toDigits 10 n).length = length at least most digits ⊢
  constructor
  · have exponent : e + length - 1 = (length - 1 : ℕ) + e := by omega
    rw [exponent, zpow_add₀ (by norm_num), zpow_natCast]
    exact mul_le_mul_of_nonneg_right (by exact_mod_cast least) (ten_zpow_pos e).le
  · rw [add_comm, zpow_add₀ (by norm_num), zpow_natCast]
    exact mul_lt_mul_of_pos_right (by exact_mod_cast most) (ten_zpow_pos e)

theorem RoundsTo.range {k c : Nat} (normalized : Normalized k c) (nonzero : c ≠ 0) {x : ℚ}
    (rounds : RoundsTo c (k - 1074) x) : (10 : ℚ) ^ (-400 : ℤ) < x ∧ x < 10 ^ (400 : ℤ) := by
  obtain ⟨significand, scale, -⟩ := normalized
  have positive := two_zpow_pos (k - 1074)
  constructor
  · have half : (1 / 2 : ℚ) ≤ c - gapBelow c (k - 1074) := by
      have least : (1 : ℚ) ≤ c := by exact_mod_cast Nat.one_le_iff_ne_zero.mpr nonzero
      have gap := gapBelow_le c (k - 1074)
      linarith
    calc (10 : ℚ) ^ (-400 : ℤ)
        < 10 ^ (-399 : ℤ) := zpow_lt_zpow_right₀ (by norm_num) (by norm_num)
      _ ≤ 2 ^ (-1074 - 1 : ℤ) := ten_zpow_le_two_zpow (by norm_num) (by norm_num) (by norm_num)
      _ = 1 / 2 * 2 ^ (-1074 : ℤ) := by rw [zpow_sub_one₀ (by norm_num), mul_comm, one_div]
      _ ≤ 1 / 2 * 2 ^ (k - 1074 : ℤ) :=
          mul_le_mul_of_nonneg_left (zpow_le_zpow_right₀ (by norm_num) (by omega)) (by norm_num)
      _ ≤ lowerEnd c (k - 1074) := mul_le_mul_of_nonneg_right half positive.le
      _ ≤ x := rounds.low
  · have most : (c + 1 / 2 : ℚ) ≤ 2 ^ (53 : ℤ) := by
      have less : (c + 1 : ℚ) ≤ 2 ^ (53 : ℤ) := by exact_mod_cast significand
      linarith
    calc x
        ≤ upperEnd c (k - 1074) := rounds.high
      _ ≤ 2 ^ (53 : ℤ) * 2 ^ (k - 1074 : ℤ) := mul_le_mul_of_nonneg_right most positive.le
      _ ≤ 2 ^ (1024 : ℤ) := by
          rw [← zpow_add₀ (by norm_num)]
          exact zpow_le_zpow_right₀ (by norm_num) (by omega)
      _ ≤ 10 ^ (399 : ℤ) := two_zpow_le_ten_zpow (by norm_num) (by norm_num) (by norm_num)
      _ < 10 ^ (400 : ℤ) := zpow_lt_zpow_right₀ (by norm_num) (by norm_num)

/-- A decimal is read as the datum that it rounds to. -/
theorem ofDecimal_of_roundsTo {k c : Nat} (normalized : Normalized k c) (nonzero : c ≠ 0)
    {n : Nat} {e : Int} (positive : 0 < n) (rounds : RoundsTo c (k - 1074) (n * 10 ^ e))
    (negative : Bool) : ofDecimal negative n e = scaled negative k c := by
  obtain ⟨least, most⟩ := rounds.range normalized nonzero
  obtain ⟨below, above⟩ := leading_bounds positive e
  have notGreat := (zpow_lt_zpow_iff_right₀ (by norm_num)).mp (below.trans_lt most)
  have notSmall := (zpow_lt_zpow_iff_right₀ (by norm_num)).mp (least.trans above)
  rw [ofDecimal, if_neg positive.ne', if_neg (by omega), if_neg (by omega)]
  split
  case isTrue whole =>
    refine nearest_of_roundsTo normalized Nat.one_pos ?_ negative
    rwa [Nat.cast_mul, cast_tenTo, Int.toNat_of_nonneg whole, Nat.cast_one, div_one]
  case isFalse fractional =>
    refine nearest_of_roundsTo normalized (tenTo_pos _) ?_ negative
    rwa [cast_tenTo, Int.toNat_of_nonneg (by omega), zpow_neg, div_inv_eq_mul]

/-! ## Texts -/

def scientificText (lead : Char) (fraction : List Char) (exponent : Int) : List Char :=
  lead :: '.' :: (fraction ++ 'E' :: (toString exponent).toList)

section

variable {lead : Char} {fraction : List Char} (digit : lead.isDigit = true)
  (digits : ∀ c ∈ fraction, c.isDigit = true) (exponent : Int)
include digit digits

theorem decimalText?_scientificText : decimalText? (scientificText lead fraction exponent) =
    some ⟨lead :: fraction, exponent - fraction.length⟩ := by
  have point : ('.' : Char).isDigit = false := rfl
  have mark : ('E' : Char).isDigit = false := rfl
  have read : exponentPart? ('E' :: (toString exponent).toList) = some exponent :=
    Decimal.signed?_eq_some_iff.mpr (Decimal.denotes_toString exponent)
  rw [decimalText?, scientificText]
  simp only [List.takeWhile_cons, List.dropWhile_cons, digit, point, mark, if_true,
    Bool.false_eq_true, if_false, List.takeWhile_append_of_pos digits,
    List.dropWhile_append_of_pos digits, List.append_nil, List.isEmpty_cons, Bool.false_and, read,
    Option.map_some, List.singleton_append]

theorem read?_scientificText (negative : Bool) :
    read? (String.ofList ((if negative then ['-'] else []) ++
      scientificText lead fraction exponent)) =
      some (ofDecimal negative (value (lead :: fraction)) (exponent - fraction.length)) := by
  have read := decimalText?_scientificText digit digits exponent
  rw [read?, String.toList_ofList]
  cases negative with
  | true =>
      simp only [if_true, List.singleton_append]
      rw [read]
      rfl
  | false =>
      simp only [Bool.false_eq_true, if_false, List.nil_append]
      split
      case h_1 eq =>
        obtain ⟨rfl, -⟩ := List.cons.inj eq
        cases digit
      case h_2 eq =>
        obtain ⟨rfl, -⟩ := List.cons.inj eq
        cases digit
      case h_3 =>
        rw [read]
        rfl

end

end LinkedCommit.Double
