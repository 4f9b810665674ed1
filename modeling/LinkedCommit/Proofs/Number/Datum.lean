import Mathlib.Data.Rat.Lemmas
import Mathlib.Algebra.Order.Field.Power
import Mathlib.Algebra.Order.Ring.Unbundled.Rat
import LinkedCommit.Number.Double
/-!
# Finite data and what they denote

A finite datum is a sign, a scale and a significand.  It denotes `± c · 2 ^ k` units of
`2 ^ (-1074)`, and its scale is the least at which the number has a significand of 53 binary digits
(`Normalized`).  Every datum is one of these, an infinity or not a number (`shape`), and a number
that is not too fine and not too great has a normalized form (`exists_normalized`).
-/

set_option autoImplicit false

namespace LinkedCommit.Double

theorem twoTo_eq (n : Nat) : twoTo n = 2 ^ n := rfl

theorem twoTo_pos (n : Nat) : 0 < twoTo n := Nat.two_pow_pos n

theorem twoTo_add (m n : Nat) : twoTo (m + n) = twoTo m * twoTo n := Nat.pow_add 2 m n

theorem twoTo_le_iff {m n : Nat} : twoTo m ≤ twoTo n ↔ m ≤ n := Nat.pow_le_pow_iff_right (by decide)

theorem twoTo_lt_iff {m n : Nat} : twoTo m < twoTo n ↔ m < n := Nat.pow_lt_pow_iff_right (by decide)

/-! ## Bits -/

/-- The scale and the significand that a finite datum stores. -/
structure Normalized (k c : Nat) : Prop where
  significand_lt : c < 2 ^ 53
  scale_le : k ≤ 2045
  leading : k = 0 ∨ 2 ^ 52 ≤ c

def scaled (negative : Bool) (k c : Nat) : Double := ofMagnitude negative (k * twoTo 52 + c)

def negativeZero : Double := scaled true 0 0

theorem toNat_bits_ofMagnitude {negative : Bool} {magnitude : Nat}
    (bounded : magnitude ≤ infinityBits) :
    (ofMagnitude negative magnitude).bits.toNat = (if negative then 2 ^ 63 else 0) + magnitude := by
  have small : magnitude < 2 ^ 63 := Nat.lt_of_le_of_lt bounded (by decide)
  have fits : (if negative then 2 ^ 63 else 0) + magnitude < UInt64.size := by
    rw [UInt64.size]
    split <;> omega
  rw [ofMagnitude, Nat.min_eq_left bounded, twoTo_eq, UInt64.toNat_ofNat_of_lt' fits]

section

variable {negative : Bool} {magnitude : Nat} (bounded : magnitude ≤ infinityBits)
include bounded

theorem magnitudeBits_ofMagnitude : (ofMagnitude negative magnitude).magnitudeBits = magnitude := by
  have small : magnitude < 2 ^ 63 := Nat.lt_of_le_of_lt bounded (by decide)
  rw [magnitudeBits, toNat_bits_ofMagnitude bounded, twoTo_eq]
  split <;> omega

theorem isNegative_ofMagnitude : (ofMagnitude negative magnitude).isNegative = negative := by
  have small : magnitude < 2 ^ 63 := Nat.lt_of_le_of_lt bounded (by decide)
  rw [isNegative, toNat_bits_ofMagnitude bounded, twoTo_eq]
  cases negative with
  | true => exact decide_eq_true (Nat.le_add_right _ _)
  | false => exact decide_eq_false (by simpa using small)

end

/-- A datum that is a number or infinite is told by its sign and magnitude. -/
theorem ofMagnitude_magnitudeBits {d : Double} (bounded : d.magnitudeBits ≤ infinityBits) :
    ofMagnitude d.isNegative d.magnitudeBits = d := by
  have below : d.bits.toNat < 2 ^ 64 := d.bits.toNat_lt
  have same : (ofMagnitude d.isNegative d.magnitudeBits).bits.toNat = d.bits.toNat := by
    rw [toNat_bits_ofMagnitude bounded, magnitudeBits, isNegative, twoTo_eq]
    simp only [decide_eq_true_eq]
    split <;> omega
  cases d
  exact congrArg Double.mk (UInt64.toNat_inj.mp same)

theorem Normalized.magnitude_lt {k c : Nat} (normalized : Normalized k c) :
    k * twoTo 52 + c < infinityBits := by
  obtain ⟨significand, scale, -⟩ := normalized
  rw [infinityBits, twoTo_eq]
  omega

section

variable {k c : Nat} (normalized : Normalized k c) (negative : Bool)
include normalized

theorem isNegative_scaled : (scaled negative k c).isNegative = negative :=
  isNegative_ofMagnitude normalized.magnitude_lt.le

theorem magnitudeBits_scaled : (scaled negative k c).magnitudeBits = k * 2 ^ 52 + c :=
  magnitudeBits_ofMagnitude normalized.magnitude_lt.le

theorem view_scaled : (scaled negative k c).view = .finite negative c (k - 1074) := by
  rw [view, exponentField, fractionField, isNegative_scaled normalized,
    magnitudeBits_scaled normalized, twoTo_eq]
  obtain ⟨significand, scale, leading⟩ := normalized
  have noInfinity : (k * 2 ^ 52 + c) / 2 ^ 52 ≠ 2047 := by omega
  rw [if_neg noInfinity]
  by_cases subnormal : c < 2 ^ 52
  · obtain rfl : k = 0 := by omega
    rw [if_pos (by omega), Nat.mod_eq_of_lt (by omega), Nat.zero_mul, Nat.zero_add]
    rfl
  · have field : (k * 2 ^ 52 + c) / 2 ^ 52 = k + 1 := by omega
    have fraction : (k * 2 ^ 52 + c) % 2 ^ 52 + 2 ^ 52 = c := by omega
    rw [field, if_neg (Nat.succ_ne_zero k), fraction]
    congr 1
    omega

end

theorem view_infinity (negative : Bool) : (infinity negative).view = .infinity negative := by
  cases negative <;> decide +kernel

/-! ## The kinds of data -/

/-- What a datum is: not a number, infinite, or a finite number in its normalized form. -/
inductive Shape : Double → Prop
  | nan {d : Double} (isNaN : d.view = .nan) : Shape d
  | infinity (negative : Bool) : Shape (infinity negative)
  | finite (negative : Bool) {k c : Nat} (normalized : Normalized k c) : Shape (scaled negative k c)

theorem shape (d : Double) : d.Shape := by
  have parts : d.exponentField * 2 ^ 52 + d.fractionField = d.magnitudeBits := by
    rw [exponentField, fractionField, twoTo_eq, Nat.div_add_mod']
  have fraction : d.fractionField < 2 ^ 52 := Nat.mod_lt _ (twoTo_pos 52)
  have small : d.magnitudeBits < 2 ^ 63 := Nat.mod_lt _ (twoTo_pos 63)
  have bits : infinityBits = 2047 * 2 ^ 52 := rfl
  by_cases top : d.exponentField = 2047
  · by_cases plain : d.fractionField = 0
    · have infinite : d.magnitudeBits = infinityBits := by omega
      have same : Double.infinity d.isNegative = d := by
        rw [Double.infinity, ← infinite, ofMagnitude_magnitudeBits (Nat.le_of_eq infinite)]
      exact same ▸ .infinity d.isNegative
    · exact .nan (by rw [view, if_pos top, if_neg plain])
  · have same := ofMagnitude_magnitudeBits (d := d) (by omega)
    by_cases subnormal : d.exponentField = 0
    · have normalized : Normalized 0 d.magnitudeBits := ⟨by omega, by omega, .inl rfl⟩
      have form : scaled d.isNegative 0 d.magnitudeBits = d := by
        rw [scaled, Nat.zero_mul, Nat.zero_add, same]
      exact form ▸ .finite d.isNegative normalized
    · obtain ⟨k, field⟩ := Nat.exists_eq_succ_of_ne_zero subnormal
      have normalized : Normalized k (d.fractionField + 2 ^ 52) :=
        ⟨by omega, by omega, .inr (Nat.le_add_left _ _)⟩
      have magnitude : k * 2 ^ 52 + (d.fractionField + 2 ^ 52) = d.magnitudeBits := by
        rw [← parts, field, Nat.succ_mul, Nat.add_assoc, Nat.add_comm d.fractionField]
      have form : scaled d.isNegative k (d.fractionField + 2 ^ 52) = d := by
        rw [scaled, twoTo_eq, magnitude, same]
      exact form ▸ .finite d.isNegative normalized

/-! ## The number that a datum denotes -/

def signOf (negative : Bool) : ℚ := if negative then -1 else 1

/-- The exact number that a finite datum denotes. -/
def value? (d : Double) : Option ℚ :=
  match d.view with
  | .finite negative m q => some (signOf negative * (m * 2 ^ q))
  | _ => none

theorem value?_scaled {k c : Nat} (normalized : Normalized k c) (negative : Bool) :
    (scaled negative k c).value? = some (signOf negative * (c * 2 ^ (k - 1074 : ℤ))) := by
  rw [value?, view_scaled normalized]

theorem exists_of_value? {d : Double} {x : ℚ} (denotes : d.value? = some x) :
    ∃ negative k c, Normalized k c ∧ d = scaled negative k c ∧
      signOf negative * (c * 2 ^ (k - 1074 : ℤ)) = x := by
  cases d.shape with
  | nan isNaN =>
      rw [value?, isNaN] at denotes
      cases denotes
  | infinity negative =>
      rw [value?, view_infinity] at denotes
      cases denotes
  | finite negative normalized =>
      rw [value?_scaled normalized] at denotes
      exact ⟨negative, _, _, normalized, rfl, Option.some.inj denotes⟩

/-- Each number of 53 binary digits that is not too great has a normalized form. -/
theorem exists_normalized (j : Nat) {m : Nat} (significand : m < 2 ^ 53)
    (bounded : m * twoTo j < twoTo 2098) :
    ∃ k c, Normalized k c ∧ c * twoTo k = m * twoTo j := by
  induction j generalizing m with
  | zero => exact ⟨0, m, ⟨significand, Nat.zero_le _, .inl rfl⟩, rfl⟩
  | succ j ih =>
      -- A zero of the exponent goes into the significand as long as there is room.
      by_cases short : 2 * m < 2 ^ 53
      · have same : 2 * m * twoTo j = m * twoTo (j + 1) := by
          rw [Nat.add_comm j, twoTo_add, ← Nat.mul_assoc, Nat.mul_comm m]
          rfl
        obtain ⟨k, c, normalized, equal⟩ := ih short (same ▸ bounded)
        exact ⟨k, c, normalized, equal.trans same⟩
      · have leading : twoTo 52 ≤ m := by
          rw [twoTo_eq]
          omega
        have less : twoTo (52 + (j + 1)) < twoTo 2098 := by
          rw [twoTo_add]
          exact Nat.lt_of_le_of_lt (Nat.mul_le_mul_right _ leading) bounded
        have exponents := twoTo_lt_iff.mp less
        exact ⟨j + 1, m, ⟨significand, by omega, .inr leading⟩, rfl⟩

end LinkedCommit.Double
