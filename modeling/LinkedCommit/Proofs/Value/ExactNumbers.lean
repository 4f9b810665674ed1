import LinkedCommit.Proofs.Hash.Separation
import LinkedCommit.Proofs.Number.Rounding
import LinkedCommit.Proofs.Value.Native
/-!
# Numbers are converted exactly

A native number is never rounded to fit a datatype.  A floating-point number is used as an integer
just if it denotes one (`floatToInteger_eq_ok_iff`), and an integer as a floating-point number just
if one denotes it: these are the integers with a significand of 53 binary digits below `2 ^ 1024`
(`exists_integerToDouble_iff`).  So a caller may hold an integer in either form and compute the same
field element (`integers_exact`).
-/

set_option autoImplicit false

namespace LinkedCommit

namespace Double

/-! ## Integers among the data -/

theorem signOf_mul_cast (negative : Bool) (n : Nat) :
    signOf negative * n = ((if negative then -(n : Int) else n : Int) : ℚ) := by
  cases negative <;> simp [signOf]

theorem magnitude_eq_natAbs {negative : Bool} {m : Nat} {q v : Int}
    (equal : signOf negative * (m * 2 ^ q) = v) : (m * 2 ^ q : ℚ) = v.natAbs := by
  have size : |signOf negative| = 1 := by cases negative <;> simp [signOf]
  have nonneg : (0 : ℚ) ≤ m * 2 ^ q := mul_nonneg (Nat.cast_nonneg m) (two_zpow_pos q).le
  rw [Nat.cast_natAbs, Int.cast_abs, ← equal, abs_mul, size, one_mul, abs_of_nonneg nonneg]

theorem signOf_mul_natAbs (v : Int) : signOf (v < 0) * v.natAbs = (v : ℚ) := by
  rw [signOf_mul_cast]
  congr 1
  simp only [decide_eq_true_eq]
  split <;> omega

theorem signed_eq_some_iff {negative : Bool} {x : ℚ} {n : Nat} (magnitude : x = n) {v : Int} :
    some (if negative then -(n : Int) else n) = some v ↔
      some (signOf negative * x) = some (v : ℚ) := by
  rw [magnitude, signOf_mul_cast, Option.some_inj, Option.some_inj, Int.cast_inj]

theorem twoTo_mul_zpow_neg (j : Nat) : (twoTo j * 2 ^ (-j : ℤ) : ℚ) = 1 := by
  rw [cast_twoTo, ← zpow_add₀ (by norm_num), add_neg_cancel, zpow_zero]

theorem magnitude_of_dvd {m j : Nat} (divides : twoTo j ∣ m) :
    (m * 2 ^ (-j : ℤ) : ℚ) = (m / twoTo j : ℕ) := by
  calc (m * 2 ^ (-j : ℤ) : ℚ)
      = (m / twoTo j : ℕ) * (twoTo j * 2 ^ (-j : ℤ)) := by
        rw [← mul_assoc, ← Nat.cast_mul, Nat.div_mul_cancel divides]
    _ = (m / twoTo j : ℕ) := by rw [twoTo_mul_zpow_neg, mul_one]

theorem dvd_of_magnitude {m j n : Nat} (whole : (m * 2 ^ (-j : ℤ) : ℚ) = n) : twoTo j ∣ m := by
  have multiple : (m : ℚ) = (n * twoTo j : ℕ) := by
    rw [Nat.cast_mul, ← whole, mul_assoc, mul_comm _ (twoTo j : ℚ), twoTo_mul_zpow_neg, mul_one]
  exact ⟨n, (Nat.cast_inj.mp multiple).trans (Nat.mul_comm n _)⟩

theorem toInt?_eq_some_iff {d : Double} {v : Int} :
    d.toInt? = some v ↔ d.value? = some (v : ℚ) := by
  rw [toInt?, value?]
  cases view : d.view with
  | nan => simp
  | infinity negative => simp
  | finite negative m q =>
    dsimp only
    by_cases large : 0 ≤ q
    · rw [if_pos large]
      refine signed_eq_some_iff ?_
      rw [Nat.cast_mul, cast_twoTo, Int.toNat_of_nonneg large]
    · obtain ⟨j, rfl⟩ : ∃ j : Nat, q = -j := ⟨(-q).toNat, by omega⟩
      rw [if_neg large, neg_neg, Int.toNat_natCast]
      by_cases divides : m % twoTo j = 0
      · rw [if_pos divides]
        exact signed_eq_some_iff (magnitude_of_dvd (Nat.dvd_of_mod_eq_zero divides))
      · rw [if_neg divides]
        simp only [reduceCtorEq, false_iff, Option.some_inj]
        intro equal
        exact divides (Nat.mod_eq_zero_of_dvd (dvd_of_magnitude (magnitude_eq_natAbs equal)))

theorem sign_of_value {negative : Bool} {k c : Nat} (normalized : Normalized k c) {v : Int}
    (equal : signOf negative * (c * 2 ^ (k - 1074 : ℤ)) = v)
    (signed : scaled negative k c ≠ negativeZero) : decide (v < 0) = negative := by
  by_cases zero : c = 0
  · subst zero
    obtain rfl : k = 0 := normalized.leading.resolve_right (by norm_num)
    have plain : negative = false := by
      cases negative with
      | false => rfl
      | true => exact absurd rfl signed
    have null : (v : ℚ) = 0 := by rw [← equal, Nat.cast_zero, zero_mul, mul_zero]
    obtain rfl := Int.cast_eq_zero.mp null
    exact plain.symm
  · have positive : (0 : ℚ) < c * 2 ^ (k - 1074 : ℤ) :=
      mul_pos (Nat.cast_pos.mpr (Nat.pos_of_ne_zero zero)) (two_zpow_pos _)
    cases negative with
    | true =>
      have below : (v : ℚ) < 0 := equal ▸ mul_neg_of_neg_of_pos (by norm_num [signOf]) positive
      exact decide_eq_true (Int.cast_lt_zero.mp below)
    | false =>
      have above : (0 : ℚ) < v := equal ▸ mul_pos (by norm_num [signOf]) positive
      exact decide_eq_false (Int.not_lt.mpr (Int.cast_pos.mp above).le)

theorem nearestInt_of_value? {d : Double} {v : Int} (denotes : d.value? = some (v : ℚ))
    (signed : d ≠ negativeZero) : nearestInt v = d := by
  obtain ⟨negative, k, c, normalized, rfl, equal⟩ := exists_of_value? denotes
  have rounds : RoundsTo c (k - 1074) (v.natAbs / (1 : ℕ)) := by
    rw [Nat.cast_one, div_one, ← magnitude_eq_natAbs equal]
    exact roundsTo_self c _
  rw [nearestInt, sign_of_value normalized equal signed,
    nearest_of_roundsTo normalized Nat.one_pos rounds]

theorem value?_zero (negative : Bool) : (scaled negative 0 0).value? = some ((0 : Int) : ℚ) := by
  rw [value?_scaled ⟨by norm_num, Nat.zero_le _, .inl rfl⟩, Nat.cast_zero, zero_mul, mul_zero,
    Int.cast_zero]

theorem ofInt?_eq_some_iff {v : Int} {d : Double} :
    ofInt? v = some d ↔ d.value? = some (v : ℚ) ∧ d ≠ negativeZero := by
  constructor
  · intro found
    obtain ⟨exact, ⟨⟩⟩ := Option.ite_none_right_eq_some.mp found
    have denotes := toInt?_eq_some_iff.mp exact
    refine ⟨denotes, fun same => ?_⟩
    have zero : (0 : Int) = v := by
      rw [same] at denotes
      exact Int.cast_inj.mp (Option.some.inj ((value?_zero true).symm.trans denotes))
    subst zero
    have plain : scaled false 0 0 ≠ negativeZero := by decide +kernel
    exact plain ((nearestInt_of_value? (value?_zero false) plain).symm.trans same)
  · rintro ⟨denotes, signed⟩
    rw [ofInt?, nearestInt_of_value? denotes signed]
    exact if_pos (toInt?_eq_some_iff.mpr denotes)

/-! ## The integers that are data -/

/-- An integer is a significand of 53 binary digits with zeros behind it, and is not too great. -/
def IsExact (v : Int) : Prop := ∃ (m : Int) (e : Nat), v = m * 2 ^ e ∧ |m| < 2 ^ 53 ∧ |v| < 2 ^ 1024

theorem abs_lt_iff (v : Int) (n : Nat) : |v| < 2 ^ n ↔ v.natAbs < twoTo n := by
  rw [Int.abs_eq_natAbs, twoTo_eq]
  norm_cast

theorem isExact_iff {v : Int} :
    IsExact v ↔ ∃ m e, v.natAbs = m * twoTo e ∧ m < twoTo 53 ∧ v.natAbs < twoTo 1024 := by
  constructor
  · rintro ⟨m, e, rfl, significand, bounded⟩
    refine ⟨m.natAbs, e, ?_, (abs_lt_iff m 53).mp significand, (abs_lt_iff _ 1024).mp bounded⟩
    rw [Int.natAbs_mul, Int.natAbs_pow, twoTo_eq]
    rfl
  · rintro ⟨m, e, form, significand, bounded⟩
    have cast : (v.natAbs : Int) = m * 2 ^ e := by
      rw [form, Nat.cast_mul, twoTo_eq, Nat.cast_pow, Nat.cast_ofNat]
    have sign : v.sign.natAbs ≤ 1 := by
      rw [Int.natAbs_sign]
      split <;> decide
    refine ⟨v.sign * m, e, ?_, (abs_lt_iff _ 53).mpr ?_, (abs_lt_iff v 1024).mpr bounded⟩
    · rw [mul_assoc, ← cast, Int.sign_mul_natAbs]
    · rw [Int.natAbs_mul, Int.natAbs_natCast]
      have most := Nat.mul_le_mul_right m sign
      rw [Nat.one_mul] at most
      exact Nat.lt_of_le_of_lt most significand

theorem magnitude_eq_iff {k c n : Nat} :
    (c * 2 ^ (k - 1074 : ℤ) : ℚ) = n ↔ c * twoTo k = n * twoTo 1074 := by
  have unit : ((1 * twoTo 1074 : ℕ) : ℚ) ≠ 0 :=
    Nat.cast_ne_zero.mpr (Nat.mul_pos Nat.one_pos (twoTo_pos 1074)).ne'
  rw [← mul_left_inj' unit, mul_assoc, scale_unit, ← Nat.cast_mul, ← Nat.cast_mul, Nat.cast_inj,
    Nat.one_mul, Nat.one_mul]

theorem isExact_of_value? {d : Double} {v : Int} (denotes : d.value? = some (v : ℚ)) :
    IsExact v := by
  obtain ⟨negative, k, c, ⟨significand, scale, -⟩, -, equal⟩ := exists_of_value? denotes
  have units := magnitude_eq_iff.mp (magnitude_eq_natAbs equal)
  rw [← twoTo_eq] at significand
  rw [isExact_iff]
  -- From the scale `1074` on a datum is whole; before it, it is a fraction of its significand.
  rcases Nat.le_total 1074 k with large | small
  · obtain ⟨e, rfl⟩ := Nat.exists_eq_add_of_le large
    have form : v.natAbs = c * twoTo e := by
      rw [twoTo_add, Nat.mul_left_comm, Nat.mul_comm] at units
      exact (Nat.eq_of_mul_eq_mul_right (twoTo_pos 1074) units).symm
    have less : v.natAbs < twoTo 53 * twoTo 971 := by
      rw [form]
      exact Nat.mul_lt_mul_of_lt_of_le significand (twoTo_le_iff.mpr (by omega)) (twoTo_pos _)
    rw [← twoTo_add] at less
    exact ⟨c, e, form, significand, less⟩
  · obtain ⟨j, sum⟩ := Nat.exists_eq_add_of_le small
    have fraction : c = v.natAbs * twoTo j := by
      rw [sum, twoTo_add, Nat.mul_left_comm, Nat.mul_comm] at units
      exact Nat.eq_of_mul_eq_mul_left (twoTo_pos k) units
    have less : v.natAbs < twoTo 53 :=
      Nat.lt_of_le_of_lt (fraction ▸ Nat.le_mul_of_pos_right _ (twoTo_pos j)) significand
    exact ⟨v.natAbs, 0, (Nat.mul_one _).symm, less,
      Nat.lt_of_lt_of_le less (twoTo_le_iff.mpr (by decide))⟩

theorem exists_of_isExact {v : Int} (isExact : IsExact v) :
    ∃ d, d.value? = some (v : ℚ) ∧ d ≠ negativeZero := by
  obtain ⟨m, e, form, significand, bounded⟩ := isExact_iff.mp isExact
  have units : m * twoTo (e + 1074) = v.natAbs * twoTo 1074 := by
    rw [form, twoTo_add, Nat.mul_assoc]
  have fits : m * twoTo (e + 1074) < twoTo 2098 := by
    have total : 2098 = 1024 + 1074 := rfl
    rw [units, total, twoTo_add]
    exact Nat.mul_lt_mul_of_pos_right bounded (twoTo_pos 1074)
  obtain ⟨k, c, normalized, equal⟩ := exists_normalized (e + 1074) significand fits
  have denotes : (scaled (v < 0) k c).value? = some (v : ℚ) := by
    rw [value?_scaled normalized, magnitude_eq_iff.mpr (equal.trans units), signOf_mul_natAbs]
  refine ⟨_, denotes, fun same => ?_⟩
  have zero : v = 0 :=
    Int.cast_inj.mp (Option.some.inj (denotes.symm.trans (same ▸ value?_zero true)))
  have sign := congrArg isNegative same
  rw [zero, isNegative_scaled normalized] at sign
  exact absurd sign (by decide +kernel)

end Double

/-! ## Conversions -/

theorem floatToInteger_eq_ok_iff {d : Double} {v : Int} :
    floatToInteger d = .ok v ↔ d.value? = some (v : ℚ) := by
  rw [← Double.toInt?_eq_some_iff, floatToInteger]
  cases d.toInt? <;> simp

theorem integerToDouble_eq_ok_iff {v : Int} {d : Double} :
    integerToDouble v = .ok d ↔ d.value? = some (v : ℚ) ∧ d ≠ Double.negativeZero := by
  rw [← Double.ofInt?_eq_some_iff, integerToDouble]
  cases Double.ofInt? v <;> simp

theorem exists_integerToDouble_iff {v : Int} :
    (∃ d, integerToDouble v = .ok d) ↔ Double.IsExact v := by
  simp only [integerToDouble_eq_ok_iff]
  constructor
  · rintro ⟨d, denotes, -⟩
    exact Double.isExact_of_value? denotes
  · exact Double.exists_of_isExact

/-! ## The committed element -/

namespace NativeValue

theorem hashValue_congr {native native' : NativeValue} {datatype : String}
    (same : native.lexical datatype = native'.lexical datatype) (hasher : Hasher) :
    hashValue hasher datatype native = hashValue hasher datatype native' := by
  rw [hashValue, hashValue, same]

theorem lexical_float_name {d : Double} {v : Int} (denotes : d.value? = some (v : ℚ))
    (t : IntegerType) : (float d).lexical t.name = .ok (toString v) := by
  have isInteger : isIntegerDatatype t.name = true := by
    rw [isIntegerDatatype, t.ofName?_name]
    rfl
  rw [lexical, if_pos isInteger, floatToInteger_eq_ok_iff.mpr denotes]
  rfl

theorem lexical_float_double (d : Double) :
    (float d).lexical Xsd.double = .ok (canonicalDouble d) := by
  have noInteger : ¬isIntegerDatatype Xsd.double = true := by decide +kernel
  rw [lexical, if_neg noInteger, if_pos rfl]

theorem lexical_double_of_integer? {native : NativeValue} {v : Int}
    (integer : native.integer? = some v) :
    native.lexical Xsd.double = (integerToDouble v).map canonicalDouble := by
  cases native with
  | int n | uint n | bigInt n =>
      cases integer
      rw [lexical, integerLexical, if_pos rfl]
  | string _ | bool _ | time _ | float _ => cases integer

end NativeValue

/-- Conversions between integers and floating-point numbers are exact: an integer is converted just
if it has 53 binary digits with zeros behind them and is in the range, a datum just if it denotes an
integer, and each to the number that it is.  So under every integer type, and as a floating-point
number unless it is a negative zero, an integer commits to the same element in both forms. -/
theorem integers_exact :
    (∀ v : Int, ((∃ d, integerToDouble v = .ok d) ↔
      ∃ (m : Int) (e : Nat), v = m * 2 ^ e ∧ |m| < 2 ^ 53 ∧ |v| < 2 ^ 1024)) ∧
    (∀ (v : Int) (d : Double), integerToDouble v = .ok d →
      d.value? = some (v : ℚ) ∧ floatToInteger d = .ok v) ∧
    (∀ (d : Double) (v : Int), floatToInteger d = .ok v ↔ d.value? = some (v : ℚ)) ∧
    ∀ (hasher : Hasher) (native : NativeValue) (v : Int) (d : Double),
      native.integer? = some v → d.value? = some (v : ℚ) →
      (∀ t : IntegerType,
        hashValue hasher t.name native = hashValue hasher t.name (.float d)) ∧
      (d ≠ Double.negativeZero →
        hashValue hasher Xsd.double native = hashValue hasher Xsd.double (.float d)) := by
  refine ⟨fun v => exists_integerToDouble_iff, fun v d converted => ?_,
    fun d v => floatToInteger_eq_ok_iff, fun hasher native v d integer denotes => ⟨fun t => ?_,
      fun signed => ?_⟩⟩
  · have denotes := (integerToDouble_eq_ok_iff.mp converted).1
    exact ⟨denotes, floatToInteger_eq_ok_iff.mpr denotes⟩
  · refine NativeValue.hashValue_congr ?_ hasher
    rw [NativeValue.lexical_eq_of_integer? integer, NativeValue.lexical_float_name denotes]
  · refine NativeValue.hashValue_congr ?_ hasher
    rw [NativeValue.lexical_double_of_integer? integer, NativeValue.lexical_float_double,
      integerToDouble_eq_ok_iff.mpr ⟨denotes, signed⟩]
    rfl

/-- The least integer of 64 bits is a floating-point number, and the one above it is not, as it has
too many digits. -/
theorem least_int64_exact :
    let least : Int := -9223372036854775808
    let d : Double := ⟨0xc3e0000000000000⟩
    let hasher := foldHasher 1000000007
    integerToDouble least = .ok d ∧ canonicalDouble d = "-9.223372036854776E18" ∧
      floatToInteger d = .ok least ∧
      (¬∃ (m : Int) (e : Nat), least + 1 = m * 2 ^ e ∧ |m| < 2 ^ 53 ∧ |least + 1| < 2 ^ 1024) ∧
      hashValue hasher Xsd.integer (.int Int64.minValue) =
        hashValue hasher Xsd.integer (.float d) ∧
      hashValue hasher Xsd.double (.int Int64.minValue) =
        hashValue hasher Xsd.double (.float d) := by
  intro least d hasher
  obtain ⟨converts, exact, denotes, committed⟩ := integers_exact
  have converted : integerToDouble least = .ok d := by decide +kernel
  have refused : (integerToDouble (least + 1)).isOk = false := by decide +kernel
  obtain ⟨value, back⟩ := exact least d converted
  obtain ⟨integers, double⟩ := committed hasher (.int Int64.minValue) least d rfl value
  refine ⟨converted, by decide +kernel, back, fun form => ?_, integers .integer,
    double (by decide +kernel)⟩
  obtain ⟨d', converted'⟩ := (converts (least + 1)).mpr form
  rw [converted'] at refused
  cases refused

end LinkedCommit
