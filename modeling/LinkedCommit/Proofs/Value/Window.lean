import Mathlib.Data.Int.ModEq
import Mathlib.Data.Set.Function
import LinkedCommit.Value.Basic
/-!
# The balanced window and the field

An integer and its field element determine each other by remainders.  The element `x` of an integer
`v` is `v` modulo the prime, where `v` may be from the window or up to `p - 1`
(`encodeInteger_eq_ok_iff`); the integer `v` of an element `x` is the one in the window with `x` as
its remainder (`decodeFieldElement_eq_iff`).  From these two it follows that encoding and decoding
are inverse to each other between the window and the field (`window_encoded_bijectively`).

Nothing here needs the prime to be one, or to be odd: for an even modulus the window has one more
integer above zero than below.
-/

set_option autoImplicit false

namespace LinkedCommit

variable {w : FieldWindow}

namespace FieldWindow

theorem ends (positive : 1 ≤ w.prime) :
    w.minInt + w.prime = w.maxInt + 1 ∧ 0 ≤ w.maxInt ∧ w.maxInt < w.prime ∧
      w.maxElement + 1 = w.prime := by
  simp only [minInt, maxInt, maxElement]
  omega

theorem exists_remainder (positive : 1 ≤ w.prime) (v : Int) :
    ∃ x : Nat, x < w.prime ∧ (x : Int) = v % w.prime := by
  have nonnegative : 0 ≤ v % w.prime := Int.emod_nonneg v (by omega)
  have below : v % w.prime < w.prime := Int.emod_lt_of_pos v (by omega)
  exact ⟨(v % w.prime).toNat, by omega, Int.toNat_of_nonneg nonnegative⟩

theorem emod_eq (positive : 1 ≤ w.prime) {v : Int} (low : w.minInt ≤ v) (high : v ≤ w.maxElement) :
    v % w.prime = if v < 0 then v + w.prime else v := by
  obtain ⟨shift, zero, half, top⟩ := ends positive
  split
  · rw [← Int.add_emod_right]
    exact Int.emod_eq_of_lt (by omega) (by omega)
  · exact Int.emod_eq_of_lt (by omega) (by omega)

end FieldWindow

/-! ## Encoding -/

theorem encodeInteger_eq (positive : 1 ≤ w.prime) (v : Int) :
    encodeInteger v w.prime =
      if v < w.minInt then .error (.tooSmall v)
      else if w.maxElement < v then .error (.tooBig v)
      else .ok (v % w.prime).toNat := by
  obtain ⟨shift, zero, half, top⟩ := FieldWindow.ends positive
  have unfolded : encodeInteger v w.prime =
      if v < 0 then if v < w.minInt then .error (.tooSmall v) else .ok (v + w.prime).toNat
      else if w.prime ≤ v then .error (.tooBig v) else .ok v.toNat := rfl
  rw [unfolded]
  by_cases small : v < w.minInt
  · rw [if_pos (by omega), if_pos small, if_pos small]
  · by_cases large : w.maxElement < v
    · rw [if_neg (by omega), if_pos (by omega), if_neg small, if_pos large]
    · rw [if_neg small, if_neg (by omega : ¬ (w.prime : Int) ≤ v), if_neg small, if_neg large,
        FieldWindow.emod_eq positive (by omega) (by omega)]
      split <;> rfl

theorem encodeInteger_eq_ok_iff (positive : 1 ≤ w.prime) {v : Int} {x : Nat} :
    encodeInteger v w.prime = .ok x ↔
      w.minInt ≤ v ∧ v ≤ w.maxElement ∧ (x : Int) = v % w.prime := by
  obtain ⟨y, -, remainder⟩ := FieldWindow.exists_remainder positive v
  rw [encodeInteger_eq positive, ← remainder, Int.toNat_natCast]
  split
  · simp only [reduceCtorEq, false_iff]
    omega
  · split
    · simp only [reduceCtorEq, false_iff]
      omega
    · rw [Except.ok.injEq]
      omega

theorem encodeTime_eq_emod (positive : 1 ≤ w.prime) (t : Timestamp) :
    (encodeTime t w.prime : Int) = t.totalNanos % w.prime := by
  obtain ⟨x, -, remainder⟩ := FieldWindow.exists_remainder positive t.totalNanos
  rw [encodeTime, ← remainder, Int.toNat_natCast]

/-! ## Decoding -/

theorem decodeFieldElement_eq (w : FieldWindow) (x : Nat) :
    decodeFieldElement x w.prime = if w.maxInt < x then (x : Int) - w.prime else x := rfl

theorem decodeFieldElement_eq_iff {x : Nat} (inField : x < w.prime) {v : Int} :
    decodeFieldElement x w.prime = v ↔
      w.minInt ≤ v ∧ v ≤ w.maxInt ∧ (x : Int) = v % w.prime := by
  have positive : 1 ≤ w.prime := Nat.one_le_of_lt inField
  obtain ⟨shift, zero, half, top⟩ := FieldWindow.ends positive
  have own : (x : Int) % w.prime = x := Int.emod_eq_of_lt (Int.natCast_nonneg x) (by omega)
  rw [decodeFieldElement_eq]
  constructor
  · rintro rfl
    split
    · rw [Int.sub_emod_right, own]
      omega
    · rw [own]
      omega
  · rintro ⟨low, high, remainder⟩
    rw [FieldWindow.emod_eq positive low (by omega)] at remainder
    split at remainder <;> split <;> omega

/-! ## There and back -/

theorem exists_encodeInteger_iff (positive : 1 ≤ w.prime) (v : Int) :
    (∃ x, encodeInteger v w.prime = .ok x) ↔ w.minInt ≤ v ∧ v ≤ w.maxElement := by
  simp only [encodeInteger_eq_ok_iff positive, exists_and_left]
  obtain ⟨x, -, remainder⟩ := FieldWindow.exists_remainder positive v
  exact ⟨fun ⟨low, high, _⟩ => ⟨low, high⟩, fun ⟨low, high⟩ => ⟨low, high, x, remainder⟩⟩

theorem encodeInteger_lt (positive : 1 ≤ w.prime) {v : Int} {x : Nat}
    (encoded : encodeInteger v w.prime = .ok x) : x < w.prime ∧ (x : Int) ≡ v [ZMOD w.prime] := by
  obtain ⟨-, -, same⟩ := (encodeInteger_eq_ok_iff positive).mp encoded
  obtain ⟨y, inField, remainder⟩ := FieldWindow.exists_remainder positive v
  refine ⟨by omega, ?_⟩
  rw [same]
  exact Int.mod_modEq v w.prime

theorem decodeFieldElement_encodeInteger_iff (positive : 1 ≤ w.prime) (v : Int) :
    (∃ x, encodeInteger v w.prime = .ok x ∧ decodeFieldElement x w.prime = v) ↔
      w.minInt ≤ v ∧ v ≤ w.maxInt := by
  obtain ⟨shift, zero, half, top⟩ := FieldWindow.ends positive
  constructor
  · rintro ⟨x, encoded, decoded⟩
    have inField := (encodeInteger_lt positive encoded).1
    obtain ⟨low, high, -⟩ := (decodeFieldElement_eq_iff inField).mp decoded
    exact ⟨low, high⟩
  · rintro ⟨low, high⟩
    obtain ⟨x, inField, remainder⟩ := FieldWindow.exists_remainder positive v
    exact ⟨x, (encodeInteger_eq_ok_iff positive).mpr ⟨low, by omega, remainder⟩,
      (decodeFieldElement_eq_iff inField).mpr ⟨low, high, remainder⟩⟩

theorem encodeInteger_decodeFieldElement {x : Nat} (inField : x < w.prime) :
    encodeInteger (decodeFieldElement x w.prime) w.prime = .ok x := by
  have positive : 1 ≤ w.prime := Nat.one_le_of_lt inField
  obtain ⟨shift, zero, half, top⟩ := FieldWindow.ends positive
  obtain ⟨low, high, remainder⟩ := (decodeFieldElement_eq_iff inField).mp rfl
  exact (encodeInteger_eq_ok_iff positive).mpr ⟨low, by omega, remainder⟩

/-- Decoding takes the field onto the window, no two elements to one integer. -/
theorem decodeFieldElement_bijOn (positive : 1 ≤ w.prime) :
    Set.BijOn (decodeFieldElement · w.prime) {x | x < w.prime}
      {v | w.minInt ≤ v ∧ v ≤ w.maxInt} := by
  refine ⟨fun x inField => ?_, fun x inField y inField' same => ?_, fun v window => ?_⟩
  · obtain ⟨low, high, -⟩ := (decodeFieldElement_eq_iff inField).mp rfl
    exact ⟨low, high⟩
  · have back := encodeInteger_decodeFieldElement (w := w) inField
    have back' := encodeInteger_decodeFieldElement (w := w) inField'
    have elements := congrArg (encodeInteger · w.prime) same
    exact Except.ok.inj (back.symm.trans (elements.trans back'))
  · obtain ⟨x, encoded, decoded⟩ := (decodeFieldElement_encodeInteger_iff positive v).mpr window
    exact ⟨x, (encodeInteger_lt positive encoded).1, decoded⟩

theorem decodeFieldElement_encodeTime (positive : 1 ≤ w.prime) {t : Timestamp}
    (low : w.minInt ≤ t.totalNanos) (high : t.totalNanos ≤ w.maxInt) :
    decodeFieldElement (encodeTime t w.prime) w.prime = t.totalNanos := by
  have remainder := encodeTime_eq_emod positive t
  obtain ⟨x, inField, same⟩ := FieldWindow.exists_remainder positive t.totalNanos
  exact (decodeFieldElement_eq_iff (by omega)).mpr ⟨low, high, remainder⟩

/-- Integers from the least of the window to `p - 1` have the element that is congruent to them.
Decoding gives back those of the window, encoding gives back every element, and each is a bijection
between the window and the field.  Timestamps with nanoseconds in the window are decoded to these. -/
theorem window_encoded_bijectively (w : FieldWindow) (positive : 1 ≤ w.prime) :
    (∀ v, (∃ x, encodeInteger v w.prime = .ok x) ↔ w.minInt ≤ v ∧ v ≤ w.prime - 1) ∧
    (∀ v x, encodeInteger v w.prime = .ok x → x < w.prime ∧ (x : Int) ≡ v [ZMOD w.prime]) ∧
    (∀ v, (∃ x, encodeInteger v w.prime = .ok x ∧ decodeFieldElement x w.prime = v) ↔
      w.minInt ≤ v ∧ v ≤ w.maxInt) ∧
    (∀ x < w.prime, encodeInteger (decodeFieldElement x w.prime) w.prime = .ok x) ∧
    Set.BijOn (decodeFieldElement · w.prime) {x | x < w.prime} {v | w.minInt ≤ v ∧ v ≤ w.maxInt} ∧
    ∀ t : Timestamp, w.minInt ≤ t.totalNanos → t.totalNanos ≤ w.maxInt →
      decodeFieldElement (encodeTime t w.prime) w.prime = t.totalNanos :=
  ⟨exists_encodeInteger_iff positive, fun _ _ => encodeInteger_lt positive,
    decodeFieldElement_encodeInteger_iff positive, fun _ => encodeInteger_decodeFieldElement,
    decodeFieldElement_bijOn positive, fun _ => decodeFieldElement_encodeTime positive⟩

/-- Modulo four the window is from `-1` to `2`.  Also `3` has an element, but that is the one of
`-1`, and of the last nanosecond before 1970. -/
theorem window_of_four_encoded :
    let w : FieldWindow := ⟨4⟩
    let t : Timestamp := ⟨-1, 999999999⟩
    w.minInt = -1 ∧ w.maxInt = 2 ∧ encodeInteger (-1) w.prime = .ok 3 ∧
      encodeInteger 3 w.prime = .ok 3 ∧
      (¬ ∃ x, encodeInteger 3 w.prime = .ok x ∧ decodeFieldElement x w.prime = 3) ∧
      (¬ ∃ x, encodeInteger (-2) w.prime = .ok x) ∧
      decodeFieldElement (encodeTime t w.prime) w.prime = -1 := by
  intro w t
  have positive : 1 ≤ w.prime := by decide
  have decoded : decodeFieldElement 3 w.prime = -1 := by decide
  obtain ⟨encoded, -, back, forth, -, time⟩ := window_encoded_bijectively w positive
  refine ⟨by decide, by decide, ?_, rfl, ?_, ?_, time t (by decide) (by decide)⟩
  · have element := forth 3 (by decide)
    rwa [decoded] at element
  · exact fun found => absurd ((back 3).mp found) (by decide)
  · exact fun found => absurd ((encoded (-2)).mp found) (by decide)

end LinkedCommit
