import Mathlib.Algebra.Ring.Nat
import LinkedCommit.Number.Decimal
/-!
# Decimal texts and their readers

A reader of decimal text gives back the number that was written (`digits?_toDigits`,
`grouped?_toString`).  Zeros in front change nothing.  What the lenient readers allow beside digits,
underscores and signs, is no digit, so that it does not get in the way of a written number.
-/

set_option autoImplicit false

namespace LinkedCommit.Decimal

theorem value_eq_ofDigitChars (ds : List Char) : value ds = Nat.ofDigitChars 10 ds 0 := rfl

theorem value_zeros_append (zeros : Nat) (ds : List Char) :
    value (List.replicate zeros '0' ++ ds) = value ds := by
  rw [value_eq_ofDigitChars, Nat.ofDigitChars_append, Nat.ofDigitChars_replicate_zero, Nat.mul_zero,
    value_eq_ofDigitChars]

theorem value_toDigits (n : Nat) : value (Nat.toDigits 10 n) = n := Nat.ofDigitChars_ten_toDigits

theorem isDigit_of_mem_toDigits {n : Nat} {c : Char} (member : c ∈ Nat.toDigits 10 n) :
    c.isDigit = true :=
  Nat.isDigit_of_mem_toDigits (by decide) (by decide) member

theorem isDigit_iff {c : Char} : c.isDigit = true ↔ 48 ≤ c.toNat ∧ c.toNat ≤ 57 := by
  simp only [Char.isDigit, Bool.and_eq_true, decide_eq_true_eq, UInt32.le_iff_toNat_le]
  exact Iff.rfl

theorem ofDigitChars_lt {ds : List Char} (digits : ∀ c ∈ ds, c.isDigit = true) (start : Nat) :
    Nat.ofDigitChars 10 ds start < (start + 1) * 10 ^ ds.length := by
  induction ds generalizing start with
  | nil =>
      rw [List.length_nil, Nat.pow_zero, Nat.mul_one]
      exact Nat.lt_succ_self start
  | cons d rest ih =>
      have digit := isDigit_iff.mp (digits d List.mem_cons_self)
      have first : 10 * start + (d.toNat - '0'.toNat) + 1 ≤ (start + 1) * 10 := by
        have zero : '0'.toNat = 48 := rfl
        omega
      rw [Nat.ofDigitChars_cons, List.length_cons, Nat.pow_succ', ← Nat.mul_assoc]
      exact Nat.lt_of_lt_of_le (ih (fun c member => digits c (List.mem_cons_of_mem d member)) _)
        (Nat.mul_le_mul_right _ first)

theorem value_lt {ds : List Char} (digits : ∀ c ∈ ds, c.isDigit = true) :
    value ds < 10 ^ ds.length := by
  have less := ofDigitChars_lt digits 0
  rwa [Nat.zero_add, Nat.one_mul] at less

theorem digits?_zeros_toDigits (zeros n : Nat) :
    digits? (List.replicate zeros '0' ++ Nat.toDigits 10 n) = some n := by
  refine (digits?_eq_some_iff _ _).mpr ⟨?_, ?_, ?_⟩
  · exact List.append_ne_nil_of_right_ne_nil _ Nat.toDigits_ne_nil
  · intro c member
    rcases List.mem_append.mp member with zero | digit
    · exact List.eq_of_mem_replicate zero ▸ rfl
    · exact isDigit_of_mem_toDigits digit
  · rw [value_zeros_append, value_toDigits]

theorem digits?_toDigits (n : Nat) : digits? (Nat.toDigits 10 n) = some n :=
  digits?_zeros_toDigits 0 n

theorem groupedDigits?_toDigits (n : Nat) : groupedDigits? (Nat.toDigits 10 n) = some n := by
  have plain : (Nat.toDigits 10 n).filter (· ≠ '_') = Nat.toDigits 10 n := by
    refine List.filter_eq_self.mpr fun c member => decide_eq_true ?_
    rintro rfl
    exact Nat.underscore_not_in_toDigits member
  unfold groupedDigits?
  split
  · rename_i eq
    exact absurd (eq ▸ List.mem_cons_self) Nat.underscore_not_in_toDigits
  · rw [plain, digits?_toDigits]

theorem groupedNat?_toDigits (n : Nat) : groupedNat? (Nat.toDigits 10 n) = some n := by
  unfold groupedNat?
  split
  · rename_i eq
    have digit := isDigit_of_mem_toDigits (n := n) (eq ▸ List.mem_cons_self)
    cases digit
  · exact groupedDigits?_toDigits n

theorem groupedNat?_toString (n : Nat) : groupedNat? (toString n).toList = some n := by
  rw [Nat.toString_eq_ofList_toDigits, String.toList_ofList, groupedNat?_toDigits]

theorem grouped?_toDigits (n : Nat) : grouped? (Nat.toDigits 10 n) = some (n : Int) := by
  unfold grouped?
  split
  · rename_i eq
    have digit := isDigit_of_mem_toDigits (n := n) (eq ▸ List.mem_cons_self)
    cases digit
  · rw [groupedNat?_toDigits]
    rfl

/-- The text of an integer: its digits, after a sign below zero. -/
theorem toList_toString (n : Int) :
    (toString n).toList =
      match n with
      | .ofNat n => Nat.toDigits 10 n
      | .negSucc n => '-' :: Nat.toDigits 10 (n + 1) := by
  rw [Int.toString_eq_repr]
  cases n with
  | ofNat n => rw [Int.repr, Nat.repr_eq_ofList_toDigits, String.toList_ofList]
  | negSucc n =>
      rw [Int.repr, Nat.repr_eq_ofList_toDigits, String.toList_append]
      simp only [String.toList_ofList]
      rfl

theorem grouped?_toString (n : Int) : grouped? (toString n).toList = some n := by
  rw [toList_toString]
  cases n with
  | ofNat n => exact grouped?_toDigits n
  | negSucc n =>
      dsimp only
      rw [grouped?, groupedDigits?_toDigits]
      rfl

end LinkedCommit.Decimal
