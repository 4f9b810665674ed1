import Mathlib.Data.Nat.Digits.Lemmas
import LinkedCommit.Hash.Hasher
/-!
# Numbers and their bytes

Bytes denote a number below `256` to the power of how many they are, and as many bytes that denote
the same number are the same (`natOfBytes_injective`).  Of a number that is larger, a fixed count of
bytes keeps the remainder only (`natOfBytes_bytesOfNat`), so that two numbers have the same last
bytes just if their remainders are equal (`bytesOfNat_eq_iff`).
-/

set_option autoImplicit false

namespace LinkedCommit

/-! ## Numbers from bytes -/

theorem natOfBytes_append (bytes : List UInt8) (b : UInt8) :
    natOfBytes (bytes ++ [b]) = 256 * natOfBytes bytes + b.toNat := by
  rw [natOfBytes, List.foldl_append]
  rfl

theorem natOfBytes_eq_ofDigits (bytes : List UInt8) :
    natOfBytes bytes = Nat.ofDigits 256 (bytes.reverse.map UInt8.toNat) := by
  induction bytes using List.reverseRecOn with
  | nil => rfl
  | append_singleton bytes b ih =>
      rw [natOfBytes_append, ih, List.reverse_append, List.reverse_singleton, List.singleton_append,
        List.map_cons, Nat.ofDigits_cons, Nat.add_comm]

theorem toNat_lt_of_mem {bytes : List UInt8} {d : Nat} (member : d ∈ bytes.map UInt8.toNat) :
    d < 256 := by
  obtain ⟨b, -, rfl⟩ := List.mem_map.mp member
  exact b.toNat_lt

theorem natOfBytes_lt (bytes : List UInt8) : natOfBytes bytes < 256 ^ bytes.length := by
  have bound := Nat.ofDigits_lt_base_pow_length (by decide)
    fun d (member : d ∈ bytes.reverse.map UInt8.toNat) => toNat_lt_of_mem member
  rwa [← natOfBytes_eq_ofDigits, List.length_map, List.length_reverse] at bound

theorem natOfBytes_injective {a b : List UInt8} (length : a.length = b.length)
    (same : natOfBytes a = natOfBytes b) : a = b := by
  rw [natOfBytes_eq_ofDigits, natOfBytes_eq_ofDigits] at same
  have reversed := Nat.ofDigits_inj_of_len_eq (by decide) (by simpa using length)
    (fun _ => toNat_lt_of_mem) (fun _ => toNat_lt_of_mem) same
  exact List.reverse_injective (List.map_injective_iff.mpr (fun _ _ => UInt8.toNat_inj.mp) reversed)

/-! ## Bytes of a number -/

theorem length_bytesOfNat (count n : Nat) : (bytesOfNat count n).length = count := by
  induction count generalizing n with
  | zero => rfl
  | succ count ih => rw [bytesOfNat, List.length_append, ih, List.length_singleton]

theorem natOfBytes_bytesOfNat (count n : Nat) :
    natOfBytes (bytesOfNat count n) = n % 256 ^ count := by
  induction count generalizing n with
  | zero => exact (Nat.mod_one n).symm
  | succ count ih =>
      have last : (UInt8.ofNat n).toNat = n % 256 := UInt8.toNat_ofNat'
      rw [bytesOfNat, natOfBytes_append, ih, last, Nat.pow_succ', Nat.mod_mul, Nat.add_comm]

theorem bytesOfNat_eq_iff {count m n : Nat} :
    bytesOfNat count m = bytesOfNat count n ↔ m % 256 ^ count = n % 256 ^ count := by
  rw [← natOfBytes_bytesOfNat, ← natOfBytes_bytesOfNat]
  refine ⟨fun same => by rw [same], natOfBytes_injective ?_⟩
  rw [length_bytesOfNat, length_bytesOfNat]

end LinkedCommit
