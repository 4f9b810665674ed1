import LinkedCommit.Hash.Poseidon
import LinkedCommit.Hash.Sha256
import LinkedCommit.Proofs.Hash.Separation
/-!
# The hashers of the library

Poseidon and SHA-256 reduced modulo a number both check their inputs first and compute a digest in
the field then.  So the lists that have a digest are those of field elements (`Hasher.Bundled.accepts`,
`Hasher.Bundled.refuses`).
-/

set_option autoImplicit false

namespace LinkedCommit

/-- Only lists of field elements have a digest. -/
def Hasher.Refuses (hasher : Hasher) : Prop :=
  ∀ inputs d, hasher.hash inputs = .ok d → ∀ x ∈ inputs, x < hasher.prime

theorem lt_of_checkInField {prime x : Nat} (passed : checkInField prime x = .ok ()) : x < prime := by
  rw [checkInField] at passed
  split at passed
  · cases passed
  · rename_i inField
    exact Nat.lt_of_not_le inField

theorem checkInputs_eq_ok_iff {prime : Nat} {inputs : List Nat} :
    checkInputs prime inputs = .ok () ↔
      inputs ≠ [] ∧ inputs.length ≤ maxHashInputs ∧ ∀ x ∈ inputs, x < prime := by
  refine ⟨fun passed => ?_, fun ⟨nonempty, short, inField⟩ => checkInputs_eq nonempty short inField⟩
  rw [checkInputs] at passed
  split at passed
  · cases passed
  · rename_i counted
    simp only [Bool.or_eq_true, List.isEmpty_iff, decide_eq_true_eq, not_or, Nat.not_lt] at counted
    exact ⟨counted.1, counted.2, fun x member => lt_of_checkInField (Except.forM_eq_ok passed x member)⟩

/-- A hasher that computes a field element once it has checked its inputs. -/
structure Hasher.Checks (hasher : Hasher) (digest : List Nat → Nat) : Prop where
  hash_eq : ∀ inputs, hasher.hash inputs = do
    checkInputs hasher.prime inputs
    return digest inputs
  digest_lt : ∀ inputs, inputs ≠ [] → (∀ x ∈ inputs, x < hasher.prime) →
    digest inputs < hasher.prime

theorem Hasher.Checks.accepts {hasher : Hasher} {digest : List Nat → Nat}
    (checks : hasher.Checks digest) : hasher.Accepts := by
  intro inputs nonempty short inField
  refine ⟨digest inputs, ?_, checks.digest_lt inputs nonempty inField⟩
  rw [checks.hash_eq, checkInputs_eq nonempty short inField]
  rfl

theorem Hasher.Checks.refuses {hasher : Hasher} {digest : List Nat → Nat}
    (checks : hasher.Checks digest) : hasher.Refuses := by
  intro inputs d hashed
  rw [checks.hash_eq, Except.bind_eq_ok_iff] at hashed
  obtain ⟨⟨⟩, passed, -⟩ := hashed
  exact (checkInputs_eq_ok_iff.mp passed).2.2

/-! ## Poseidon -/

namespace Poseidon

theorem bn254Prime_pos : 0 < bn254Prime := by decide

theorem round_lt (matrix : List (List Nat)) (full : Bool) (constants state : List Nat) :
    ∀ x ∈ round matrix full constants state, x < bn254Prime := by
  intro x member
  obtain ⟨row, -, rfl⟩ := List.mem_map.mp member
  exact Nat.mod_lt _ bn254Prime_pos

theorem rounds_lt (matrix : List (List Nat)) (total : Nat) (constants : List (List Nat)) :
    ∀ (i : Nat) (state : List Nat), (∀ x ∈ state, x < bn254Prime) →
      ∀ x ∈ rounds matrix total i constants state, x < bn254Prime := by
  induction constants with
  | nil => exact fun _ _ inField => inField
  | cons row rest ih => exact fun i state _ => ih (i + 1) _ (round_lt matrix _ row state)

theorem digest_lt {inputs : List Nat} (inField : ∀ x ∈ inputs, x < bn254Prime) :
    digest inputs < bn254Prime := by
  have headD_lt : ∀ state : List Nat, (∀ x ∈ state, x < bn254Prime) →
      state.headD 0 < bn254Prime := by
    intro state inField
    cases state with
    | nil => exact bn254Prime_pos
    | cons x rest => exact inField x List.mem_cons_self
  rw [digest]
  split
  · exact headD_lt _ (rounds_lt _ _ _ 0 _ (List.forall_mem_cons.mpr ⟨bn254Prime_pos, inField⟩))
  · exact bn254Prime_pos

end Poseidon

theorem poseidonHasher_checks : poseidonHasher.Checks Poseidon.digest where
  hash_eq := fun _ => rfl
  digest_lt := fun _ _ inField => Poseidon.digest_lt inField

/-! ## SHA-256 -/

/-- A modulus of zero has no field elements, and so no digests. -/
theorem sha256Hasher_checks (modulus : Nat) :
    (sha256Hasher modulus).Checks fun inputs => reducedDigest modulus (wordMessage inputs) where
  hash_eq := fun _ => rfl
  digest_lt := by
    intro inputs nonempty inField
    obtain ⟨x, rest, rfl⟩ := List.exists_cons_of_ne_nil nonempty
    exact Nat.mod_lt _ (Nat.zero_lt_of_lt (inField x List.mem_cons_self))

/-! ## Both -/

inductive Hasher.Bundled : Hasher → Prop
  | poseidon : Bundled poseidonHasher
  | sha256 {modulus : Nat} (positive : 1 ≤ modulus) : Bundled (sha256Hasher modulus)

theorem Hasher.Bundled.accepts {hasher : Hasher} (bundled : hasher.Bundled) : hasher.Accepts := by
  cases bundled with
  | poseidon => exact poseidonHasher_checks.accepts
  | sha256 _ => exact (sha256Hasher_checks _).accepts

theorem Hasher.Bundled.refuses {hasher : Hasher} (bundled : hasher.Bundled) : hasher.Refuses := by
  cases bundled with
  | poseidon => exact poseidonHasher_checks.refuses
  | sha256 _ => exact (sha256Hasher_checks _).refuses

end LinkedCommit
