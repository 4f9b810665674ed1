import LinkedCommit.Proofs.Result
import LinkedCommit.Tree.Sparse
/-!
# What is asked of a hash function

Nothing is known of a hasher but its answers.  `Hasher.Separates` says of the lists that a
computation hashes that different ones have different digests and that none has the digest
zero; it is asked of finitely many lists at a time, never of all.  `Hasher.Accepts` says that
lists of field elements have digests, and that these are field elements.
-/

set_option autoImplicit false

namespace LinkedCommit

/-- Different lists among `inputs` have different digests, and none has the digest zero. -/
structure Hasher.Separates (hasher : Hasher) (inputs : List (List Nat)) : Prop where
  eq_of_digest : ∀ a ∈ inputs, ∀ b ∈ inputs, ∀ d,
    hasher.hash a = .ok d → hasher.hash b = .ok d → a = b
  digest_ne_zero : ∀ a ∈ inputs, hasher.hash a ≠ .ok 0

/-- Every list of field elements that is not too long has a field element as its digest. -/
def Hasher.Accepts (hasher : Hasher) : Prop :=
  ∀ inputs : List Nat, inputs ≠ [] → inputs.length ≤ maxHashInputs →
    (∀ x ∈ inputs, x < hasher.prime) → ∃ d, hasher.hash inputs = .ok d ∧ d < hasher.prime

theorem Hasher.separates_iff (hasher : Hasher) (inputs : List (List Nat)) :
    hasher.Separates inputs ↔
      ∀ a ∈ inputs, (hasher.hash a).toOption ≠ some 0 ∧
        ∀ b ∈ inputs, (hasher.hash a).toOption = none ∨
          (hasher.hash a).toOption ≠ (hasher.hash b).toOption ∨ a = b := by
  have toOption_eq : ∀ (a : List Nat) (d : Nat),
      (hasher.hash a).toOption = some d ↔ hasher.hash a = .ok d := by
    intro a d
    cases hasher.hash a <;> simp [Except.toOption]
  constructor
  · intro separates a inA
    refine ⟨fun zero => separates.digest_ne_zero a inA ((toOption_eq a 0).mp zero), fun b inB => ?_⟩
    cases digest : (hasher.hash a).toOption with
    | none => exact Or.inl rfl
    | some d =>
        by_cases same : some d = (hasher.hash b).toOption
        · exact Or.inr (Or.inr (separates.eq_of_digest a inA b inB d ((toOption_eq a d).mp digest)
            ((toOption_eq b d).mp same.symm)))
        · exact Or.inr (Or.inl same)
  · intro apart
    refine ⟨fun a inA b inB d digestA digestB => ?_, fun a inA zero => ?_⟩
    · have digestA := (toOption_eq a d).mpr digestA
      have digestB := (toOption_eq b d).mpr digestB
      rcases (apart a inA).2 b inB with failed | differ | same
      · rw [digestA] at failed
        cases failed
      · exact absurd (digestA.trans digestB.symm) differ
      · exact same
    · exact (apart a inA).1 ((toOption_eq a 0).mpr zero)

instance (hasher : Hasher) (inputs : List (List Nat)) : Decidable (hasher.Separates inputs) :=
  decidable_of_iff _ (hasher.separates_iff inputs).symm

theorem Hasher.Separates.mono {hasher : Hasher} {few many : List (List Nat)}
    (separates : hasher.Separates many) (subset : few ⊆ many) : hasher.Separates few :=
  ⟨fun a inA b inB => separates.eq_of_digest a (subset inA) b (subset inB),
    fun a inA => separates.digest_ne_zero a (subset inA)⟩

/-! ## A hasher to compute with -/

/-- The digest of numbers folded into one, the first of which has a position. -/
def foldDigest (prime : Nat) : Nat → Nat → List Nat → Nat
  | _, digest, [] => digest
  | position, digest, x :: rest =>
    foldDigest prime (position + 1) ((digest * 1000003 + x + position + 7) % prime) rest

/-- A hasher that folds its inputs; it is easy to compute and hides nothing. -/
def foldHasher (prime : Nat) : Hasher where
  prime := prime
  hash inputs := do
    checkInputs prime inputs
    return foldDigest prime 0 inputs.length inputs
  hashBytes bytes :=
    .ok (foldDigest prime 0 1 [bytes.foldl (fun digest b => (digest * 257 + b.toNat) % prime) 17])

theorem foldDigest_lt {prime : Nat} (positive : 0 < prime) :
    ∀ (inputs : List Nat) (position digest : Nat), inputs ≠ [] ∨ digest < prime →
      foldDigest prime position digest inputs < prime := by
  intro inputs
  induction inputs with
  | nil =>
      intro position digest start
      exact start.resolve_left fun nonempty => nonempty rfl
  | cons x rest ih =>
      intro position digest _
      exact ih _ _ (Or.inr (Nat.mod_lt _ positive))

theorem forM_checkInField_eq {prime : Nat} {inputs : List Nat} (inField : ∀ x ∈ inputs, x < prime) :
    inputs.forM (checkInField prime) = .ok () := by
  induction inputs with
  | nil => rfl
  | cons x rest ih =>
      have head : checkInField prime x = .ok () :=
        if_neg (Nat.not_le.mpr (inField x List.mem_cons_self))
      show (checkInField prime x >>= fun _ => rest.forM (checkInField prime)) = .ok ()
      rw [head]
      exact ih fun y inRest => inField y (List.mem_cons_of_mem _ inRest)

theorem checkInputs_eq {prime : Nat} {inputs : List Nat} (nonempty : inputs ≠ [])
    (short : inputs.length ≤ maxHashInputs) (inField : ∀ x ∈ inputs, x < prime) :
    checkInputs prime inputs = .ok () := by
  have accepted : (inputs.isEmpty || decide (maxHashInputs < inputs.length)) = false := by
    simp [nonempty, Nat.not_lt.mpr short]
  rw [checkInputs, accepted]
  exact forM_checkInField_eq inField

theorem foldHasher_accepts {prime : Nat} (positive : 0 < prime) : (foldHasher prime).Accepts := by
  intro inputs nonempty short inField
  refine ⟨foldDigest prime 0 inputs.length inputs, ?_, foldDigest_lt positive _ _ _ (Or.inl nonempty)⟩
  have checked : checkInputs prime inputs = .ok () := checkInputs_eq nonempty short inField
  show (do checkInputs prime inputs; return foldDigest prime 0 inputs.length inputs) = _
  rw [checked]
  rfl

/-! ## Hashing nodes -/

namespace SparseTree

theorem nodeHash_eq (hasher : Hasher) (node : Node) :
    nodeHash hasher node = (hasher.hash node.inputs).mapError .hash := by
  cases node <;> rfl

theorem nodeHash_eq_ok_iff (hasher : Hasher) (node : Node) (d : Nat) :
    nodeHash hasher node = .ok d ↔ hasher.hash node.inputs = .ok d := by
  rw [nodeHash_eq, Except.mapError_eq_ok_iff]

end SparseTree

theorem Node.inputs_injective {a b : Node} (same : a.inputs = b.inputs) : a = b := by
  cases a <;> cases b <;> simp_all [Node.inputs]

end LinkedCommit
