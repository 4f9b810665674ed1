import LinkedCommit.Proofs.Tree.Opening
/-!
# Which proofs are accepted

`SparseTree.verifyProof_eq_ok_true_iff`: in a tree reached by insertions the proof generated for a
key is accepted, and nothing else is.  Neither the length of the siblings nor the other leaf of
the judged proof is bounded; what is asked is that the lists hashed for the tree and for the
judged proof are separated.
-/

set_option autoImplicit false

namespace LinkedCommit

open LinkedCommit.Tree (pathBit)

namespace Proof

/-- A judged proof says where the way ends, and its other leaf stands on the way of the key. -/
def Claims (proof : Proof) (key value : Nat) (siblings : List Nat) (bottom : WayEnd) : Prop :=
  proof.siblings = siblings ∧ proof.bottom key value = bottom ∧
    ∀ leaf, proof.other = some leaf → proof.admits key leaf = true

theorem admits_iff (proof : Proof) (key : Nat) (leaf : OtherLeaf) :
    proof.admits key leaf = true ↔
      proof.existence = false ∧ leaf.key ≠ key ∧
        ∀ i, i < proof.siblings.length → pathBit leaf.key i = pathBit key i := by
  simp [admits, and_assoc]

/-- The proof of a way is the one proof that claims it. -/
theorem claims_iff (proof : Proof) (key value : Nat) (siblings : List Nat) (bottom : WayEnd)
    (onWay : ∀ p, bottom = some p → ∀ i, i < siblings.length → pathBit p.1 i = pathBit key i) :
    proof.Claims key value siblings bottom ↔
      proof = (ofWay key siblings bottom).1 ∧
        (proof.existence = true → (ofWay key siblings bottom).2 = some value) := by
  obtain ⟨existence, hashes, other⟩ := proof
  simp only [Claims, admits_iff]
  constructor
  · rintro ⟨rfl, rfl, admitted⟩
    cases existence with
    | true =>
        cases other with
        | none => simp [bottom, ofWay]
        | some leaf => cases (admitted leaf rfl).1
    | false =>
        cases other with
        | none => simp [bottom, ofWay]
        | some leaf => simp [bottom, ofWay, (admitted leaf rfl).2.1]
  · rintro ⟨same, found⟩
    cases bottom with
    | none =>
        cases same
        simp [Proof.bottom]
    | some p =>
        obtain ⟨k, v⟩ := p
        by_cases own : k = key
        · subst own
          simp only [ofWay, if_true] at same found
          cases same
          cases found rfl
          simp [Proof.bottom]
        · simp only [ofWay, if_neg own] at same
          cases same
          refine ⟨rfl, rfl, ?_⟩
          rintro leaf isLeaf
          cases isLeaf
          exact ⟨rfl, own, onWay (k, v) rfl⟩

end Proof

theorem verifyProof_iff (hasher : Hasher) (root : Nat) (proof : Proof) (key value : Nat) :
    verifyProof hasher root proof key value = .ok true ↔
      (∀ leaf, proof.other = some leaf → proof.admits key leaf = true) ∧
        Opening.root hasher key (proof.bottom key value) 0 proof.siblings = .ok root := by
  have compared : ((rootFromProof hasher proof key value).map fun implied =>
      decide (implied = root)) = .ok true ↔
        Opening.root hasher key (proof.bottom key value) 0 proof.siblings = .ok root := by
    rw [rootFromProof_eq]
    cases Opening.root hasher key (proof.bottom key value) 0 proof.siblings <;> simp [Except.map]
  rw [verifyProof, ← compared]
  cases found : proof.other with
  | none => simp
  | some leaf =>
      cases admitted : proof.admits key leaf <;> simp [admitted]

namespace SparseTree

theorem Represents.ofWay_eq {t : SparseTree} {T : Trie} (represents : t.Represents T)
    {stored : List (Nat × Nat)} (perm : T.pairs.Perm stored) (key : Nat) (siblings : List Nat) :
    (Proof.ofWay key siblings (T.endOf key 0)).2 = stored.lookup key ∧
      (Proof.ofWay key siblings (T.endOf key 0)).1.existence = (stored.lookup key).isSome := by
  have nodup := represents.keys_nodup perm
  have found : (Proof.ofWay key siblings (T.endOf key 0)).2 = stored.lookup key := by
    ext value
    rw [lookup_eq_some_iff_mem nodup, ← perm.mem_iff, ← represents.placed.endOf_eq_some_iff]
    cases T.endOf key 0 with
    | none => simp [Proof.ofWay]
    | some p =>
        by_cases own : p.1 = key <;> simp [Proof.ofWay, own, Prod.ext_iff]
  refine ⟨found, ?_⟩
  rw [← found]
  cases T.endOf key 0 with
  | none => rfl
  | some p =>
      by_cases own : p.1 = key <;> simp [Proof.ofWay, own]

/-- The generated proof is accepted, and no other is as long as the lists hashed for it are told
apart from those hashed for the tree. -/
theorem Represents.verifyProof_iff {t : SparseTree} {T : Trie} (represents : t.Represents T)
    (positive : 1 ≤ t.maxLevels) {stored : List (Nat × Nat)} (perm : T.pairs.Perm stored)
    (key : Nat) (separates : t.hasher.Separates t.nodes.inputs) :
    ∃ generated, t.generateProof key = .ok (generated, stored.lookup key) ∧
      generated.existence = (stored.lookup key).isSome ∧
      (∀ value, (generated.existence = true → stored.lookup key = some value) →
        verifyProof t.hasher t.root generated key value = .ok true) ∧
      ∀ (proof : Proof) (value : Nat),
        t.hasher.Separates (t.nodes.inputs ++ proof.inputs t.hasher key value) →
        (verifyProof t.hasher t.root proof key value = .ok true ↔
          proof = generated ∧ (proof.existence = true → stored.lookup key = some value)) := by
  have high := represents.height_le
  obtain ⟨siblings, generated, implied, subset, onWay⟩ := proofBelow_eq t key represents.hashed
    separates t.maxLevels 0 t.root T represents.held represents.placed (by omega)
  obtain ⟨found, existence⟩ := represents.ofWay_eq perm key siblings
  have claims := fun (proof : Proof) (value : Nat) => proof.claims_iff key value siblings
    (T.endOf key 0) fun p isEnd i below => onWay p isEnd i (Nat.zero_le i) (by omega)
  rw [found] at claims
  have accepts : ∀ (proof : Proof) (value : Nat),
      proof.Claims key value siblings (T.endOf key 0) →
        verifyProof t.hasher t.root proof key value = .ok true := by
    rintro proof value ⟨sameSiblings, sameBottom, admitted⟩
    rw [LinkedCommit.verifyProof_iff, sameSiblings, sameBottom]
    exact ⟨admitted, implied⟩
  refine ⟨(Proof.ofWay key siblings (T.endOf key 0)).1, ?_, existence, ?_, ?_⟩
  · rw [generateProof, generated, ← found]
  · intro value told
    exact accepts _ value ((claims _ value).mpr ⟨rfl, told⟩)
  · intro proof value separatesBoth
    rw [← claims]
    refine ⟨fun accepted => ?_, accepts proof value⟩
    obtain ⟨admitted, implied'⟩ := (LinkedCommit.verifyProof_iff ..).mp accepted
    have lists := separatesBoth.mono (List.append_subset.mpr
      ⟨List.subset_append_right _ _, List.subset_append_of_subset_left _ subset⟩)
    obtain ⟨sameSiblings, sameBottom⟩ := Opening.root_injective lists implied' implied
    exact ⟨sameSiblings, sameBottom, admitted⟩

/-- In a tree reached by insertions the proof generated for a key tells whether the key is there
and its value.  It is accepted, and no other proof is. -/
theorem verifyProof_eq_ok_true_iff (hasher : Hasher) {levels : Nat} (positive : 1 ≤ levels)
    (pairs : List (Nat × Nat)) (key : Nat)
    (separates : hasher.Separates ((empty hasher levels).insertAll pairs).nodes.inputs) :
    let t := (empty hasher levels).insertAll pairs
    let stored := (empty hasher levels).accepted pairs
    ∃ generated, t.generateProof key = .ok (generated, stored.lookup key) ∧
      generated.existence = (stored.lookup key).isSome ∧
      (∀ value, (generated.existence = true → stored.lookup key = some value) →
        verifyProof hasher t.root generated key value = .ok true) ∧
      ∀ (proof : Proof) (value : Nat),
        hasher.Separates (t.nodes.inputs ++ proof.inputs hasher key value) →
        (verifyProof hasher t.root proof key value = .ok true ↔
          proof = generated ∧ (proof.existence = true → stored.lookup key = some value)) := by
  intro t stored
  obtain ⟨T, represents, perm⟩ := represents_insertAll hasher levels pairs separates
  have result := represents.verifyProof_iff (by simpa using positive) perm key
    (by simpa using separates)
  simpa only [insertAll_hasher, empty_hasher] using result

/-- In a tree with keys 1, 2 and 5 the proof of 5 is accepted, and its denial by the leaf of 1, which
shares two levels of its way, is not. -/
theorem verifyProof_of_three_leaves :
    let hasher := foldHasher 1000000007
    let pairs := [(1, 10), (2, 20), (5, 50), (5, 51)]
    let t := (empty hasher 4).insertAll pairs
    let denial : Proof := ⟨false, [7, 0], some ⟨1, 10⟩⟩
    1 ≤ 4 ∧ hasher.Separates t.nodes.inputs ∧
      hasher.Separates (t.nodes.inputs ++ denial.inputs hasher 5 0) ∧
      ∃ generated, t.generateProof 5 = .ok (generated, some 50) ∧
        verifyProof hasher t.root generated 5 50 = .ok true ∧
        verifyProof hasher t.root denial 5 0 ≠ .ok true := by
  intro hasher pairs t denial
  have apart : hasher.Separates t.nodes.inputs := by decide +kernel
  have apartBoth : hasher.Separates (t.nodes.inputs ++ denial.inputs hasher 5 0) := by
    decide +kernel
  obtain ⟨generated, found, existence, accepted, others⟩ :=
    verifyProof_eq_ok_true_iff hasher (by decide : 1 ≤ 4) pairs 5 apart
  have value : ((empty hasher 4).accepted pairs).lookup 5 = some 50 := by decide +kernel
  rw [value] at found existence accepted others
  refine ⟨by decide, apart, apartBoth, generated, found, accepted 50 fun _ => rfl, ?_⟩
  rw [Ne, others denial 0 apartBoth]
  rintro ⟨rfl, -⟩
  cases existence

end SparseTree

end LinkedCommit
