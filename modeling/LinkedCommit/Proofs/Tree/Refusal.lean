import LinkedCommit.Proofs.Hash.Field
import LinkedCommit.Proofs.Tree.Closed
/-!
# A refused insertion leaves nothing behind

A change `Settles` if it fails before anything is written, or answers with a field element.  Over a
hasher that has digests for exactly the lists of field elements, adding a leaf to a closed store
settles (`addLeaf_settles`): once the first node is written, all that is left to hash are digests
and what stood in the store.  So an insertion that is refused leaves the whole tree as it was, its
log included (`refused_insert_unchanged`).
-/

set_option autoImplicit false

namespace LinkedCommit

open SparseTree (nodeHash middleOf)

section FieldNodes

variable {hasher : Hasher}

/-- Where a node has a digest, its numbers and the digest are field elements. -/
theorem Hasher.Accepts.digest_lt (accepts : hasher.Accepts) (refuses : hasher.Refuses) {node : Node}
    {d : Nat} (digest : hasher.hash node.inputs = .ok d) : d < hasher.prime := by
  have short : node.inputs.length ≤ maxHashInputs := by
    cases node <;> simp [Node.inputs, maxHashInputs]
  have nonempty : node.inputs ≠ [] := by
    cases node <;> simp [Node.inputs]
  obtain ⟨d', digest', lt⟩ := accepts node.inputs nonempty short (refuses _ _ digest)
  rw [digest] at digest'
  cases digest'
  exact lt

theorem Hasher.Accepts.exists_middle (accepts : hasher.Accepts) (bit : Bool) {child other : Nat}
    (childLt : child < hasher.prime) (otherLt : other < hasher.prime) :
    ∃ d, nodeHash hasher (middleOf bit child other) = .ok d ∧ d < hasher.prime := by
  have inField : ∀ x ∈ (middleOf bit child other).inputs, x < hasher.prime := by
    cases bit <;> simp [middleOf, Node.inputs, childLt, otherLt]
  obtain ⟨d, digest, lt⟩ := accepts (middleOf bit child other).inputs
    (by cases bit <;> simp [middleOf, Node.inputs])
    (by cases bit <;> simp [middleOf, Node.inputs, maxHashInputs]) inField
  exact ⟨d, (SparseTree.nodeHash_eq_ok_iff ..).mpr digest, lt⟩

/-- What a closed store knows is zero or a digest. -/
theorem NodeStore.Closed.lt_of_knows {nodes : NodeStore} (closed : nodes.Closed hasher)
    (accepts : hasher.Accepts) (refuses : hasher.Refuses) (positive : 0 < hasher.prime) {hash : Nat}
    (known : nodes.Knows hash) : hash < hasher.prime := by
  rcases known with rfl | ⟨node, member⟩
  · exact positive
  · exact accepts.digest_lt refuses (closed.hashed _ member)

end FieldNodes

namespace SparseTree

/-- A change of a log fails and writes nothing, or answers with a field element. -/
def Settles (hasher : Hasher) (nodes : NodeStore) (change : Change Nat) : Prop :=
  (∃ e, change.run.run nodes = (.error e, nodes)) ∨
    ∃ d written, change.run.run nodes = (.ok d, written) ∧ d < hasher.prime

section Changes

variable {hasher : Hasher} {nodes : NodeStore}

theorem settles_throw (e : TreeError) : Settles hasher nodes (throw e) := Or.inl ⟨e, rfl⟩

theorem settles_congr {change change' : Change Nat}
    (same : change.run.run nodes = change'.run.run nodes)
    (settles : Settles hasher nodes change') : Settles hasher nodes change := by
  rw [Settles, same]
  exact settles

theorem settles_store (accepts : hasher.Accepts) (refuses : hasher.Refuses) (node : Node) :
    Settles hasher nodes (store hasher node) := by
  rw [Settles, store_run]
  cases digest : nodeHash hasher node with
  | error e => exact Or.inl ⟨e, rfl⟩
  | ok d =>
      exact Or.inr ⟨d, (d, node) :: nodes, rfl,
        accepts.digest_lt refuses ((nodeHash_eq_ok_iff ..).mp digest)⟩

theorem settles_middleOf (accepts : hasher.Accepts) {change : Change Nat} {other : Nat} (bit : Bool)
    (settles : Settles hasher nodes change) (otherLt : other < hasher.prime) :
    Settles hasher nodes (do let below ← change; store hasher (middleOf bit below other)) := by
  rcases settles with ⟨e, ran⟩ | ⟨below, written, ran, belowLt⟩
  · refine Or.inl ⟨e, ?_⟩
    rw [run_bind, ran]
  · obtain ⟨d, digest, lt⟩ := accepts.exists_middle bit belowLt otherLt
    refine Or.inr ⟨d, (d, middleOf bit below other) :: written, ?_, lt⟩
    rw [run_bind, ran]
    simp only [store_run, digest]

end Changes

theorem addLeaf_settles {t : SparseTree} {nodes : NodeStore} (accepts : t.hasher.Accepts)
    (refuses : t.hasher.Refuses) (positive : 0 < t.hasher.prime) (closed : nodes.Closed t.hasher)
    (key value remaining level : Nat) {hash : Nat} (known : nodes.Knows hash) :
    Settles t.hasher nodes (addLeaf t key value remaining level hash) := by
  have kept : KeptByInsertion t key value nodes (Settles t.hasher nodes) :=
    { congr := settles_congr
      failure := fun _ => settles_throw _
      leaf := settles_store accepts refuses _
      above := fun bit settles knownOther => settles_middleOf accepts bit settles
        (closed.lt_of_knows accepts refuses positive knownOther) }
  exact kept.addLeaf closed remaining level hash known

theorem Closed.insert_error {t : SparseTree} (closed : t.Closed) (accepts : t.hasher.Accepts)
    (refuses : t.hasher.Refuses) {key value : Nat} {reason : TreeError}
    (refused : (t.insert key value).1 = .error reason) : (t.insert key value).2 = t := by
  cases checked : checkPair t.hasher.prime key value with
  | error e => simp only [SparseTree.insert, checked]
  | ok _ =>
      have positive : 0 < t.hasher.prime := by
        rw [checkPair_eq] at checked
        split at checked
        · cases checked
        · omega
      rcases addLeaf_settles accepts refuses positive closed.nodes key value t.maxLevels 0
          closed.root with ⟨e, ran⟩ | ⟨root, written, ran, -⟩
      · simp only [SparseTree.insert, checked, ran]
      · simp only [SparseTree.insert, checked, ran] at refused
        cases refused

/-- In a tree over a hasher of the library, reached by any calls, an insertion that is refused leaves
the root, the number of leaves and all that was ever written as they were. -/
theorem refused_insert_unchanged {hasher : Hasher} (bundled : hasher.Bundled) (levels : Nat)
    (calls : List TreeCall) (key value : Nat) (reason : TreeError) :
    let t := TreeCall.after call (empty hasher levels) calls
    (t.insert key value).1 = .error reason → (t.insert key value).2 = t := by
  intro t refused
  have closed : t.Closed := (closed_empty hasher levels).after calls
  exact closed.insert_error (by simpa [t] using bundled.accepts) (by simpa [t] using bundled.refuses)
    refused

/-- Modulo 3 the middle node above two leaves has the digest of one of them and takes its place; the
way of the key 1 turns back to it and ends at the other leaf, too low for one more. -/
theorem refused_insert_among_collisions :
    let t := TreeCall.after call (empty (sha256Hasher 3) 4) [.insert 1 0, .insert 2 1]
    (sha256Hasher 3).Bundled ∧ t.nodes = [(2, .middle 1 2), (1, .leaf 2 1), (2, .leaf 1 0)] ∧
      (t.insert 1 1).1 = .error (.reachedMaxLevel 4) ∧ (t.insert 1 1).2 = t := by
  intro t
  have bundled : (sha256Hasher 3).Bundled := .sha256 (by decide)
  obtain ⟨nodes, refused⟩ : t.nodes = [(2, .middle 1 2), (1, .leaf 2 1), (2, .leaf 1 0)] ∧
      (t.insert 1 1).1 = .error (.reachedMaxLevel 4) := by decide +kernel
  exact ⟨bundled, nodes, refused,
    refused_insert_unchanged bundled 4 [.insert 1 0, .insert 2 1] 1 1 _ refused⟩

end SparseTree

end LinkedCommit
