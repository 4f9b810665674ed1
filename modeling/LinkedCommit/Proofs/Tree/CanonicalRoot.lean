import Mathlib.Algebra.Order.BigOperators.Group.List
import Mathlib.Algebra.Order.Ring.Nat
import LinkedCommit.Proofs.Tree.Run
/-!
# The root of a finite map

`mapRoot` computes a root from the pairs of a finite map alone: zero for none, the hash of a leaf
for one, and otherwise the hash of the two roots of the pairs parted by a bit of their keys.
`SparseTree.root_canonical` says that this is the root of every tree that stores the pairs,
whatever the order and the number of the insertions and of the levels, and that two maps with one
root are the same.
-/

set_option autoImplicit false

namespace LinkedCommit

open LinkedCommit.Tree (pathBit)

/-- Parting pairs by a bit leaves less of their keys. -/
theorem sum_shift_filter_lt {level : Nat} {pairs : List (Nat × Nat)} (keep : Nat × Nat → Bool)
    (parts : ∃ p ∈ pairs, p.1 >>> level ≠ 0) :
    ((pairs.filter keep).map fun p => p.1 >>> (level + 1)).sum <
      (pairs.map fun p => p.1 >>> level).sum := by
  have shift : ∀ key : Nat, key >>> (level + 1) = key >>> level / 2 := fun key =>
    Nat.shiftRight_succ key level
  have atMost : ((pairs.filter keep).map fun p => p.1 >>> (level + 1)).sum ≤
      (pairs.map fun p => p.1 >>> (level + 1)).sum :=
    (List.filter_sublist.map _).sum_le_sum fun _ _ => Nat.zero_le _
  have less : (pairs.map fun p => p.1 >>> (level + 1)).sum <
      (pairs.map fun p => p.1 >>> level).sum := by
    refine List.sum_lt_sum _ _ (fun p _ => ?_) ?_
    · rw [shift]
      exact Nat.div_le_self _ 2
    · obtain ⟨p, member, nonzero⟩ := parts
      refine ⟨p, member, ?_⟩
      rw [shift]
      exact Nat.div_lt_self (Nat.pos_of_ne_zero nonzero) (by decide)
  exact Nat.lt_of_le_of_lt atMost less

/-- The root at a level of the pairs of a finite map.  Different keys part at some level; equal ones
never do. -/
def mapRoot (hasher : Hasher) (level : Nat) (pairs : List (Nat × Nat)) : Except TreeError Nat :=
  match pairs with
  | [] => .ok 0
  | [(key, value)] => Tree.leafHash hasher key value
  | first :: second :: rest =>
    if parts : ∃ p ∈ first :: second :: rest, p.1 >>> level ≠ 0 then do
      let left ← mapRoot hasher (level + 1)
        ((first :: second :: rest).filter fun p => !pathBit p.1 level)
      let right ← mapRoot hasher (level + 1)
        ((first :: second :: rest).filter fun p => pathBit p.1 level)
      Tree.middleHash hasher left right
    else .error .entryIndexAlreadyExists
termination_by (pairs.map fun p => p.1 >>> level).sum
decreasing_by
  · exact sum_shift_filter_lt _ parts
  · exact sum_shift_filter_lt _ parts

theorem mapRoot_of_two (hasher : Hasher) {level : Nat} {pairs : List (Nat × Nat)}
    (two : 2 ≤ pairs.length) (parts : ∃ p ∈ pairs, p.1 >>> level ≠ 0) :
    mapRoot hasher level pairs = (do
      let left ← mapRoot hasher (level + 1) (pairs.filter fun p => !pathBit p.1 level)
      let right ← mapRoot hasher (level + 1) (pairs.filter fun p => pathBit p.1 level)
      Tree.middleHash hasher left right) := by
  rcases pairs with _ | ⟨first, _ | ⟨second, rest⟩⟩
  · cases two
  · simp at two
  · rw [mapRoot, dif_pos parts]

namespace Trie

/-- Keys of a placed trie share their low bits, so two of them are not both zero above. -/
theorem Placed.exists_shift_ne_zero {level : Nat} {T : Trie} (placed : T.Placed level)
    (two : 2 ≤ T.pairs.length) : ∃ p ∈ T.pairs, p.1 >>> level ≠ 0 := by
  induction T generalizing level with
  | empty => cases two
  | leaf key value => simp [pairs] at two
  | fork left right leftShift rightShift =>
      obtain ⟨-, rightBit, many, placedLeft, -⟩ := placed
      -- A key on the right has a bit set at this level.  Where there is none, at least two keys are
      -- on the left, and one of them has a bit set further down.
      cases above : right.pairs with
      | nil =>
          rw [above, List.append_nil] at many
          obtain ⟨p, inLeft, nonzero⟩ := leftShift placedLeft many
          refine ⟨p, List.mem_append_left _ inLeft, fun zero => nonzero ?_⟩
          rw [Nat.shiftRight_succ, zero]
      | cons p rest =>
          have inRight : p ∈ right.pairs := by
            rw [above]
            exact List.mem_cons_self
          refine ⟨p, List.mem_append_right _ inRight, fun zero => ?_⟩
          have bit := rightBit p inRight
          rw [pathBit, Nat.testBit, zero] at bit
          cases bit

theorem Placed.mapRoot_eq (hasher : Hasher) {level : Nat} {T : Trie} (placed : T.Placed level)
    {pairs : List (Nat × Nat)} (perm : pairs.Perm T.pairs) :
    mapRoot hasher level pairs = T.root hasher := by
  induction T generalizing level pairs with
  | empty => rw [List.perm_nil.mp perm, mapRoot, root]
  | leaf key value =>
      rw [List.perm_singleton.mp perm, mapRoot, root, SparseTree.nodeHash]
  | fork left right leftRoot rightRoot =>
      have parts := placed.exists_shift_ne_zero placed.2.2.1
      obtain ⟨leftBit, rightBit, two, placedLeft, placedRight⟩ := placed
      have isClear : (pairs.filter fun p => !pathBit p.1 level).Perm left.pairs := by
        refine (perm.filter _).trans ?_
        rw [Trie.pairs, List.filter_append, List.filter_eq_self.mpr, List.filter_eq_nil_iff.mpr,
          List.append_nil]
        · intro p inRight
          simp [rightBit p inRight]
        · intro p inLeft
          simp [leftBit p inLeft]
      have isSet : (pairs.filter fun p => pathBit p.1 level).Perm right.pairs := by
        refine (perm.filter _).trans ?_
        rw [Trie.pairs, List.filter_append, List.filter_eq_nil_iff.mpr, List.filter_eq_self.mpr,
          List.nil_append]
        · exact rightBit
        · intro p inLeft
          simp [leftBit p inLeft]
      rw [mapRoot_of_two hasher (perm.length_eq ▸ two) (by simpa only [perm.mem_iff] using parts),
        leftRoot placedLeft isClear, rightRoot placedRight isSet]
      rfl

theorem Held.injective {hasher : Hasher} {nodes : NodeStore} (hashed : nodes.Hashed hasher)
    (separates : hasher.Separates nodes.inputs) {d : Nat} {T T' : Trie} (held : Held nodes d T)
    (held' : Held nodes d T') : T = T' := by
  have node_eq : ∀ {d node}, (d, node) ∈ nodes → SparseTree.node? nodes d = .ok (some node) :=
    fun member => hashed.node?_eq separates member
  have none_eq : SparseTree.node? nodes 0 = .ok none := rfl
  induction held generalizing T' with
  | empty =>
      cases held' with
      | empty => rfl
      | leaf member => cases none_eq.symm.trans (node_eq member)
      | fork member _ _ => cases none_eq.symm.trans (node_eq member)
  | leaf member =>
      cases held' with
      | empty => cases none_eq.symm.trans (node_eq member)
      | leaf member' =>
          cases (node_eq member).symm.trans (node_eq member')
          rfl
      | fork member' _ _ => cases (node_eq member).symm.trans (node_eq member')
  | fork member _ _ left right =>
      cases held' with
      | empty => cases none_eq.symm.trans (node_eq member)
      | leaf member' => cases (node_eq member).symm.trans (node_eq member')
      | fork member' heldLeft heldRight =>
          cases (node_eq member).symm.trans (node_eq member')
          rw [left heldLeft, right heldRight]

end Trie

namespace SparseTree

theorem Represents.root_eq_iff {t t' : SparseTree} {T T' : Trie} (represents : t.Represents T)
    (represents' : t'.Represents T') (sameHasher : t'.hasher = t.hasher)
    (separates : t.hasher.Separates (t.nodes.inputs ++ t'.nodes.inputs)) :
    t'.root = t.root ↔ T'.pairs.Perm T.pairs := by
  have hashed' := represents'.hashed
  rw [sameHasher] at hashed'
  constructor
  · intro sameRoot
    have inputs_eq : t.nodes.inputs ++ t'.nodes.inputs = NodeStore.inputs (t.nodes ++ t'.nodes) :=
      List.map_append.symm
    rw [inputs_eq] at separates
    have held := represents.held.mono (List.subset_append_left t.nodes t'.nodes)
    have held' := represents'.held.mono (List.subset_append_right t.nodes t'.nodes)
    rw [sameRoot] at held'
    rw [held.injective (represents.hashed.append hashed') separates held']
  · intro perm
    have root := represents.held.root_eq represents.hashed
    have root' := represents'.held.root_eq hashed'
    rw [← represents.placed.mapRoot_eq t.hasher perm, represents'.placed.mapRoot_eq t.hasher (.refl _),
      root'] at root
    exact Except.ok.inj root

/-- The root of a tree reached by insertions is the root of the map it stores, and it is the root of
another such tree just where that one stores the same pairs. -/
theorem root_canonical (hasher : Hasher) (levels : Nat) (pairs : List (Nat × Nat))
    (separates : hasher.Separates ((empty hasher levels).insertAll pairs).nodes.inputs) :
    let t := (empty hasher levels).insertAll pairs
    let stored := (empty hasher levels).accepted pairs
    (stored.map Prod.fst).Nodup ∧ mapRoot hasher 0 stored = .ok t.root ∧
      ∀ (levels' : Nat) (pairs' : List (Nat × Nat)),
        let t' := (empty hasher levels').insertAll pairs'
        hasher.Separates (t.nodes.inputs ++ t'.nodes.inputs) →
        (t'.root = t.root ↔ ∀ p, p ∈ (empty hasher levels').accepted pairs' ↔ p ∈ stored) := by
  intro t stored
  obtain ⟨T, represents, perm⟩ := represents_insertAll hasher levels pairs separates
  have hasherEq : t.hasher = hasher := insertAll_hasher _ _
  have nodup : (stored.map Prod.fst).Nodup := represents.keys_nodup perm
  refine ⟨nodup, ?_, ?_⟩
  · rw [represents.placed.mapRoot_eq hasher perm.symm, ← hasherEq]
    exact represents.held.root_eq represents.hashed
  · intro levels' pairs' t' separatesBoth
    obtain ⟨T', represents', perm'⟩ := represents_insertAll hasher levels' pairs'
      (separatesBoth.mono (List.subset_append_right _ _))
    have nodup' := represents'.keys_nodup perm'
    rw [represents.root_eq_iff represents' (by simp) (by simpa using separatesBoth),
      perm'.congr_left, perm.congr_right]
    exact List.perm_ext_iff_of_nodup nodup'.of_map nodup.of_map

/-- Another order, a repeated key and one level more do not change the root. -/
theorem root_canonical_of_reordered :
    let hasher := foldHasher 1000000007
    let pairs := [(1, 10), (5, 50), (2, 20)]
    let t := (empty hasher 4).insertAll pairs
    let t' := (empty hasher 5).insertAll [(2, 20), (5, 50), (5, 51), (1, 10)]
    hasher.Separates t.nodes.inputs ∧ hasher.Separates (t.nodes.inputs ++ t'.nodes.inputs) ∧
      mapRoot hasher 0 pairs = .ok t.root ∧ t'.root = t.root := by
  intro hasher pairs t t'
  have apart : hasher.Separates t.nodes.inputs := by decide +kernel
  have apartBoth : hasher.Separates (t.nodes.inputs ++ t'.nodes.inputs) := by decide +kernel
  have stored : (empty hasher 4).accepted pairs = pairs := by decide +kernel
  have stored' : (empty hasher 5).accepted [(2, 20), (5, 50), (5, 51), (1, 10)] =
      [(2, 20), (5, 50), (1, 10)] := by decide +kernel
  obtain ⟨-, root, same⟩ := root_canonical hasher 4 pairs apart
  refine ⟨apart, apartBoth, stored ▸ root, (same 5 _ apartBoth).mpr fun p => ?_⟩
  rw [stored, stored']
  simp only [pairs, List.mem_cons, List.not_mem_nil, or_false]
  tauto

end SparseTree

end LinkedCommit
