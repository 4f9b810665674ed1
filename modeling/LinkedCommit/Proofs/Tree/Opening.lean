import LinkedCommit.Proofs.Tree.Run
/-!
# Openings

A proof is read as an opening of the tree: the siblings along the way of a key and what stands at
its end, a leaf or nothing.  `Opening.root` is the root that an opening implies, and
`Opening.inputs` are the lists hashed for it.

An opening is determined by its root as long as the lists hashed for it are separated
(`Opening.root_injective`): the walk upwards reveals at every level whether a leaf, a middle node
or nothing was hashed.  The proof that a tree generates is an opening of its root, and all lists
hashed for it are hashed for the nodes of the tree (`proofBelow_eq`).  Hence the proof that is
accepted for a key is that one and no other.
-/

set_option autoImplicit false

namespace LinkedCommit

open LinkedCommit.Tree (pathBit)
open SparseTree (nodeHash middleOf node?)

/-- The pair in the leaf at the end of the way of a key, none for an empty place. -/
abbrev WayEnd := Option (Nat × Nat)

namespace Opening

def endInputs : WayEnd → List (List Nat)
  | none => []
  | some (key, value) => [(Node.leaf key value).inputs]

def endRoot (hasher : Hasher) : WayEnd → Except TreeError Nat
  | none => .ok 0
  | some (key, value) => nodeHash hasher (.leaf key value)

def root (hasher : Hasher) (key : Nat) (bottom : WayEnd) :
    Nat → List Nat → Except TreeError Nat
  | _, [] => endRoot hasher bottom
  | level, sibling :: rest => do
    let below ← root hasher key bottom (level + 1) rest
    nodeHash hasher (middleOf (pathBit key level) below sibling)

def inputs (hasher : Hasher) (key : Nat) (bottom : WayEnd) : Nat → List Nat → List (List Nat)
  | _, [] => endInputs bottom
  | level, sibling :: rest =>
    inputs hasher key bottom (level + 1) rest ++
      match root hasher key bottom (level + 1) rest with
      | .ok below => [(middleOf (pathBit key level) below sibling).inputs]
      | .error _ => []

end Opening

def Proof.bottom (proof : Proof) (key value : Nat) : WayEnd :=
  if proof.existence then some (key, value)
  else proof.other.map fun leaf => (leaf.key, leaf.value)

def Proof.inputs (hasher : Hasher) (proof : Proof) (key value : Nat) : List (List Nat) :=
  Opening.inputs hasher key (proof.bottom key value) 0 proof.siblings

/-- The proof with given siblings and the value found, where the way of a key ends as given. -/
def Proof.ofWay (key : Nat) (siblings : List Nat) : WayEnd → Proof × Option Nat
  | none => (⟨false, siblings, none⟩, none)
  | some (k, v) =>
    if k = key then (⟨true, siblings, none⟩, some v) else (⟨false, siblings, some ⟨k, v⟩⟩, none)

theorem climb_cons (hasher : Hasher) (key level sibling hash : Nat) (rest : List Nat) :
    Tree.climb hasher key level (sibling :: rest) hash =
      (Tree.climb hasher key (level + 1) rest hash).bind fun below =>
        nodeHash hasher (middleOf (pathBit key level) below sibling) := by
  rw [Tree.climb]
  cases bit : pathBit key level <;> rfl

theorem climb_endRoot (hasher : Hasher) (key : Nat) (bottom : WayEnd) :
    ∀ (siblings : List Nat) (level : Nat),
      (Opening.endRoot hasher bottom).bind (Tree.climb hasher key level siblings) =
        Opening.root hasher key bottom level siblings := by
  intro siblings
  induction siblings with
  | nil =>
      intro level
      rw [Opening.root]
      cases Opening.endRoot hasher bottom <;> rfl
  | cons sibling rest ih =>
      intro level
      rw [Opening.root, ← ih (level + 1)]
      cases Opening.endRoot hasher bottom with
      | error e => rfl
      | ok hash => exact climb_cons hasher key level sibling hash rest

theorem rootFromProof_eq (hasher : Hasher) (proof : Proof) (key value : Nat) :
    rootFromProof hasher proof key value =
      Opening.root hasher key (proof.bottom key value) 0 proof.siblings := by
  rw [← climb_endRoot]
  obtain ⟨existence, siblings, other⟩ := proof
  cases existence
  · cases other <;> rfl
  · rfl

namespace Opening

theorem middleOf_injective {bit : Bool} {child other child' other' : Nat}
    (same : middleOf bit child other = middleOf bit child' other') :
    child = child' ∧ other = other' := by
  cases bit
  · cases same
    exact ⟨rfl, rfl⟩
  · cases same
    exact ⟨rfl, rfl⟩

theorem leaf_ne_middleOf (key value child other : Nat) (bit : Bool) :
    Node.leaf key value ≠ middleOf bit child other := by
  cases bit <;> nofun

/-- What a digest is the digest of, among some lists: nothing, or a node. -/
def Digested (hasher : Hasher) (lists : List (List Nat)) (d : Nat) : Option Node → Prop
  | none => d = 0
  | some node => hasher.hash node.inputs = .ok d ∧ node.inputs ∈ lists

theorem Digested.mono {hasher : Hasher} {few many : List (List Nat)} {d : Nat} {top : Option Node}
    (digested : Digested hasher few d top) (subset : few ⊆ many) :
    Digested hasher many d top := by
  cases top with
  | none => exact digested
  | some node => exact ⟨digested.1, subset digested.2⟩

theorem Digested.unique {hasher : Hasher} {lists : List (List Nat)} {d : Nat}
    {top top' : Option Node} (separates : hasher.Separates lists)
    (digested : Digested hasher lists d top) (digested' : Digested hasher lists d top') :
    top = top' := by
  cases top with
  | none =>
      cases top' with
      | none => rfl
      | some node =>
          cases digested
          exact absurd digested'.1 (separates.digest_ne_zero _ digested'.2)
  | some node =>
      cases top' with
      | none =>
          cases digested'
          exact absurd digested.1 (separates.digest_ne_zero _ digested.2)
      | some node' =>
          exact congrArg some (Node.inputs_injective
            (separates.eq_of_digest _ digested.2 _ digested'.2 d digested.1 digested'.1))

/-- What is hashed last for an opening. -/
inductive Top (hasher : Hasher) (key : Nat) (bottom : WayEnd) (level : Nat) :
    List Nat → Option Node → Prop
  | bottom : Top hasher key bottom level [] (bottom.map fun p => .leaf p.1 p.2)
  | middle {sibling below : Nat} {rest : List Nat} :
      root hasher key bottom (level + 1) rest = .ok below →
        Top hasher key bottom level (sibling :: rest)
          (some (middleOf (pathBit key level) below sibling))

theorem exists_top {hasher : Hasher} {key : Nat} {bottom : WayEnd} {level d : Nat}
    {siblings : List Nat} (implied : root hasher key bottom level siblings = .ok d) :
    ∃ top, Top hasher key bottom level siblings top ∧
      Digested hasher (inputs hasher key bottom level siblings) d top := by
  cases siblings with
  | nil =>
      refine ⟨_, .bottom, ?_⟩
      cases bottom with
      | none =>
          cases implied
          rfl
      | some p =>
          exact ⟨(SparseTree.nodeHash_eq_ok_iff ..).mp implied, List.mem_singleton_self _⟩
  | cons sibling rest =>
      rw [root] at implied
      cases under : root hasher key bottom (level + 1) rest with
      | error e =>
          rw [under] at implied
          cases implied
      | ok below =>
          rw [under] at implied
          refine ⟨_, .middle under, (SparseTree.nodeHash_eq_ok_iff ..).mp implied, ?_⟩
          rw [inputs, under]
          exact List.mem_append_right _ (List.mem_singleton_self _)

theorem inputs_subset_cons (hasher : Hasher) (key : Nat) (bottom : WayEnd) (level sibling : Nat)
    (rest : List Nat) : inputs hasher key bottom (level + 1) rest ⊆
      inputs hasher key bottom level (sibling :: rest) :=
  List.subset_append_left _ _

theorem root_injective {hasher : Hasher} {key : Nat} {bottom bottom' : WayEnd} :
    ∀ {siblings siblings' : List Nat} {level d : Nat},
      hasher.Separates
        (inputs hasher key bottom level siblings ++ inputs hasher key bottom' level siblings') →
      root hasher key bottom level siblings = .ok d →
      root hasher key bottom' level siblings' = .ok d →
      siblings = siblings' ∧ bottom = bottom' := by
  -- Induction on one list of siblings.  The node hashed last is the same for both openings: it tells
  -- whether the other list ends as well, and where it does not, the two digests below.
  intro siblings
  induction siblings with
  | nil =>
      intro siblings' level d separates implied implied'
      obtain ⟨top, isTop, digested⟩ := exists_top implied
      obtain ⟨top', isTop', digested'⟩ := exists_top implied'
      have same := Digested.unique separates (digested.mono (List.subset_append_left _ _))
        (digested'.mono (List.subset_append_right _ _))
      cases isTop
      cases isTop' with
      | bottom =>
          refine ⟨rfl, Option.map_injective (fun p q eq => ?_) same⟩
          exact Prod.ext (Node.leaf.inj eq).1 (Node.leaf.inj eq).2
      | middle =>
          obtain ⟨p, -, eq⟩ := Option.map_eq_some_iff.mp same
          exact (leaf_ne_middleOf _ _ _ _ _ eq).elim
  | cons sibling rest ih =>
      intro siblings' level d separates implied implied'
      obtain ⟨top, isTop, digested⟩ := exists_top implied
      obtain ⟨top', isTop', digested'⟩ := exists_top implied'
      have same := Digested.unique separates (digested.mono (List.subset_append_left _ _))
        (digested'.mono (List.subset_append_right _ _))
      cases isTop with
      | middle under =>
          cases isTop' with
          | bottom =>
              obtain ⟨p, -, eq⟩ := Option.map_eq_some_iff.mp same.symm
              exact (leaf_ne_middleOf _ _ _ _ _ eq).elim
          | @middle sibling' below' rest' under' =>
              obtain ⟨rfl, rfl⟩ := middleOf_injective (Option.some.inj same)
              have fewer := separates.mono (List.append_subset.mpr
                ⟨List.subset_append_of_subset_left _ (inputs_subset_cons ..),
                  List.subset_append_of_subset_right _ (inputs_subset_cons ..)⟩)
              obtain ⟨rfl, rfl⟩ := ih fewer under under'
              exact ⟨rfl, rfl⟩

end Opening

/-! ## The generated proof -/

@[simp] theorem Proof.ofWay_siblings (key : Nat) (siblings : List Nat) (bottom : WayEnd) :
    (Proof.ofWay key siblings bottom).1.siblings = siblings := by
  cases bottom with
  | none => rfl
  | some p =>
      simp only [Proof.ofWay]
      split <;> rfl

theorem Proof.ofWay_cons (key sibling : Nat) (siblings : List Nat) (bottom : WayEnd) :
    Proof.ofWay key (sibling :: siblings) bottom =
      ({ (Proof.ofWay key siblings bottom).1 with siblings := sibling :: siblings },
        (Proof.ofWay key siblings bottom).2) := by
  cases bottom with
  | none => rfl
  | some p =>
      simp only [Proof.ofWay]
      split <;> rfl

namespace SparseTree

theorem proofBelow_of_middle (t : SparseTree) {key remaining level root below beside : Nat}
    {siblings : List Nat} {bottom : WayEnd}
    (found : node? t.nodes root = .ok (some (middleOf (pathBit key level) below beside)))
    (under : proofBelow t key remaining (level + 1) below =
      .ok (Proof.ofWay key siblings bottom)) :
    proofBelow t key (remaining + 1) level root =
      .ok (Proof.ofWay key (beside :: siblings) bottom) := by
  rw [proofBelow, found]
  cases pathBit key level <;>
    simp [bind, Except.bind, middleOf, under, Proof.ofWay_cons]

/-- The generated proof is an opening of the root, all lists of which are hashed for the tree,
and the leaf at its end stands on the way of the key. -/
theorem proofBelow_eq (t : SparseTree) (key : Nat) (hashed : t.nodes.Hashed t.hasher)
    (separates : t.hasher.Separates t.nodes.inputs) :
    ∀ (remaining level root : Nat) (T : Trie), Trie.Held t.nodes root T → T.Placed level →
      T.height < remaining → ∃ siblings,
        proofBelow t key remaining level root =
            .ok (Proof.ofWay key siblings (T.endOf key level)) ∧
          Opening.root t.hasher key (T.endOf key level) level siblings = .ok root ∧
          Opening.inputs t.hasher key (T.endOf key level) level siblings ⊆ t.nodes.inputs ∧
          ∀ p, T.endOf key level = some p → ∀ i, level ≤ i → i < level + siblings.length →
            pathBit p.1 i = pathBit key i := by
  intro remaining
  induction remaining with
  | zero =>
      intro level root T held placed high
      omega
  | succ remaining ih =>
      intro level root T held placed high
      cases T with
      | empty =>
          cases held
          exact ⟨[], rfl, rfl, List.nil_subset _, nofun⟩
      | leaf k v =>
          cases held with
          | leaf member =>
              refine ⟨[], ?_, ?_, ?_, ?_⟩
              · rw [proofBelow, hashed.node?_eq separates member]
                simp only [bind, Except.bind, Trie.endOf, Proof.ofWay]
                split <;> rfl
              · exact (nodeHash_eq_ok_iff ..).mpr (hashed _ member)
              · intro list inList
                rw [List.mem_singleton.mp inList]
                exact NodeStore.mem_inputs member
              · intro p _ i above below
                rw [List.length_nil] at below
                omega
      | fork left right =>
          rw [Trie.fork_eq_join (pathBit key level)] at held placed high ⊢
          generalize (if pathBit key level then right else left) = child at held placed high ⊢
          generalize (if pathBit key level then left else right) = other at held placed high ⊢
          rw [Trie.join_height] at high
          obtain ⟨childBit, -, -, placedChild, -⟩ := (Trie.placed_join_iff ..).mp placed
          obtain ⟨below, beside, member, heldChild, heldOther⟩ := held.of_join
          obtain ⟨siblings, generated, implied, subset, onWay⟩ :=
            ih (level + 1) below child heldChild placedChild (by omega)
          rw [Trie.endOf_join]
          refine ⟨beside :: siblings, ?_, ?_, ?_, ?_⟩
          · exact proofBelow_of_middle t (hashed.node?_eq separates member) generated
          · rw [Opening.root, implied]
            exact (nodeHash_eq_ok_iff ..).mpr (hashed _ member)
          · rw [Opening.inputs, implied]
            refine List.append_subset.mpr ⟨subset, fun list inList => ?_⟩
            rw [List.mem_singleton.mp inList]
            exact NodeStore.mem_inputs member
          · intro p isEnd i above below
            rcases Nat.eq_or_lt_of_le above with rfl | above
            · exact childBit p (Trie.mem_pairs_of_endOf isEnd)
            · rw [List.length_cons] at below
              exact onWay p isEnd i above (by omega)

end SparseTree

end LinkedCommit
