import LinkedCommit.Proofs.Tree.WriteOnce
/-!
# Every hash in a tree has its node

Nothing is asked of the hasher here.  Two nodes may share a digest, and the later one is then
answered; a digest may be zero, which stands for the empty tree; a hash may fail when the nodes
below it are already written.  A store is `Closed` all the same: every node is under its digest,
and for every child of a middle node, unless it is zero, some node was written.

What every step of an insertion keeps holds of adding a leaf (`KeptByInsertion.addLeaf`).  That a
store stays closed is such a property (`KeepsClosed`), and hence no call on a tree ever misses a node
(`every_hash_resolves`).
-/

set_option autoImplicit false

namespace LinkedCommit

open LinkedCommit.Tree (pathBit)
open SparseTree (nodeHash middleOf node?)

namespace NodeStore

/-- A hash is that of the empty tree, or one under which a node was written. -/
def Knows (nodes : NodeStore) (hash : Nat) : Prop :=
  hash = 0 ∨ ∃ node, (hash, node) ∈ nodes

/-- A hash is that of the empty tree, or the store answers it with a node that hashes to it. -/
def Resolves (hasher : Hasher) (nodes : NodeStore) (hash : Nat) : Prop :=
  hash = 0 ∨ ∃ node, nodes.lookup hash = some node ∧ hasher.hash node.inputs = .ok hash

structure Closed (hasher : Hasher) (nodes : NodeStore) : Prop where
  hashed : nodes.Hashed hasher
  children : ∀ d left right, (d, .middle left right) ∈ nodes → nodes.Knows left ∧ nodes.Knows right

variable {hasher : Hasher} {nodes written : NodeStore} {hash : Nat}

theorem knows_zero (nodes : NodeStore) : nodes.Knows 0 := Or.inl rfl

theorem Knows.mono (known : nodes.Knows hash) (subset : nodes ⊆ written) : written.Knows hash :=
  known.imp_right fun ⟨node, member⟩ => ⟨node, subset member⟩

theorem closed_nil (hasher : Hasher) : Closed hasher [] where
  hashed := fun _ member => (List.not_mem_nil member).elim
  children := fun _ _ _ member => (List.not_mem_nil member).elim

/-- Writing a node whose children are known keeps a store closed, whatever stood under its digest. -/
theorem Closed.cons (closed : Closed hasher nodes) {node : Node} {d : Nat}
    (digest : hasher.hash node.inputs = .ok d)
    (known : ∀ left right, node = .middle left right → nodes.Knows left ∧ nodes.Knows right) :
    Closed hasher ((d, node) :: nodes) where
  hashed := List.forall_mem_cons.mpr ⟨digest, closed.hashed⟩
  children := by
    intro d' left right member
    have knownBefore : nodes.Knows left ∧ nodes.Knows right := by
      rcases List.mem_cons.mp member with same | earlier
      · exact known left right (congrArg Prod.snd same).symm
      · exact closed.children d' left right earlier
    exact knownBefore.imp (·.mono (List.subset_cons_self _ _)) (·.mono (List.subset_cons_self _ _))

theorem exists_lookup_of_mem {node : Node} (member : (hash, node) ∈ nodes) :
    ∃ latest, nodes.lookup hash = some latest ∧ (hash, latest) ∈ nodes := by
  cases found : nodes.lookup hash with
  | none => exact absurd (List.lookup_eq_none_iff.mp found _ member) (by simp)
  | some latest => exact ⟨latest, rfl, mem_of_lookup_eq_some found⟩

theorem Closed.resolves (closed : Closed hasher nodes) (known : nodes.Knows hash) :
    nodes.Resolves hasher hash := by
  refine known.imp_right fun ⟨node, member⟩ => ?_
  obtain ⟨latest, found, inNodes⟩ := exists_lookup_of_mem member
  exact ⟨latest, found, closed.hashed _ inNodes⟩

/-- What a known hash is answered with: nothing for zero, or else a node written under it. -/
theorem Knows.node?_cases (known : nodes.Knows hash) :
    (hash = 0 ∧ node? nodes hash = .ok none) ∨
      ∃ node, node? nodes hash = .ok (some node) ∧ (hash, node) ∈ nodes := by
  by_cases zero : hash = 0
  · exact Or.inl ⟨zero, if_pos zero⟩
  · obtain ⟨node, member⟩ := known.resolve_left zero
    obtain ⟨latest, found, inNodes⟩ := exists_lookup_of_mem member
    exact Or.inr ⟨latest, by rw [node?, if_neg zero, found], inNodes⟩

end NodeStore

namespace SparseTree

/-! ## Changes of a closed store -/

/-- A change leaves a closed store with every node of before, and answers with a hash known there
or with a failure other than a missing node. -/
def KeepsClosed (hasher : Hasher) (nodes : NodeStore) (change : Change Nat) : Prop :=
  ∃ outcome written, change.run.run nodes = (outcome, written) ∧ nodes ⊆ written ∧
    NodeStore.Closed hasher written ∧ (∀ d, outcome = .ok d → written.Knows d) ∧
    ∀ hash, outcome ≠ .error (.nodeNotFound hash)

section Changes

variable {hasher : Hasher} {nodes : NodeStore}

theorem keepsClosed_throw (closed : nodes.Closed hasher) {e : TreeError}
    (other : ∀ hash, e ≠ .nodeNotFound hash) : KeepsClosed hasher nodes (throw e) :=
  ⟨.error e, nodes, rfl, List.Subset.refl _, closed, nofun, fun hash same =>
    other hash (Except.error.inj same)⟩

theorem keepsClosed_congr {change change' : Change Nat}
    (same : change.run.run nodes = change'.run.run nodes)
    (keeps : KeepsClosed hasher nodes change') : KeepsClosed hasher nodes change := by
  rw [KeepsClosed, same]
  exact keeps

theorem keepsClosed_bind {change : Change Nat} {next : Nat → Change Nat}
    (keeps : KeepsClosed hasher nodes change)
    (after : ∀ d written, nodes ⊆ written → NodeStore.Closed hasher written → written.Knows d →
      KeepsClosed hasher written (next d)) :
    KeepsClosed hasher nodes (change >>= next) := by
  obtain ⟨outcome, written, ran, subset, closed, known, present⟩ := keeps
  rw [KeepsClosed, run_bind, ran]
  cases outcome with
  | error e => exact ⟨.error e, written, rfl, subset, closed, nofun, present⟩
  | ok d =>
      obtain ⟨outcome', written', ran', subset', keeps'⟩ := after d written subset closed (known d rfl)
      exact ⟨outcome', written', ran', List.Subset.trans subset subset', keeps'⟩

theorem keepsClosed_store (closed : nodes.Closed hasher) {node : Node}
    (known : ∀ left right, node = .middle left right → nodes.Knows left ∧ nodes.Knows right) :
    KeepsClosed hasher nodes (store hasher node) := by
  rw [KeepsClosed, store_run, nodeHash_eq]
  cases digest : hasher.hash node.inputs with
  | error e => exact ⟨_, nodes, rfl, List.Subset.refl _, closed, nofun, nofun⟩
  | ok d =>
      refine ⟨.ok d, (d, node) :: nodes, rfl, List.subset_cons_self _ _, closed.cons digest known, ?_,
        nofun⟩
      intro d' same
      cases same
      exact Or.inr ⟨node, List.mem_cons_self⟩

theorem knows_children_middleOf {bit : Bool} {child other left right : Nat}
    (knownChild : nodes.Knows child) (knownOther : nodes.Knows other)
    (same : middleOf bit child other = .middle left right) :
    nodes.Knows left ∧ nodes.Knows right := by
  cases bit
  · cases same
    exact ⟨knownChild, knownOther⟩
  · cases same
    exact ⟨knownOther, knownChild⟩

theorem keepsClosed_middleOf {change : Change Nat} {other : Nat} (bit : Bool)
    (keeps : KeepsClosed hasher nodes change) (known : nodes.Knows other) :
    KeepsClosed hasher nodes (do let below ← change; store hasher (middleOf bit below other)) :=
  keepsClosed_bind keeps fun _ _ subset closed knownBelow =>
    keepsClosed_store closed fun _ _ => knows_children_middleOf knownBelow (known.mono subset)

end Changes

section Adding

variable {t : SparseTree} {nodes : NodeStore} {key value : Nat} {P : Change Nat → Prop}

/-- A property of changes that every step of an insertion into a log keeps. -/
structure KeptByInsertion (t : SparseTree) (key value : Nat) (nodes : NodeStore)
    (P : Change Nat → Prop) : Prop where
  congr : ∀ {change change' : Change Nat},
    change.run.run nodes = change'.run.run nodes → P change' → P change
  failure : ∀ {e : TreeError}, (∀ hash, e ≠ .nodeNotFound hash) → P (throw e)
  leaf : P (store t.hasher (.leaf key value))
  above : ∀ {change : Change Nat} {other : Nat} (bit : Bool), P change → nodes.Knows other →
    P (do let below ← change; store t.hasher (middleOf bit below other))

/-- The old leaf is hashed and not written again: it is known as long as it stood in the store. -/
theorem KeptByInsertion.pushLeaf (kept : KeptByInsertion t key value nodes P)
    (closed : nodes.Closed t.hasher) {oldKey oldValue oldRoot : Nat}
    (member : (oldRoot, .leaf oldKey oldValue) ∈ nodes) :
    ∀ remaining level, P (SparseTree.pushLeaf t key value oldKey oldValue remaining level) := by
  intro remaining
  induction remaining with
  | zero => exact fun _ => kept.failure (by simp)
  | succ remaining ih =>
      intro level
      cases remaining with
      | zero => exact kept.failure (by simp)
      | succ remaining =>
          by_cases same : pathBit key level = pathBit oldKey level
          · rw [SparseTree.pushLeaf, if_pos same]
            exact kept.above _ (ih (level + 1)) (NodeStore.knows_zero nodes)
          · rw [SparseTree.pushLeaf, if_neg same]
            have oldDigest : Tree.leafHash t.hasher oldKey oldValue = .ok oldRoot :=
              (nodeHash_eq_ok_iff t.hasher (.leaf oldKey oldValue) oldRoot).mpr
                (closed.hashed _ member)
            rw [oldDigest]
            exact kept.above _ kept.leaf (Or.inr ⟨_, member⟩)

theorem middle_eq_middleOf (bit : Bool) (left right : Nat) :
    Node.middle left right =
      middleOf bit (if bit then right else left) (if bit then left else right) := by
  cases bit <;> rfl

theorem KeptByInsertion.addLeaf (kept : KeptByInsertion t key value nodes P)
    (closed : nodes.Closed t.hasher) :
    ∀ remaining level hash, nodes.Knows hash →
      P (SparseTree.addLeaf t key value remaining level hash) := by
  intro remaining
  induction remaining with
  | zero => exact fun _ _ _ => kept.failure (by simp)
  | succ remaining ih =>
      intro level hash known
      rcases known.node?_cases with ⟨rfl, -⟩ | ⟨node, found, member⟩
      · exact kept.leaf
      · cases node with
        | leaf oldKey oldValue =>
            refine kept.congr (addLeaf_at_leaf t key value remaining level found) ?_
            split
            · exact kept.failure (by simp)
            · exact kept.pushLeaf closed member _ level
        | middle left right =>
            obtain ⟨knownLeft, knownRight⟩ := closed.children _ _ _ member
            rw [middle_eq_middleOf (pathBit key level)] at found
            refine kept.congr (addLeaf_at_middle t key value remaining level found) ?_
            refine kept.above _ (ih _ _ ?_) ?_
            · split <;> assumption
            · split <;> assumption

theorem addLeaf_keepsClosed (closed : nodes.Closed t.hasher) (key value remaining level : Nat)
    {hash : Nat} (known : nodes.Knows hash) :
    KeepsClosed t.hasher nodes (addLeaf t key value remaining level hash) := by
  have kept : KeptByInsertion t key value nodes (KeepsClosed t.hasher nodes) :=
    { congr := keepsClosed_congr
      failure := keepsClosed_throw closed
      leaf := keepsClosed_store closed (by simp)
      above := keepsClosed_middleOf }
  exact kept.addLeaf closed remaining level hash known

end Adding

/-! ## Trees -/

structure Closed (t : SparseTree) : Prop where
  nodes : t.nodes.Closed t.hasher
  root : t.nodes.Knows t.root

theorem closed_empty (hasher : Hasher) (levels : Nat) : Closed (empty hasher levels) where
  nodes := NodeStore.closed_nil hasher
  root := NodeStore.knows_zero _

variable {t : SparseTree}

/-- An insertion misses no node and keeps a tree closed, also where a hash fails on the way up. -/
theorem Closed.insert (closed : t.Closed) (key value : Nat) :
    (t.insert key value).2.Closed ∧
      ∀ hash, (t.insert key value).1 ≠ .error (.nodeNotFound hash) := by
  cases checked : checkPair t.hasher.prime key value with
  | error e =>
      have refused : t.insert key value = (.error e, t) := by simp only [SparseTree.insert, checked]
      rw [refused]
      refine ⟨closed, ?_⟩
      rintro hash same
      obtain ⟨cause, -, isHash⟩ := Except.mapError_eq_error_iff.mp
        (checked.trans (congrArg Except.error (Except.error.inj same)))
      cases isHash
  | ok _ =>
      obtain ⟨outcome, written, ran, subset, closedAfter, known, present⟩ :=
        addLeaf_keepsClosed closed.nodes key value t.maxLevels 0 closed.root
      cases outcome with
      | error e =>
          have failed : t.insert key value = (.error e, { t with nodes := written }) := by
            simp only [SparseTree.insert, checked, ran]
          rw [failed]
          exact ⟨⟨closedAfter, closed.root.mono subset⟩, fun hash same =>
            present hash (congrArg Except.error (Except.error.inj same))⟩
      | ok root =>
          have done : t.insert key value =
              (.ok (), { t with root := root, nodes := written, leaves := t.leaves + 1 }) := by
            simp only [SparseTree.insert, checked, ran]
          rw [done]
          exact ⟨⟨closedAfter, known root rfl⟩, by simp⟩

theorem Closed.proofBelow (closed : t.nodes.Closed t.hasher) (key : Nat) :
    ∀ remaining level hash, t.nodes.Knows hash →
      ∀ missing, proofBelow t key remaining level hash ≠ .error (.nodeNotFound missing) := by
  intro remaining
  induction remaining with
  | zero =>
      intro level hash known missing same
      cases same
  | succ remaining ih =>
      intro level hash known missing
      rw [SparseTree.proofBelow]
      rcases known.node?_cases with ⟨-, found⟩ | ⟨node, found, member⟩
      · rw [found]
        intro same
        cases same
      · rw [found]
        cases node with
        | leaf leafKey value =>
            show (if leafKey = key then _ else _) ≠ _
            split
            · intro same
              cases same
            · intro same
              cases same
        | middle left right =>
            obtain ⟨knownLeft, knownRight⟩ := closed.children _ _ _ member
            have knownBelow : t.nodes.Knows (if pathBit key level then right else left) := by
              split <;> assumption
            cases under : SparseTree.proofBelow t key remaining (level + 1)
                (if pathBit key level then right else left) with
            | error e =>
                intro failed
                simp only [bind, Except.bind, under] at failed
                exact ih _ _ knownBelow missing (under.trans failed)
            | ok found =>
                simp only [bind, Except.bind, under]
                intro same
                cases same

theorem Closed.generateProof (closed : t.Closed) (key hash : Nat) :
    t.generateProof key ≠ .error (.nodeNotFound hash) :=
  Closed.proofBelow closed.nodes key t.maxLevels 0 t.root closed.root hash

theorem Closed.after (closed : t.Closed) (calls : List TreeCall) :
    (TreeCall.after call t calls).Closed := by
  induction calls generalizing t with
  | nil => exact closed
  | cons c rest ih =>
      refine ih ?_
      cases c with
      | insert key value => exact (closed.insert key value).1
      | get key => exact closed
      | size => exact closed

/-- Whatever the hasher and the calls made, no call misses a node, and the root and the children of
every middle node that the store answers with are zero or answered by a node that hashes to them. -/
theorem every_hash_resolves (hasher : Hasher) (levels : Nat) (calls : List TreeCall) :
    let t := TreeCall.after call (empty hasher levels) calls
    (∀ key value hash, (t.insert key value).1 ≠ .error (.nodeNotFound hash)) ∧
      (∀ key hash, t.generateProof key ≠ .error (.nodeNotFound hash)) ∧
      t.nodes.Resolves hasher t.root ∧
      ∀ d left right, t.nodes.lookup d = some (.middle left right) →
        t.nodes.Resolves hasher left ∧ t.nodes.Resolves hasher right := by
  intro t
  have closed : t.Closed := (closed_empty hasher levels).after calls
  have resolves : ∀ {hash : Nat}, t.nodes.Knows hash → t.nodes.Resolves hasher hash := by
    intro hash known
    simpa [t] using closed.nodes.resolves known
  refine ⟨fun key value => (closed.insert key value).2, closed.generateProof, resolves closed.root, ?_⟩
  intro d left right found
  exact (closed.nodes.children d left right (mem_of_lookup_eq_some found)).imp resolves resolves

/-- Where all nodes share a digest, a middle node takes the place of its own children. -/
example :
    let hasher : Hasher := ⟨11, fun _ => .ok 7, fun _ => .ok 7⟩
    let t := ((empty hasher 4).insertAll [(0, 0), (1, 0)])
    t.nodes.lookup t.root = some (.middle 7 7) ∧ t.root = 7 ∧
      t.generateProof 2 = .error (.reachedMaxLevel 4) := by
  decide

end SparseTree

end LinkedCommit
