import LinkedCommit.Proofs.Hash.Separation
import LinkedCommit.Proofs.Tree.Trie
/-!
# Tries in the store

`Held nodes d T` says that the nodes of a trie are in a log, its own under the digest `d`.  It
survives every later write, and where the lists of the log are separated the store answers with
what is held (`NodeStore.Hashed.node?_eq`).

`Builds` describes a change of the store that writes the nodes of a trie: it answers with the
digest of the trie, or with the failure of the first hash that fails.  `addLeaf_performs` says that
`addLeaf` builds the trie with one more pair, and leaves the store alone where there is none.
-/

set_option autoImplicit false

namespace LinkedCommit

open LinkedCommit.Tree (pathBit)
open SparseTree (nodeHash middleOf)

def NodeStore.Hashed (hasher : Hasher) (nodes : NodeStore) : Prop :=
  ∀ entry ∈ nodes, hasher.hash entry.2.inputs = .ok entry.1

def NodeStore.inputs (nodes : NodeStore) : List (List Nat) :=
  nodes.map fun entry => entry.2.inputs

namespace Trie

def root (hasher : Hasher) : Trie → Except TreeError Nat
  | .empty => .ok 0
  | .leaf key value => nodeHash hasher (.leaf key value)
  | .fork left right => do
    let leftRoot ← left.root hasher
    let rightRoot ← right.root hasher
    nodeHash hasher (.middle leftRoot rightRoot)

/-- The nodes of a trie are in a log, its own under a digest. -/
inductive Held (nodes : NodeStore) : Nat → Trie → Prop
  | empty : Held nodes 0 .empty
  | leaf {d key value : Nat} : (d, .leaf key value) ∈ nodes → Held nodes d (.leaf key value)
  | fork {d leftRoot rightRoot : Nat} {left right : Trie} :
      (d, .middle leftRoot rightRoot) ∈ nodes → Held nodes leftRoot left →
        Held nodes rightRoot right → Held nodes d (.fork left right)

theorem root_join {hasher : Hasher} {other : Trie} {otherRoot : Nat} (bit : Bool) (child : Trie)
    (known : other.root hasher = .ok otherRoot) :
    (join bit child other).root hasher =
      (child.root hasher).bind fun below => nodeHash hasher (middleOf bit below otherRoot) := by
  cases bit
  · simp only [join, Bool.false_eq_true, if_false, root, known, middleOf]
    rfl
  · simp only [join, if_true, root, known, middleOf]
    rfl

theorem Held.mono {few many : NodeStore} (subset : few ⊆ many) {d : Nat} {T : Trie}
    (held : Held few d T) : Held many d T := by
  induction held with
  | empty => exact .empty
  | leaf member => exact .leaf (subset member)
  | fork member _ _ left right => exact .fork (subset member) left right

theorem Held.root_eq {hasher : Hasher} {nodes : NodeStore} (hashed : nodes.Hashed hasher)
    {d : Nat} {T : Trie} (held : Held nodes d T) : T.root hasher = .ok d := by
  induction held with
  | empty => rfl
  | leaf member => exact (SparseTree.nodeHash_eq_ok_iff ..).mpr (hashed _ member)
  | fork member _ _ left right =>
      rw [root, left, right]
      exact (SparseTree.nodeHash_eq_ok_iff ..).mpr (hashed _ member)

theorem Held.join {nodes : NodeStore} {d childRoot otherRoot : Nat} {child other : Trie}
    (bit : Bool) (member : (d, middleOf bit childRoot otherRoot) ∈ nodes)
    (heldChild : Held nodes childRoot child) (heldOther : Held nodes otherRoot other) :
    Held nodes d (Trie.join bit child other) := by
  cases bit
  · exact .fork member heldChild heldOther
  · exact .fork member heldOther heldChild

theorem Held.of_join {nodes : NodeStore} {d : Nat} {child other : Trie} (bit : Bool)
    (held : Held nodes d (Trie.join bit child other)) :
    ∃ childRoot otherRoot, (d, middleOf bit childRoot otherRoot) ∈ nodes ∧
      Held nodes childRoot child ∧ Held nodes otherRoot other := by
  cases bit
  · cases held with
    | fork member heldChild heldOther => exact ⟨_, _, member, heldChild, heldOther⟩
  · cases held with
    | fork member heldOther heldChild => exact ⟨_, _, member, heldChild, heldOther⟩

end Trie

namespace NodeStore

theorem mem_inputs {nodes : NodeStore} {entry : Nat × Node} (member : entry ∈ nodes) :
    entry.2.inputs ∈ nodes.inputs :=
  List.mem_map_of_mem member

theorem separates_of_suffix {hasher : Hasher} {before after : NodeStore}
    (separates : hasher.Separates after.inputs) (suffix : before <:+ after) :
    hasher.Separates before.inputs :=
  separates.mono (List.map_subset _ suffix.subset)

theorem Hashed.append {hasher : Hasher} {new nodes : NodeStore} (hashedNew : new.Hashed hasher)
    (hashed : nodes.Hashed hasher) : NodeStore.Hashed hasher (new ++ nodes) :=
  fun entry member => (List.mem_append.mp member).elim (hashedNew entry) (hashed entry)

theorem Hashed.node?_eq {hasher : Hasher} {nodes : NodeStore} (hashed : nodes.Hashed hasher)
    (separates : hasher.Separates nodes.inputs) {d : Nat} {node : Node}
    (member : (d, node) ∈ nodes) : SparseTree.node? nodes d = .ok (some node) := by
  have nonzero : d ≠ 0 := by
    intro zero
    have digest := hashed _ member
    rw [zero] at digest
    exact separates.digest_ne_zero _ (mem_inputs member) digest
  have found : nodes.lookup d = some node := by
    refine lookup_eq_some_of_mem member fun other inNodes => ?_
    exact Node.inputs_injective (separates.eq_of_digest _ (mem_inputs inNodes) _
      (mem_inputs member) d (hashed _ inNodes) (hashed _ member))
  rw [SparseTree.node?, if_neg nonzero, found]

end NodeStore

/-! ## Changes that build a trie -/

namespace SparseTree

theorem run_bind {α β : Type} (change : Change α) (next : α → Change β) (nodes : NodeStore) :
    (change >>= next).run.run nodes =
      match change.run.run nodes with
      | (.ok a, written) => (next a).run.run written
      | (.error e, written) => (.error e, written) := by
  simp only [ExceptT.run_bind, StateT.run_bind]
  show (match change.run.run nodes with | (a, s) => _) = _
  rcases change.run.run nodes with ⟨_ | _, _⟩ <;> rfl

theorem store_run (hasher : Hasher) (node : Node) (nodes : NodeStore) :
    (store hasher node).run.run nodes =
      match nodeHash hasher node with
      | .ok d => (.ok d, (d, node) :: nodes)
      | .error e => (.error e, nodes) := by
  unfold store
  cases nodeHash hasher node <;> rfl

/-- A change of a log that writes the nodes of a trie and answers with its digest, or with the
failure of a hash. -/
def Builds (hasher : Hasher) (nodes : NodeStore) (change : Change Nat) (T : Trie) : Prop :=
  ∃ new : NodeStore, change.run.run nodes = (T.root hasher, new ++ nodes) ∧
    new.Hashed hasher ∧ ∀ d, T.root hasher = .ok d → Trie.Held (new ++ nodes) d T

theorem builds_leaf (hasher : Hasher) (nodes : NodeStore) (key value : Nat) :
    Builds hasher nodes (store hasher (.leaf key value)) (.leaf key value) := by
  rw [Builds, store_run, Trie.root]
  cases digest : nodeHash hasher (.leaf key value) with
  | error e => exact ⟨[], rfl, fun _ member => (List.not_mem_nil member).elim, nofun⟩
  | ok d =>
      refine ⟨[(d, .leaf key value)], rfl, ?_, ?_⟩
      · intro entry member
        rw [List.mem_singleton.mp member]
        exact (nodeHash_eq_ok_iff ..).mp digest
      · intro d' known
        cases known
        exact .leaf List.mem_cons_self

theorem builds_join {hasher : Hasher} {nodes : NodeStore} {change : Change Nat}
    {child other : Trie} {otherRoot : Nat} (bit : Bool) (built : Builds hasher nodes change child)
    (hashed : nodes.Hashed hasher) (held : Trie.Held nodes otherRoot other) :
    Builds hasher nodes (do let below ← change; store hasher (middleOf bit below otherRoot))
      (Trie.join bit child other) := by
  obtain ⟨new, ran, hashedNew, heldNew⟩ := built
  rw [Builds, Trie.root_join bit child (held.root_eq hashed), run_bind, ran]
  cases digest : child.root hasher with
  | error e => exact ⟨new, rfl, hashedNew, nofun⟩
  | ok below =>
      simp only [Except.bind, store_run]
      cases top : nodeHash hasher (middleOf bit below otherRoot) with
      | error e => exact ⟨new, rfl, hashedNew, nofun⟩
      | ok d =>
          refine ⟨(d, middleOf bit below otherRoot) :: new, rfl, ?_, ?_⟩
          · intro entry member
            rcases List.mem_cons.mp member with rfl | member
            · exact (nodeHash_eq_ok_iff ..).mp top
            · exact hashedNew entry member
          · intro d' known
            cases known
            exact Trie.Held.join bit List.mem_cons_self
              ((heldNew below digest).mono (List.subset_cons_self _ _))
              (held.mono fun entry member => List.mem_cons_of_mem _ (List.mem_append_right _ member))

/-- A change does to a log what an outcome says: it builds a trie, or fails and writes nothing. -/
def Performs (hasher : Hasher) (nodes : NodeStore) (change : Change Nat) :
    Except TreeError Trie → Prop
  | .ok T => Builds hasher nodes change T
  | .error e => change.run.run nodes = (.error e, nodes)

theorem performs_join {hasher : Hasher} {nodes : NodeStore} {change : Change Nat}
    {outcome : Except TreeError Trie} {other : Trie} {otherRoot : Nat} (bit : Bool)
    (performs : Performs hasher nodes change outcome)
    (hashed : nodes.Hashed hasher) (held : Trie.Held nodes otherRoot other) :
    Performs hasher nodes (do let below ← change; store hasher (middleOf bit below otherRoot))
      (outcome.map (Trie.join bit · other)) := by
  cases outcome with
  | error e =>
      have ran : change.run.run nodes = (.error e, nodes) := performs
      show (change >>= _).run.run nodes = _
      rw [run_bind, ran]
  | ok T => exact builds_join bit performs hashed held

theorem pushLeaf_performs (t : SparseTree) (key value oldKey oldValue : Nat) {nodes : NodeStore}
    {oldRoot : Nat} (hashed : nodes.Hashed t.hasher)
    (held : Trie.Held nodes oldRoot (.leaf oldKey oldValue)) :
    ∀ remaining level, Performs t.hasher nodes (pushLeaf t key value oldKey oldValue remaining level)
      (Trie.push t.maxLevels key value oldKey oldValue remaining level) := by
  intro remaining
  induction remaining with
  | zero => exact fun _ => rfl
  | succ remaining ih =>
      intro level
      cases remaining with
      | zero => rfl
      | succ remaining =>
          by_cases same : pathBit key level = pathBit oldKey level
          · rw [pushLeaf, Trie.push, if_pos same, if_pos same]
            exact performs_join _ (ih (level + 1)) hashed .empty
          · rw [pushLeaf, Trie.push, if_neg same, if_neg same]
            have oldDigest : Tree.leafHash t.hasher oldKey oldValue = .ok oldRoot :=
              held.root_eq hashed
            rw [oldDigest]
            exact builds_join _ (builds_leaf t.hasher nodes key value) hashed held

theorem performs_congr {hasher : Hasher} {nodes : NodeStore} {change change' : Change Nat}
    {outcome : Except TreeError Trie} (same : change.run.run nodes = change'.run.run nodes)
    (performs : Performs hasher nodes change' outcome) : Performs hasher nodes change outcome := by
  cases outcome with
  | error e => exact same.trans performs
  | ok T =>
      obtain ⟨new, ran, held⟩ := performs
      exact ⟨new, same.trans ran, held⟩

theorem addLeaf_at_leaf (t : SparseTree) (key value remaining level : Nat) {nodes : NodeStore}
    {root oldKey oldValue : Nat} (found : node? nodes root = .ok (some (.leaf oldKey oldValue))) :
    (addLeaf t key value (remaining + 1) level root).run.run nodes =
      (if oldKey = key then throw .entryIndexAlreadyExists
        else pushLeaf t key value oldKey oldValue (remaining + 1) level : Change Nat).run.run
        nodes := by
  rw [addLeaf, run_bind]
  show (match (liftM (node? nodes root) : Change (Option Node)).run.run nodes with | _ => _) = _
  rw [found]
  rfl

theorem addLeaf_at_middle (t : SparseTree) (key value remaining level : Nat) {nodes : NodeStore}
    {root below beside : Nat}
    (found : node? nodes root = .ok (some (middleOf (pathBit key level) below beside))) :
    (addLeaf t key value (remaining + 1) level root).run.run nodes =
      (do
        let child ← addLeaf t key value remaining (level + 1) below
        store t.hasher (middleOf (pathBit key level) child beside) : Change Nat).run.run nodes := by
  rw [addLeaf, run_bind]
  show (match (liftM (node? nodes root) : Change (Option Node)).run.run nodes with | _ => _) = _
  rw [found]
  cases bit : pathBit key level
  · simp only [Bool.false_eq_true, if_false, middleOf]
    rfl
  · simp only [if_true, middleOf]
    rfl

/-- Adding a leaf to the store does what adding it to the trie says. -/
theorem addLeaf_performs (t : SparseTree) (key value : Nat) {nodes : NodeStore}
    (hashed : nodes.Hashed t.hasher) (separates : t.hasher.Separates nodes.inputs) :
    ∀ remaining level root T, Trie.Held nodes root T →
      Performs t.hasher nodes (addLeaf t key value remaining level root)
        (T.add t.maxLevels key value remaining level) := by
  intro remaining
  induction remaining with
  | zero => intro level root T held; rfl
  | succ remaining ih =>
      intro level root T held
      cases T with
      | empty =>
          cases held
          exact builds_leaf t.hasher nodes key value
      | leaf oldKey oldValue =>
          cases held with
          | leaf member =>
              refine performs_congr
                (addLeaf_at_leaf t key value remaining level (hashed.node?_eq separates member)) ?_
              rw [Trie.add]
              split
              · exact rfl
              · exact pushLeaf_performs t key value oldKey oldValue hashed (.leaf member) _ level
      | fork left right =>
          rw [Trie.fork_eq_join (pathBit key level)] at held ⊢
          obtain ⟨below, beside, member, heldChild, heldOther⟩ := held.of_join
          refine performs_congr
            (addLeaf_at_middle t key value remaining level (hashed.node?_eq separates member)) ?_
          rw [Trie.add_join]
          exact performs_join _ (ih _ _ _ heldChild) hashed heldOther

end SparseTree

end LinkedCommit
