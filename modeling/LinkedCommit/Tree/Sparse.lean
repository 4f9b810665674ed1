import LinkedCommit.Tree.Proof
/-!
# The sparse Merkle tree

A binary tree in which a leaf stands at the highest place where its key is alone: the bits of a
key, the lowest first, are its way from the root, left for zero and right for one.  Nodes live
in a store under their hashes; the hash zero is the empty tree.  The store is a log of all that
was ever written: of two nodes with one hash it answers with the later one.

Inserting writes the nodes of the new leaf's way from the bottom up.  A hash that fails on the
way up leaves the nodes below it in the store, and the tree as it was.
-/

set_option autoImplicit false

namespace LinkedCommit

/-- A node of the tree; children are given by their hashes. -/
inductive Node where
  | leaf (key value : Nat)
  | middle (left right : Nat)
deriving DecidableEq, Inhabited

def Node.inputs : Node → List Nat
  | .leaf key value => [key, value, 1]
  | .middle left right => [left, right]

/-- The nodes with their hashes in the order in which they were written, the latest first. -/
abbrev NodeStore := List (Nat × Node)

structure SparseTree where
  hasher : Hasher
  /-- The number of levels; no leaf stands below them. -/
  maxLevels : Nat
  root : Nat
  nodes : NodeStore
  leaves : Nat

namespace SparseTree

def empty (hasher : Hasher) (maxLevels : Nat) : SparseTree where
  hasher := hasher
  maxLevels := maxLevels
  root := 0
  nodes := []
  leaves := 0

/-- A change of the store, which stays even where the change fails. -/
abbrev Change (α : Type) := ExceptT TreeError (StateM NodeStore) α

def nodeHash (hasher : Hasher) : Node → Except TreeError Nat
  | .leaf key value => Tree.leafHash hasher key value
  | .middle left right => Tree.middleHash hasher left right

/-- The node with a hash, none for the empty tree. -/
def node? (nodes : NodeStore) (hash : Nat) : Except TreeError (Option Node) :=
  if hash = 0 then .ok none
  else
    match nodes.lookup hash with
    | some node => .ok (some node)
    | none => .error (.nodeNotFound hash)

def store (hasher : Hasher) (node : Node) : Change Nat := do
  let hash ← nodeHash hasher node
  modify ((hash, node) :: ·)
  return hash

def middleOf (bit : Bool) (child other : Nat) : Node :=
  if bit then .middle other child else .middle child other

/-- The hash of the subtree at `level` of a new leaf and the leaf that stood there; `remaining`
levels follow. -/
def pushLeaf (t : SparseTree) (key value oldKey oldValue : Nat) : Nat → Nat → Change Nat
  | 0, _ => throw (.reachedMaxLevel t.maxLevels)
  | 1, _ => throw (.reachedMaxLevel t.maxLevels)
  | remaining + 2, level => do
    let bit := Tree.pathBit key level
    if bit = Tree.pathBit oldKey level then
      let below ← pushLeaf t key value oldKey oldValue (remaining + 1) (level + 1)
      store t.hasher (middleOf bit below 0)
    else
      let new ← store t.hasher (.leaf key value)
      let old ← Tree.leafHash t.hasher oldKey oldValue
      store t.hasher (middleOf bit new old)

/-- The hash of the subtree at `level` once a leaf has been added to it; `remaining` levels
follow. -/
def addLeaf (t : SparseTree) (key value : Nat) : Nat → Nat → Nat → Change Nat
  | 0, _, _ => throw (.reachedMaxLevel t.maxLevels)
  | remaining + 1, level, hash => do
    match ← node? (← get) hash with
    | none => store t.hasher (.leaf key value)
    | some (.leaf oldKey oldValue) =>
      if oldKey = key then throw .entryIndexAlreadyExists
      else pushLeaf t key value oldKey oldValue (remaining + 1) level
    | some (.middle left right) =>
      if Tree.pathBit key level then
        let below ← addLeaf t key value remaining (level + 1) right
        store t.hasher (.middle left below)
      else
        let below ← addLeaf t key value remaining (level + 1) left
        store t.hasher (.middle below right)

def checkPair (prime key value : Nat) : Except TreeError Unit :=
  (do checkInField prime key; checkInField prime value : Except HashError Unit).mapError .hash

def insert (t : SparseTree) (key value : Nat) : Except TreeError Unit × SparseTree :=
  match checkPair t.hasher.prime key value with
  | .error e => (.error e, t)
  | .ok () =>
    match (addLeaf t key value t.maxLevels 0 t.root).run.run t.nodes with
    | (.ok root, nodes) => (.ok (), { t with root := root, nodes := nodes, leaves := t.leaves + 1 })
    | (.error e, nodes) => (.error e, { t with nodes := nodes })

def proofBelow (t : SparseTree) (key : Nat) :
    Nat → Nat → Nat → Except TreeError (Proof × Option Nat)
  | 0, _, _ => .error (.reachedMaxLevel t.maxLevels)
  | remaining + 1, level, hash => do
    match ← node? t.nodes hash with
    | none => .ok (⟨false, [], none⟩, none)
    | some (.leaf leafKey value) =>
      if leafKey = key then .ok (⟨true, [], none⟩, some value)
      else .ok (⟨false, [], some ⟨leafKey, value⟩⟩, none)
    | some (.middle left right) =>
      let bit := Tree.pathBit key level
      let (below, value) ← proofBelow t key remaining (level + 1) (if bit then right else left)
      .ok ({ below with siblings := (if bit then left else right) :: below.siblings }, value)

def generateProof (t : SparseTree) (key : Nat) : Except TreeError (Proof × Option Nat) :=
  proofBelow t key t.maxLevels 0 t.root

def get? (t : SparseTree) (key : Nat) : Except TreeError (Option Nat) :=
  (t.generateProof key).map Prod.snd

def describe (t : SparseTree) : String :=
  "SparseMerkleTree \x7b max_levels: " ++ toString t.maxLevels ++ ", root: " ++ toString t.root
    ++ ", leaves: " ++ toString t.leaves ++ " \x7d"

end SparseTree

end LinkedCommit
