import LinkedCommit.Hash.Hasher
/-!
# Membership proofs

A proof for a key lists the siblings along the key's way from the root.  It ends at a leaf with
the key, at nothing, or at the leaf of another key, which is then part of the proof.
`rootFromProof` computes the root that a proof implies, and `verifyProof` compares it.
-/

set_option autoImplicit false

namespace LinkedCommit

inductive TreeError where
  | entryIndexAlreadyExists
  | reachedMaxLevel (levels : Nat)
  | nodeNotFound (digest : Nat)
  | hash (cause : HashError)
deriving DecidableEq, Repr

def TreeError.message : TreeError → String
  | .entryIndexAlreadyExists => "the entry index already exists in the tree"
  | .reachedMaxLevel levels => s!"reached maximum level of the merkle tree: {levels}"
  | .nodeNotFound digest => s!"node not found in tree storage: {digest}"
  | .hash cause => cause.message

structure OtherLeaf where
  key : Nat
  value : Nat
deriving DecidableEq, Inhabited

structure Proof where
  existence : Bool
  siblings : List Nat
  other : Option OtherLeaf
deriving DecidableEq, Inhabited

def Proof.depth (p : Proof) : Nat := p.siblings.length

namespace Tree

/-- The bit of a key that decides the way at a level: zero to the left, one to the right. -/
def pathBit (key level : Nat) : Bool := key.testBit level

def leafHash (hasher : Hasher) (key value : Nat) : Except TreeError Nat :=
  (hasher.hash [key, value, 1]).mapError .hash

def middleHash (hasher : Hasher) (left right : Nat) : Except TreeError Nat :=
  (hasher.hash [left, right]).mapError .hash

/-- The hash above `hash` and the siblings, the first of which is at a level. -/
def climb (hasher : Hasher) (key : Nat) : Nat → List Nat → Nat → Except TreeError Nat
  | _, [], hash => .ok hash
  | level, sibling :: rest, hash => do
    let below ← climb hasher key (level + 1) rest hash
    if pathBit key level then middleHash hasher sibling below
    else middleHash hasher below sibling

end Tree

def rootFromProof (hasher : Hasher) (proof : Proof) (key value : Nat) :
    Except TreeError Nat := do
  let bottom ←
    if proof.existence then Tree.leafHash hasher key value
    else
      match proof.other with
      | some leaf => Tree.leafHash hasher leaf.key leaf.value
      | none => .ok 0
  Tree.climb hasher key 0 proof.siblings bottom

/-- Whether another leaf may stand in a proof: the proof denies the key, the leaf has another
key, and the two keys share their way. -/
def Proof.admits (proof : Proof) (key : Nat) (leaf : OtherLeaf) : Bool :=
  !proof.existence && leaf.key ≠ key
    && (List.range proof.siblings.length).all fun level =>
      Tree.pathBit leaf.key level = Tree.pathBit key level

def verifyProof (hasher : Hasher) (root : Nat) (proof : Proof) (key value : Nat) :
    Except TreeError Bool :=
  if (proof.other.map (proof.admits key)).getD true then
    (rootFromProof hasher proof key value).map (· = root)
  else .ok false

end LinkedCommit
