import LinkedCommit.Serial.Value
import LinkedCommit.Number.Decimal
import LinkedCommit.Tree.Proof
/-!
# Serialized proofs

A proof is serialized as the record of its claim, its siblings and the other leaf, if there is
one.  Field elements are decimal text.
-/

set_option autoImplicit false

namespace LinkedCommit

namespace Serial

def elementText (n : Nat) : Json := .string (toString n)

/-- A field element of the other leaf: an integer that is not negative. -/
def leafElement? (j : Json) : Option Nat :=
  match j with
  | .string s => (Decimal.grouped? s.toList).bind fun n => if 0 ≤ n then some n.toNat else none
  | _ => none

/-- A sibling: digits after an optional plus sign. -/
def sibling? (j : Json) : Option Nat :=
  match j with
  | .string s => Decimal.groupedNat? s.toList
  | _ => none

end Serial

namespace OtherLeaf

def toJson (leaf : OtherLeaf) : Json :=
  .object [("key", Serial.elementText leaf.key), ("value", Serial.elementText leaf.value)]

def ofJson? (j : Json) : Option OtherLeaf :=
  match Serial.fields? ["key", "value"] 0 j with
  | some [some key, some value] => do
    return ⟨← Serial.leafElement? key, ← Serial.leafElement? value⟩
  | _ => none

end OtherLeaf

namespace Proof

def toJson (p : Proof) : Json :=
  .object
    [("existence", .bool p.existence),
     ("node_aux", (p.other.map OtherLeaf.toJson).getD .null),
     ("siblings", .array (p.siblings.map Serial.elementText))]

def siblingsOfJson? : Json → Option (List Nat)
  | .array items => items.mapM Serial.sibling?
  | _ => none

def otherOfJson? : Json → Option (Option OtherLeaf)
  | .null => some none
  | j => (OtherLeaf.ofJson? j).map some

/-- The proof of a serialized form.  In an object the other leaf may be missing. -/
def ofJson? (j : Json) : Option Proof :=
  let optional := match j with
    | .object _ => 1
    | _ => 0
  match Serial.fields? ["existence", "siblings", "node_aux"] optional j with
  | some [some (.bool existence), some siblings, other] => do
    let siblings ← siblingsOfJson? siblings
    let other ← otherOfJson? (other.getD .null)
    return ⟨existence, siblings, other⟩
  | _ => none

end Proof

end LinkedCommit
