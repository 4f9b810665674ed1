import LinkedCommit.Hash.Sha256
import LinkedCommit.Rdf.NQuads.Writer
/-!
# Canonical datasets

The labels of blank nodes are arbitrary.  Here they are replaced by labels that the statements
alone determine, and the statements are sorted (RDFC-1.0 with SHA-256).

A blank node is first hashed by the statements that mention it.  Nodes whose hash is their own are
labelled in the order of the hashes.  The others are told apart by the nodes that they are related
to: a node's hash then covers a path, the least of those that the possible orders of equal
neighbours give.  A path that is already longer than the least one is not followed to its end, and
more than six equal neighbours are refused.
-/

set_option autoImplicit false

namespace LinkedCommit.Canonical

/-- Gives labels in the order in which blank nodes are met. -/
structure Issuer where
  stem : String
  /-- The nodes that have labels, in order. -/
  issued : List String
deriving Inhabited

namespace Issuer

def label? (i : Issuer) (node : String) : Option String :=
  (i.issued.idxOf? node).map fun n => i.stem ++ toString n

def has (i : Issuer) (node : String) : Bool := i.issued.contains node

def issue (i : Issuer) (node : String) : Issuer :=
  if i.has node then i else { i with issued := i.issued ++ [node] }

end Issuer

def Issuer.canonical : Issuer := ⟨"_:c14n", []⟩

def Issuer.temporary : Issuer := ⟨"_:b", []⟩

def digest (text : String) : String :=
  let digits (b : UInt8) : List Char :=
    [Json.hexDigit (b.toNat / 16), Json.hexDigit (b.toNat % 16)]
  String.ofList ((Sha256.digest (utf8Bytes text)).flatMap digits)

structure Mention where
  position : String
  node : String

def mentionOf (position : String) : Term → Option Mention
  | .blank node => some ⟨position, node⟩
  | _ => none

def mentions (q : Quad) : List Mention :=
  [mentionOf "s" q.subject, mentionOf "o" q.object, q.graph.bind (mentionOf "g")].filterMap id

def relabel (f : String → String) (q : Quad) : Quad :=
  let term : Term → Term
    | .blank node => .blank (f node)
    | t => t
  ⟨term q.subject, q.predicate, term q.object, q.graph.map term⟩

structure Facts where
  mentioning : NameMap (List Quad)
  hashes : NameMap String

namespace Facts

/-- The hash of a node by its statements, in which it and the other nodes have fixed labels. -/
def firstHash (node : String) (quads : List Quad) : String :=
  let lines := quads.map fun q =>
    NQuads.line (relabel (fun other => if other = node then "_:a" else "_:z") q)
  digest (String.join (lines.mergeSort fun a b => decide (a ≤ b)))

def ofQuads (quads : List Quad) : Facts :=
  let mentioning := quads.foldl
    (fun map q => (mentions q).foldl
      (fun map m => NameMap.update m.node (fun old => old.getD [] ++ [q]) map) map)
    []
  ⟨mentioning, mentioning.map fun (node, quads) => (node, firstHash node quads)⟩

end Facts

structure Scope where
  facts : Facts
  canonical : Issuer

namespace Scope

/-- The hash of a neighbour: its position, the predicate, and its label or hash. -/
def relatedHash (scope : Scope) (issuer : Issuer) (q : Quad) (m : Mention) : String :=
  let predicate := if m.position = "g" then "" else NQuads.termText q.predicate
  let name := ((scope.canonical.label? m.node).or (issuer.label? m.node)).getD
    ((NameMap.get? scope.facts.hashes m.node).getD "")
  digest (m.position ++ predicate ++ name)

def neighbours (scope : Scope) (issuer : Issuer) (node : String) : NameMap (List String) :=
  let quads := (NameMap.get? scope.facts.mentioning node).getD []
  quads.foldl
    (fun map q =>
      ((mentions q).filter fun m => m.node ≠ node).foldl
        (fun map m =>
          NameMap.update (scope.relatedHash issuer q m) (fun old => old.getD [] ++ [m.node]) map)
        map)
    []

end Scope

def insertions {α : Type} (x : α) : List α → List (List α)
  | [] => [[x]]
  | y :: ys => (x :: y :: ys) :: (insertions x ys).map (y :: ·)

def orders {α : Type} : List α → List (List α)
  | [] => [[]]
  | x :: xs => (orders xs).flatMap (insertions x)

structure Trail where
  path : String
  issuer : Issuer

def isLess (a b : String) : Bool :=
  a.utf8ByteSize < b.utf8ByteSize || (a.utf8ByteSize = b.utf8ByteSize && decide (a < b))

def isHopeless (best : Option Trail) (path : String) : Bool :=
  (best.map fun t => isLess t.path path).getD false

/-- The hash of a node by its neighbours; none if there are too many equal ones. -/
abbrev NeighbourHash := String → Issuer → Option Trail

/-- Follows the neighbours in one order: the labels of those that have one, and those to look at
further.  None in the inner place says that the path is hopeless. -/
def nameAll (scope : Scope) (best : Option Trail) :
    Trail → List String → List String → Option (Trail × List String)
  | t, later, [] => some (t, later.reverse)
  | t, later, node :: rest =>
    match scope.canonical.label? node with
    | some label =>
      let path := t.path ++ label
      if isHopeless best path then none else nameAll scope best { t with path } later rest
    | none =>
      let issuer := t.issuer.issue node
      let path := t.path ++ (issuer.label? node).getD ""
      let later := if t.issuer.has node then later else node :: later
      if isHopeless best path then none else nameAll scope best ⟨path, issuer⟩ later rest

def hashAll (hash : NeighbourHash) (best : Option Trail) :
    Trail → List String → Option (Option Trail)
  | t, [] => some (some t)
  | t, node :: rest => do
    let found ← hash node t.issuer
    let label := ((t.issuer.issue node).label? node).getD ""
    let path := t.path ++ label ++ "<" ++ found.path ++ ">"
    if isHopeless best path then return none
    else hashAll hash best ⟨path, found.issuer⟩ rest

def tryOrder (scope : Scope) (hash : NeighbourHash) (issuer : Issuer) (best : Option Trail)
    (order : List String) : Option (Option Trail) :=
  match nameAll scope best ⟨"", issuer⟩ [] order with
  | none => some best
  | some (t, later) => do
    match ← hashAll hash best t later with
    | none => return best
    | some t =>
      match best with
      | none => return some t
      | some b => return if isLess t.path b.path then some t else best

def maxEqual : Nat := 6

/-- The hash of a node by its neighbours, as a path with the labels given on the way; the number
bounds how many nodes are looked at inside each other. -/
def neighbourHash (scope : Scope) : Nat → NeighbourHash
  | 0, _, _ => none
  | depth + 1, node, issuer => do
    let groups := scope.neighbours issuer node
    let whole ← groups.foldlM
      (fun (t : Trail) (hash, nodes) => do
        if maxEqual < nodes.length then none
        let best ← (orders nodes).foldlM (tryOrder scope (neighbourHash scope depth) t.issuer) none
        match best with
        | some b => return ⟨t.path ++ hash ++ b.path, b.issuer⟩
        | none => return t)
      ⟨"", issuer⟩
    return ⟨digest whole.path, whole.issuer⟩

def labelGroup (facts : Facts) (canonical : Issuer) (nodes : List String) : Option Issuer := do
  let scope : Scope := ⟨facts, canonical⟩
  let found ← (nodes.filter fun n => !canonical.has n).mapM fun n =>
    neighbourHash scope (facts.hashes.length + 1) n (Issuer.temporary.issue n)
  let sorted := found.mergeSort fun a b => decide (a.path ≤ b.path)
  return sorted.foldl (fun canonical t => t.issuer.issued.foldl Issuer.issue canonical) canonical

def labels (quads : List Quad) : Option Issuer := do
  let facts := Facts.ofQuads quads
  let groups : NameMap (List String) := facts.hashes.foldl
    (fun map (node, hash) => NameMap.update hash (fun old => old.getD [] ++ [node]) map) []
  let alone := groups.filterMap fun (_, nodes) =>
    match nodes with
    | [node] => some node
    | _ => none
  let shared := (groups.map Prod.snd).filter fun nodes => 1 < nodes.length
  shared.foldlM (labelGroup facts) (alone.foldl Issuer.issue Issuer.canonical)

def quadLt (a b : Quad) : Bool :=
  List.lex (NQuads.quadTexts a) (NQuads.quadTexts b) fun s t => decide (s < t)

def quads? (quads : List Quad) : Option (List Quad) := do
  let issuer ← labels quads
  let relabelled := quads.map (relabel fun node => (issuer.label? node).getD node)
  return relabelled.mergeSort fun a b => !quadLt b a

end LinkedCommit.Canonical
