import LinkedCommit.Commitment.Error
import LinkedCommit.Path
/-!
# Parents and children

The statements of a dataset hang together: the parent of a statement is the statement whose
object is its subject, or, where there is none and it belongs to a blank graph, the statement
whose object is that graph.  No statement may have two parents.

The children of a property are numbered in the order in which they are first met, graph by graph.
The path of a statement climbs from parent to parent, and a number stands in it wherever the
parent's property has several children.
-/

set_option autoImplicit false

namespace LinkedCommit

inductive Resource where
  | iri (name : String)
  | blank (label : String)
deriving DecidableEq, Inhabited

def Resource.ofTerm? : Term → Option Resource
  | .iri name => some (.iri name)
  | .blank label => some (.blank label)
  | .literal _ => none

structure PropertyKey where
  subject : Resource
  predicate : String
  graph : String
deriving DecidableEq, Inhabited

def Quad.subjectResource (q : Quad) : Except CommitError Resource :=
  match Resource.ofTerm? q.subject with
  | some r => .ok r
  | none => .error (.unsupported (.literalSubject q.subject))

def Quad.predicateIri (q : Quad) : Except CommitError String :=
  match q.predicate.iri? with
  | some name => .ok name
  | none => .error (.dataset (.predicateNotIri q.predicate))

def PropertyKey.ofQuad (q : Quad) (graph : String) : Except CommitError PropertyKey := do
  let subject ← q.subjectResource
  let predicate ← q.predicateIri
  return ⟨subject, predicate, graph⟩

def Dataset.lookup (d : Dataset) (id : QuadId) : Except CommitError Quad :=
  match (d.graph? id.graph).bind fun quads => quads[id.index]? with
  | some q => .ok q
  | none => .error (.broken (.quadAbsent id))

def identified (graph : String) (quads : List Quad) : List (QuadId × Quad) :=
  quads.zipIdx.map fun (q, i) => (⟨graph, i⟩, q)

def Dataset.identified (d : Dataset) : List (QuadId × Quad) :=
  d.graphs.flatMap fun (graph, quads) => LinkedCommit.identified graph quads

/-- The parents of statements, and the children of properties in their order. -/
structure Relationships where
  parents : List (QuadId × QuadId)
  children : List (PropertyKey × List Resource)
deriving Inhabited

namespace Relationships

def empty : Relationships := ⟨[], []⟩

def parent? (r : Relationships) (id : QuadId) : Option QuadId :=
  (r.parents.find? fun (child, _) => child = id).map Prod.snd

def hasChildren (r : Relationships) (id : QuadId) : Bool :=
  r.parents.any fun (_, parent) => parent = id

def children? (r : Relationships) (key : PropertyKey) : Option (List Resource) :=
  (r.children.find? fun (other, _) => other = key).map Prod.snd

def childIndex? (r : Relationships) (key : PropertyKey) (child : Resource) : Option Nat :=
  (r.children? key).bind fun children => children.idxOf? child

def addChild (key : PropertyKey) (child : Resource) :
    List (PropertyKey × List Resource) → List (PropertyKey × List Resource)
  | [] => [(key, [child])]
  | (other, children) :: rest =>
    if other = key then
      (other, if children.contains child then children else children ++ [child]) :: rest
    else (other, children) :: addChild key child rest

/-- The statements that may be the parent of a statement: those of its graph whose object is its
subject, or else those whose object is its graph. -/
def candidates (d : Dataset) (id : QuadId) (q : Quad) (subject : Resource) : List QuadId :=
  let siblings := LinkedCommit.identified id.graph ((d.graph? id.graph).getD [])
  let near := siblings.filter fun (other, c) =>
    other.index ≠ id.index && Resource.ofTerm? c.object = some subject
  if !near.isEmpty then near.map Prod.fst
  else
    match q.graph with
    | some (.blank label) =>
      (d.identified.filter fun (_, c) => c.object = .blank label).map Prod.fst
    | _ => []

def findParent (d : Dataset) (id : QuadId) (q : Quad) : Except CommitError (Option QuadId) := do
  let subject ← q.subjectResource
  match candidates d id q subject with
  | [] => return none
  | [only] => return some only
  | first :: second :: _ => throw (.multipleParents id first second)

def add (d : Dataset) (r : Relationships) (item : QuadId × Quad) :
    Except CommitError Relationships := do
  let (id, q) := item
  match ← findParent d id q with
  | none => return r
  | some parentId =>
    let parent ← d.lookup parentId
    let key ← PropertyKey.ofQuad parent parentId.graph
    let child ← q.subjectResource
    return ⟨r.parents ++ [(id, parentId)], addChild key child r.children⟩

def ofDataset (d : Dataset) : Except CommitError Relationships :=
  d.identified.foldlM (add d) empty

/-- The segments from the top down to the property that a statement is a child of: a step for each
parent.  The number bounds the parents; more of them form a cycle. -/
def climb (r : Relationships) (d : Dataset) (start : QuadId) :
    Nat → QuadId → Quad → List Segment → Except CommitError (List Segment)
  | fuel, id, q, below =>
    match r.parent? id with
    | none => .ok below
    | some parentId =>
      match fuel with
      | 0 => .error (.broken (.parentCycle start))
      | fuel + 1 => do
        let parent ← d.lookup parentId
        let key ← PropertyKey.ofQuad parent parentId.graph
        match r.children? key with
        | none => throw (.broken .noChildList)
        | some children =>
          let child ← q.subjectResource
          match children.idxOf? child with
          | none => throw (.broken .childAbsent)
          | some position =>
            let number := if 1 < children.length then [Segment.index position] else []
            let predicate ← parent.predicateIri
            climb r d start fuel parentId parent (.term predicate :: number ++ below)

/-- The path of a statement, which ends with its number among the values of its property if it is
given. -/
def path (r : Relationships) (d : Dataset) (id : QuadId) (index : Option Nat) :
    Except CommitError Path := do
  let q ← d.lookup id
  let predicate ← q.predicateIri
  let last := .term predicate :: (index.map Segment.index).toList
  return ⟨← climb r d id r.parents.length id q last⟩

end Relationships

end LinkedCommit
