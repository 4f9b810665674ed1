import LinkedCommit.Commitment.Relationship
import LinkedCommit.Path
import LinkedCommit.Value.Datatype
/-!
# Entries of a dataset

Every statement whose object is a literal or an identifier is an entry: its path is that of the
statement, its value that of the object.  The values of a property with several statements are
numbered.  A blank node is no value; it must be the parent of something.
-/

set_option autoImplicit false

namespace LinkedCommit

def validateQuad (name : String) (q : Quad) : Except CommitError Unit := do
  match q.graph with
  | none => if name ≠ defaultGraph then throw (.dataset (.noGraphNode name))
  | some node =>
    if name = defaultGraph then throw (.dataset (.defaultGraphHasNode node))
    else if node ≠ .blank name then throw (.dataset (.otherGraphNode name node))
  discard q.predicateIri

def validateDataset (d : Dataset) : Except CommitError Unit :=
  d.graphs.forM fun (name, quads) => do
    if name.isEmpty then throw (.dataset .emptyGraphName)
    quads.forM (validateQuad name)

namespace Extract

/-- The value of an object and its datatype; none for a blank node that is a parent. -/
def objectValue (r : Relationships) (prime : Nat) (id : QuadId) (q : Quad) :
    Except CommitError (Option (Value × String)) :=
  match q.object with
  | .literal l =>
    ((Value.decode l.datatype l.value prime).map fun v => some (v, l.datatype)).mapError
      fun e => .encoding (.value e)
  | .iri name => .ok (some (.string name, ""))
  | .blank label =>
    if r.hasChildren id then .ok none
    else .error (.unsupported (.blankObject q.subject q.predicate label))

/-- The entries of the statements of a graph; `keys` are the properties of all its statements and
`valued` those of the entries so far. -/
def graphEntries (d : Dataset) (r : Relationships) (prime : Nat) (keys : List PropertyKey) :
    List PropertyKey → List (QuadId × Quad) → Except CommitError (List Entry)
  | _, [] => .ok []
  | valued, (id, q) :: rest => do
    match ← objectValue r prime id q with
    | none => graphEntries d r prime keys valued rest
    | some (value, datatype) =>
      let key ← PropertyKey.ofQuad q id.graph
      let position := if 1 < keys.count key then some (valued.count key) else none
      let path ← r.path d id position
      let entry ← (Entry.make path value datatype).mapError fun e => .encoding (.path e)
      let others ← graphEntries d r prime keys (key :: valued) rest
      return entry :: others

end Extract

def extractEntries (d : Dataset) (prime : Nat) : Except CommitError (List Entry) := do
  validateDataset d
  let r ← Relationships.ofDataset d
  let entries ← d.graphs.mapM fun (name, quads) => do
    let keys ← quads.mapM fun q => PropertyKey.ofQuad q name
    Extract.graphEntries d r prime keys [] (identified name quads)
  return entries.flatten

end LinkedCommit
