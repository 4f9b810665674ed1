import LinkedCommit.Commitment.Extract
import LinkedCommit.Document.Compact
import LinkedCommit.Document.Place
import LinkedCommit.Json.Reader
import LinkedCommit.Tree.Sparse
/-!
# Commitments

A commitment is a document together with the tree of its entries: its root stands for all that
the document says, and single entries can be proved against it.  `Commitment.ofDocument` reads
the document, builds its compacted view, has a processor make a dataset of it, and inserts the
entries of the dataset one by one.

A path may be asked for its entry, for a proof that it is there or not, or for the raw value that
the compacted view has at the path.
-/

set_option autoImplicit false

namespace LinkedCommit

abbrev Processor := Loader → Json → Except DocumentError Dataset

structure CommitOptions where
  hasher : Hasher
  loader : Loader
  processor : Processor
  safeMode : Bool
  tree : SparseTree

structure Commitment where
  source : List UInt8
  compacted : Json
  tree : SparseTree
  /-- The entries by the decimal digits of their keys. -/
  entries : List (String × Entry)
  hasher : Hasher
  safeMode : Bool
  loader : Loader

namespace Commitment

def readDocument (source : List UInt8) : Except CommitError Json :=
  match Json.parseBytes? source with
  | some json => .ok json
  | none => .error (.document (.malformed .notJson))

def putEntry (digits : String) (entry : Entry) : List (String × Entry) → List (String × Entry)
  | [] => [(digits, entry)]
  | (other, old) :: rest =>
    if other = digits then (digits, entry) :: rest else (other, old) :: putEntry digits entry rest

def addEntry (hasher : Hasher) (state : SparseTree × List (String × Entry)) (entry : Entry) :
    Except CommitError (SparseTree × List (String × Entry)) := do
  let (key, value) ← (entry.encode hasher).mapError .encoding
  match state.1.insert key value with
  | (.ok (), tree) => return (tree, putEntry (toString key) entry state.2)
  | (.error e, _) => throw (.tree e)

def ofDocument (source : List UInt8) (options : CommitOptions) :
    Except CommitError Commitment := do
  let document ← readDocument source
  let compacted ← (compactDocument options.loader options.safeMode document).mapError .document
  let dataset ← (options.processor options.loader document).mapError .document
  let extracted ← extractEntries dataset options.hasher.prime
  let (tree, entries) ← extracted.foldlM (addEntry options.hasher) (options.tree, [])
  return {
    source, compacted, tree, entries
    hasher := options.hasher, safeMode := options.safeMode, loader := options.loader }

def root (c : Commitment) : Nat := c.tree.root

def key (c : Commitment) (path : Path) : Except CommitError Nat :=
  (path.encode c.hasher).mapError .encoding

def entryOfKey? (c : Commitment) (key : Nat) : Option Entry :=
  c.entries.lookup (toString key)

def entry (c : Commitment) (path : Path) : Except CommitError Entry := do
  let key ← c.key path
  match c.entryOfKey? key with
  | some entry => return entry
  | none => throw (.entryNotFound path.display)

/-- A proof that there is an entry at a path, with its value, or that there is none. -/
def proof (c : Commitment) (path : Path) : Except CommitError (Proof × Option Value) := do
  let key ← c.key path
  let (proof, _) ← (c.tree.generateProof key).mapError .tree
  if !proof.existence then return (proof, none)
  else
    match c.entryOfKey? key with
    | some entry => return (proof, some entry.value)
    | none => throw (.broken (.entryAbsent path.display))

def unwrapGraph : Json → Json
  | .object [("@graph", graph)] => graph
  | json => json

/-- The member or item of a value that a segment names; `walked` is the path to the value. -/
def stepInto (json : Json) (walked : List Segment) (s : Segment) : Except CommitError Json :=
  let here := (Path.mk walked).display
  let there := (Path.mk (walked ++ [s])).display
  match s, unwrapGraph json with
  | .term name, .object members =>
    match NameMap.get? members name with
    | some value => .ok value
    | none => .error (.document (.missing (.value there)))
  | .term _, _ => .error (.document (.shape (.expectedObject here)))
  | .index i, .array items =>
    match items[i]? with
    | some value => .ok value
    | none => .error (.document (.missing (.item there)))
  | .index _, _ => .error (.document (.shape (.expectedArray here)))

def descend (json : Json) (walked : List Segment) : List Segment → Except CommitError Json
  | [] => .ok json
  | s :: rest => do
    let below ← stepInto json walked s
    descend below (walked ++ [s]) rest

/-- The value of the compacted view at a path; of a value object, the value alone. -/
def rawValue (c : Commitment) (path : Path) : Except CommitError Json := do
  let found := unwrapGraph (← descend c.compacted [] path.segments)
  return (found.member? "@value").getD found

def resolvePlace (c : Commitment) (dotted : String) : Except CommitError Path := do
  let document ← readDocument c.source
  (pathFromDocument c.loader document dotted).mapError .document

end Commitment

end LinkedCommit
