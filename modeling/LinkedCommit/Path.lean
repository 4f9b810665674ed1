import LinkedCommit.Value.Basic
import LinkedCommit.Json.Writer
/-!
# Paths and entries

A path names a place in a document: terms, which are the identifiers of properties, and indices
into properties with several values.  `Path.encode` is the tree key of a path, the hash of the
hashes of its terms and of its indices as they are.  An entry is a value at a path, with the
datatype that its literal had.
-/

set_option autoImplicit false

namespace LinkedCommit

inductive Segment where
  | index (value : Nat)
  | term (name : String)
deriving DecidableEq, Inhabited

namespace Segment

def term? : Segment → Option String
  | .term name => some name
  | .index _ => none

def index? : Segment → Option Nat
  | .index n => some n
  | .term _ => none

def display : Segment → String
  | .index n => s!"[{n}]"
  | .term name => name

def ofInt (n : Int) : Except PathError Segment :=
  if n < 0 then .error (.invalidSegment s!"negative index {n}") else .ok (.index n.toNat)

def ofJson : Json → Except PathError Segment
  | .string name => .ok (.term name)
  | .number (.integer n) =>
    if n < 0 then .error (.invalidSegment ("number " ++ toString n)) else .ok (.index n.toNat)
  | .number n => .error (.invalidSegment ("number " ++ n.text))
  | other => .error (.invalidSegment other.text)

def encode (hasher : Hasher) : Segment → Except HashError Nat
  | .term name => hasher.hashBytes (utf8Bytes name)
  | .index n => .ok n

end Segment

structure Path where
  segments : List Segment
deriving DecidableEq, Inhabited

namespace Path

def length (p : Path) : Nat := p.segments.length

def isEmpty (p : Path) : Bool := p.segments.isEmpty

def append (p : Path) (more : List Segment) : Path := ⟨p.segments ++ more⟩

def prepend (p : Path) (more : List Segment) : Path := ⟨more ++ p.segments⟩

def ofJson (items : List Json) : Except PathError Path :=
  (items.mapM Segment.ofJson).map (⟨·⟩)

def display (p : Path) : String := String.intercalate " / " (p.segments.map Segment.display)

def encode (hasher : Hasher) (p : Path) : Except EncodingError Nat :=
  if p.isEmpty then .error (.path .empty)
  else do
    let inputs ← (p.segments.mapM (Segment.encode hasher)).mapError .hash
    (hasher.hash inputs).mapError .hash

end Path

structure Entry where
  path : Path
  value : Value
  datatype : String
deriving DecidableEq, Inhabited

namespace Entry

def make (path : Path) (value : Value) (datatype : String) : Except PathError Entry :=
  if path.isEmpty then .error .empty else .ok ⟨path, value, datatype⟩

def encode (hasher : Hasher) (e : Entry) : Except EncodingError (Nat × Nat) := do
  let key ← e.path.encode hasher
  let value ← e.value.encode hasher
  return (key, value)

end Entry

end LinkedCommit
