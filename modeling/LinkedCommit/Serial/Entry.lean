import LinkedCommit.Serial.Value
import LinkedCommit.Path
/-!
# Serialized paths and entries

A path is serialized as the array of its segments, terms as strings and indices as numbers; an
entry as the record of its path, its value and its datatype, which may be missing.
-/

set_option autoImplicit false

namespace LinkedCommit

namespace Segment

def toJson : Segment → Json
  | .index n => Json.int n
  | .term name => .string name

def ofJson? : Json → Option Segment
  | .string name => some (.term name)
  | .number (.integer n) => if 0 ≤ n then some (.index n.toNat) else none
  | _ => none

end Segment

namespace Path

def toJson (p : Path) : Json := .array (p.segments.map Segment.toJson)

def ofJson? : Json → Option Path
  | .array items => (items.mapM Segment.ofJson?).map (⟨·⟩)
  | _ => none

end Path

namespace Entry

def toJson (e : Entry) : Json :=
  .object [("datatype", .string e.datatype), ("path", e.path.toJson), ("value", e.value.toJson)]

/-- The entry of a serialized form; it may have an empty path. -/
def ofJson? (j : Json) : Option Entry :=
  match Serial.fields? ["path", "value", "datatype"] 1 j with
  | some [some path, some value, datatype] => do
    let path ← Path.ofJson? path
    let value ← Value.ofJson? value
    let datatype ← (datatype.getD (.string "")).string?
    return ⟨path, value, datatype⟩
  | _ => none

end Entry

end LinkedCommit
