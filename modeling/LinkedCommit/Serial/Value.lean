import LinkedCommit.Json.Basic
import LinkedCommit.Value.Basic
/-!
# Serialized values

A record is serialized as an object, whose members may stand in any order among others that
are ignored, or as an array of its fields in order.

A value is serialized as the record of its kind and its content: an integer of 64 bits as a
number, one of any size as decimal text, and a timestamp as its RFC 3339 text.
-/

set_option autoImplicit false

namespace LinkedCommit

namespace Serial

/-- The fields of a record in the order of `names`; the last `optional` of them may be
missing. -/
def fields? (names : List String) (optional : Nat) : Json → Option (List (Option Json))
  | .object members =>
    let found := names.map (NameMap.get? members)
    if (found.take (names.length - optional)).all Option.isSome then some found else none
  | .array items =>
    if names.length - optional ≤ items.length ∧ items.length ≤ names.length then
      some (items.map some ++ List.replicate (names.length - items.length) none)
    else none
  | _ => none

inductive ValueKind where
  | int
  | bool
  | string
  | bigInt
  | time
deriving DecidableEq

def ValueKind.name : ValueKind → String
  | .int => "int"
  | .bool => "bool"
  | .string => "string"
  | .bigInt => "big_int"
  | .time => "time"

def ValueKind.ofName? (name : String) : Option ValueKind :=
  if name = "int" then some .int
  else if name = "bool" then some .bool
  else if name = "string" then some .string
  else if name = "big_int" then some .bigInt
  else if name = "time" then some .time
  else none

/-- A kind by its name, or by an object that has the name and nothing under it. -/
def ValueKind.ofJson? : Json → Option ValueKind
  | .string name => ofName? name
  | .object [(name, .null)] => ofName? name
  | _ => none

def content? : ValueKind → Json → Option Value
  | .int, .number (.integer n) => (int64? n).map .int
  | .bool, .bool b => some (.bool b)
  | .string, .string s => some (.string s)
  | .bigInt, .string s => (Decimal.grouped? s.toList).map .bigInt
  | .time, .string s => (Timestamp.readLenient? s).map .time
  | _, _ => none

end Serial

namespace Value

def toJson (v : Value) : Json :=
  let record (kind : Serial.ValueKind) (content : Json) : Json :=
    .object [("kind", .string kind.name), ("value", content)]
  match v with
  | .int n => record .int (Json.int n.toInt)
  | .bool b => record .bool (.bool b)
  | .string s => record .string (.string s)
  | .bigInt n => record .bigInt (.string (toString n))
  | .time t => record .time (.string (t.text .zulu))

def ofJson? (j : Json) : Option Value :=
  match Serial.fields? ["kind", "value"] 0 j with
  | some [some kind, some content] =>
    (Serial.ValueKind.ofJson? kind).bind (Serial.content? · content)
  | _ => none

end Value

end LinkedCommit
