import LinkedCommit.Expansion.Active
/-!
# Expanded documents

The expanded form of a document is a set of items: values, lists, and nodes with properties.
`Item.toJson` is the item in JSON, in which the values of a property stand in a fixed order, so
that two items are the same if their JSON texts are.
-/

set_option autoImplicit false

namespace LinkedCommit.Expansion

inductive Scalar where
  | bool (value : Bool)
  | number (value : JsonNumber)
  | string (value : String)
deriving DecidableEq, Inhabited

inductive ItemValue where
  | typed (scalar : Scalar) (datatype : Option String)
  | tagged (text : String) (language direction : Option String)
  | json (value : Json)
deriving Inhabited

def ItemValue.ofText (text : String) (language direction : Option String) : ItemValue :=
  if language.isSome || direction.isSome then .tagged text language direction
  else .typed (.string text) none

structure NodeOf (α : Type) where
  id : Option Sense
  types : List Sense
  graph : Option (List α)
  /-- Nodes that are part of the document at this place and not related to the node. -/
  included : List α
  properties : List (Sense × List α)
  reverse : Option (List (Sense × List α))
deriving Inhabited

inductive Item where
  | value (v : ItemValue) (index : Option String)
  | list (items : List Item) (index : Option String)
  | node (n : NodeOf Item) (index : Option String)
deriving Inhabited

abbrev Node := NodeOf Item

namespace NodeOf

variable {α : Type}

def empty : NodeOf α where
  id := none
  types := []
  graph := none
  included := []
  properties := []
  reverse := none

def isEmpty (n : NodeOf α) : Bool :=
  n.types.isEmpty && n.graph.isNone && n.included.isEmpty && n.properties.isEmpty
    && n.reverse.isNone

def isGraph (n : NodeOf α) : Bool := n.graph.isSome && { n with graph := none }.isEmpty

def addValues (property : Sense) (values : List α) :
    List (Sense × List α) → List (Sense × List α)
  | [] => [(property, values)]
  | (other, old) :: rest =>
    if other = property then (other, old ++ values) :: rest
    else (other, old) :: addValues property values rest

def insert (n : NodeOf α) (property : Sense) (values : List α) : NodeOf α :=
  { n with properties := addValues property values n.properties }

def insertReverse (n : NodeOf α) (property : Sense) (values : List α) : NodeOf α :=
  { n with reverse := some (addValues property values (n.reverse.getD [])) }

def ofGraph (items : List α) : NodeOf α := { empty with graph := some items }

end NodeOf

namespace Item

def reference (id : Option Sense) : Item := .node { NodeOf.empty with id } none

def index? : Item → Option String
  | .value _ index | .list _ index | .node _ index => index

def withIndex (index : Option String) : Item → Item
  | .value v _ => .value v index
  | .list items _ => .list items index
  | .node n _ => .node n index

def isValue : Item → Bool
  | .value _ _ => true
  | _ => false

def isNode : Item → Bool
  | .node _ _ => true
  | _ => false

def isGraph : Item → Bool
  | .node n _ => n.isGraph
  | _ => false

end Item

namespace Sense

def toJson : Sense → Json
  | .nothing => .null
  | .keyword s | .iri s | .blank s | .other s => .string s

end Sense

def Scalar.toJson : Scalar → Json
  | .bool b => .bool b
  | .number n => .number n
  | .string s => .string s

def memberOf (name : String) (value : Option Json) : List (String × Json) :=
  (value.map fun v => (name, v)).toList

def ItemValue.members : ItemValue → List (String × Json)
  | .typed s datatype => ("@value", s.toJson) :: memberOf "@type" (datatype.map Json.string)
  | .tagged s language direction =>
    ("@value", .string s) :: (memberOf "@language" (language.map Json.string)
      ++ memberOf "@direction" (direction.map Json.string))
  | .json v => [("@value", v), ("@type", .string "@json")]

/-- An array of values whose order does not count. -/
def unordered (values : List Json) : Json :=
  .array (values.mergeSort fun a b => decide (a.text ≤ b.text))

def memberText (s : Sense) : String := (s.text?).getD ""

mutual

def Item.toJson : Item → Json
  | .value v index => Json.ofPairs (memberOf "@index" (index.map Json.string) ++ v.members)
  | .list items index =>
    Json.ofPairs (memberOf "@index" (index.map Json.string)
      ++ [("@list", .array (itemsJson items))])
  | .node ⟨id, types, graph, included, properties, back⟩ index =>
    Json.ofPairs (memberOf "@index" (index.map Json.string)
      ++ memberOf "@id" (id.map Sense.toJson)
      ++ [("@type", .array (types.map Sense.toJson))]
      ++ graphJson graph
      ++ [("@included", unordered (itemsJson included))]
      ++ propertiesJson properties ++ reverseJson back)

def itemsJson : List Item → List Json
  | [] => []
  | item :: rest => item.toJson :: itemsJson rest

def graphJson : Option (List Item) → List (String × Json)
  | none => []
  | some items => [("@graph", unordered (itemsJson items))]

def propertiesJson : List (Sense × List Item) → List (String × Json)
  | [] => []
  | (property, items) :: rest =>
    (memberText property, unordered (itemsJson items)) :: propertiesJson rest

def reverseJson : Option (List (Sense × List Item)) → List (String × Json)
  | none => []
  | some properties => [("@reverse", Json.ofPairs (propertiesJson properties))]

end

def distinctAfter (seen : List String) : List Item → List Item
  | [] => []
  | item :: rest =>
    let text := item.toJson.text
    if seen.contains text then distinctAfter seen rest
    else item :: distinctAfter (text :: seen) rest

def distinct (items : List Item) : List Item := distinctAfter [] items

end LinkedCommit.Expansion
