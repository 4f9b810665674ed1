import LinkedCommit.Expansion.Item
import LinkedCommit.Json.Canonical
import LinkedCommit.Rdf.Dataset
import LinkedCommit.Rdf.LanguageTag
/-!
# The statements of an expanded document

Every property of a node is a statement about it; a list is a chain of cells, and the items of a
graph are in the graph named by its node.  What is no identifier has no statements.  Nodes
without an identifier and the cells of lists are blank nodes with labels of their own.
-/

set_option autoImplicit false

namespace LinkedCommit.Expansion

/-! ## Literals -/

/-- Floating-point numbers as literals: one digit, a point, at least one digit, an exponent. -/
def literalDoubleLayout : NumberLayout :=
  { canonicalDoubleLayout with tie := .even, signedZero := false }

/-- The integer that a number is written as, if it is written as one of 64 bits. -/
def wholeNumber? (n : JsonNumber) : Option Int :=
  match Decimal.signed? n.canonicalText.toList with
  | some i => if -(twoTo 63 : Int) ≤ i ∧ i < twoTo 63 then some i else none
  | none => none

def numberLiteral (n : JsonNumber) (datatype : Option String) : Literal :=
  match wholeNumber? n with
  | some i =>
    if datatype = some Xsd.double then floating else ⟨toString i, datatype.getD Xsd.integer, none⟩
  | none => floating
where
  floating : Literal :=
    ⟨n.double.render literalDoubleLayout, datatype.getD Xsd.double, none⟩

/-- The literal of a value; a direction is not told, and a text in no well-formed language not at
all. -/
def ItemValue.literal? : ItemValue → Option Literal
  | .typed (.bool b) datatype =>
    some ⟨if b then "true" else "false", datatype.getD Xsd.boolean, none⟩
  | .typed (.number n) datatype => some (numberLiteral n datatype)
  | .typed (.string s) datatype => some ⟨s, datatype.getD Xsd.string, none⟩
  | .tagged s (some tag) _ =>
    if isLanguageTag tag then some ⟨s, Rdf.langString, some tag⟩ else none
  | .tagged s none _ => some ⟨s, Xsd.string, none⟩
  | .json v => some ⟨v.canonicalText, Rdf.json, none⟩

/-! ## Nodes -/

abbrev Fresh := StateM Nat

def freshNode : Fresh Term := do
  let n ← get
  set (n + 1)
  return .blank ("_:n" ++ toString n)

def Sense.term? : Sense → Option Term
  | .iri s => some (.iri s)
  | .blank label => some (.blank ("_:u" ++ (label.drop 2).toString))
  | _ => none

def nodeTerm (id : Option Sense) : Fresh (Option Term) :=
  match id with
  | some s => return s.term?
  | none => do return some (← freshNode)

inductive Place where
  | defaultGraph
  | named (graph : Term)
  | nowhere

def statement (place : Place) (subject : Option Term) (predicate : String)
    (object : Option Term) : List Quad :=
  match place, subject, object with
  | .nowhere, _, _ | _, none, _ | _, _, none => []
  | .defaultGraph, some s, some o => [⟨s, .iri predicate, o, none⟩]
  | .named g, some s, some o => [⟨s, .iri predicate, o, some g⟩]

structure Told where
  term : Option Term
  quads : List Quad

def propertyStatements (place : Place) (subject : Option Term) (property : Sense)
    (values : List Told) : List Quad :=
  values.flatMap fun v =>
    v.quads ++ match property with
      | .iri p => statement place subject p v.term
      | _ => []

def cells (place : Place) : List Told → Fresh Told
  | [] => return ⟨some (.iri Rdf.nil), []⟩
  | v :: rest => do
    let below ← cells place rest
    if v.term.isNone then return ⟨below.term, v.quads ++ below.quads⟩
    else
      let cell := some (← freshNode)
      return ⟨cell, v.quads ++ statement place cell Rdf.first v.term
        ++ statement place cell Rdf.rest below.term ++ below.quads⟩

mutual

def Item.tell (place : Place) : Item → Fresh Told
  | .value v _ => return ⟨v.literal?.map .literal, []⟩
  | .list items _ => do cells place (← tellItems place items)
  | .node ⟨id, types, graph, included, properties, back⟩ _ => do
    let self ← nodeTerm id
    let typed := types.flatMap fun t => statement place self Rdf.type t.term?
    let inGraph ← tellGraph ((self.map Place.named).getD .nowhere) graph
    let others ← tellItems place included
    let related ← tellProperties place self properties
    let relating ← tellReverse place self back
    return ⟨self, typed ++ inGraph ++ others.flatMap Told.quads ++ related ++ relating⟩

def tellItems (place : Place) : List Item → Fresh (List Told)
  | [] => return []
  | item :: rest => do
    let first ← item.tell place
    let others ← tellItems place rest
    return first :: others

def tellGraph (place : Place) : Option (List Item) → Fresh (List Quad)
  | none => return []
  | some items => do return (← tellItems place items).flatMap Told.quads

def tellProperties (place : Place) (self : Option Term) :
    List (Sense × List Item) → Fresh (List Quad)
  | [] => return []
  | (property, items) :: rest => do
    let first := propertyStatements place self property (← tellItems place items)
    let others ← tellProperties place self rest
    return first ++ others

def tellReverse (place : Place) (self : Option Term) :
    Option (List (Sense × List Item)) → Fresh (List Quad)
  | none => return []
  | some properties => tellRelating place self properties

def tellRelating (place : Place) (self : Option Term) :
    List (Sense × List Item) → Fresh (List Quad)
  | [] => return []
  | (property, items) :: rest => do
    let relating := (← tellItems place items).flatMap fun v =>
      propertyStatements place v.term property [⟨self, v.quads⟩]
    let others ← tellRelating place self rest
    return relating ++ others

end

def statements (items : List Item) : List Quad :=
  let told := ((tellItems .defaultGraph items).run 0).1
  (told.flatMap Told.quads).eraseDups

end LinkedCommit.Expansion
