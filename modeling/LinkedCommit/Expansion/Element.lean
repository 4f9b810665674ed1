import LinkedCommit.Expansion.Apply
import LinkedCommit.Expansion.Value
/-!
# Expanding documents

The expansion of an element depends on the active context and on where it stands.  The context
changes on the way down: by the term that an element stands under, by its own `@context`, and by
its types, whose contexts hold for the node alone.  Members without an identifier are left out.

`expandElement` is defined by what is done with the elements below; `expandDocument` ties the
knot, as deep as the document is.
-/

set_option autoImplicit false

namespace LinkedCommit.Expansion

inductive Expanded where
  | nothing
  | one (item : Item)
  | many (items : List Item)
deriving Inhabited

namespace Expanded

def items : Expanded → List Item
  | .nothing => []
  | .one item => [item]
  | .many items => items

def isNothing : Expanded → Bool
  | .nothing => true
  | _ => false

def isMany : Expanded → Bool
  | .many _ => true
  | _ => false

def isList : Expanded → Bool
  | .one (.list _ _) => true
  | _ => false

end Expanded

/-- A way to expand an element; the flag says that it stands in a map of nodes. -/
abbrev Expand := Active → Position → Bool → Json → Except ExpansionError Expanded

def plainMode : Mode := ⟨false, true⟩

def termMode : Mode := ⟨true, true⟩

def typeMode : Mode := ⟨false, false⟩

def applyOwn (a : Active) (mode : Mode) (d : Option Definition) : Except ExpansionError Active :=
  match d.bind Definition.context with
  | some json => a.apply mode json
  | none => .ok a

def membersOf (a : Active) (m : Json.Members) : List MemberOf :=
  m.map fun (key, value) => ⟨key, a.sense key false true, value⟩

/-! ## Nodes -/

structure Building where
  node : Node
  index : Option String
  likeValue : Bool

structure NodeScope where
  active : Active
  typed : Active
  expand : Expand

def hasKeyword (n : Node) (keyword : String) : Bool :=
  (keyword = "@id" && n.id.isSome) || (keyword = "@graph" && n.graph.isSome)
    || (keyword = "@reverse" && n.reverse.isSome)

def typeSense (typed : Active) : Json → Except ExpansionError Sense
  | .string s =>
    match typed.sense s true true with
    | .nothing | .keyword _ => .error (.element .type)
    | found => .ok found
  | _ => .error (.element .type)

def onlyNodes (fault : ElementFault) (items : List Item) : Except ExpansionError (List Item) :=
  if items.all Item.isNode then .ok items else .error (.element fault)

def addRelated (n : Node) (property : Sense) (back : Bool) (items : List Item) :
    Except ExpansionError Node := do
  if back then return n.insertReverse property (← onlyNodes .reverseProperty items)
  else return n.insert property items

/-- Whether a property of a sense is kept: one that is no identifier has to have a colon. -/
def isProperty : Sense → Bool
  | .iri _ | .blank _ => true
  | .other s => s.toList.contains ':'
  | _ => false

def addReverse (scope : NodeScope) (n : Node) (members : List MemberOf) :
    Except ExpansionError Node :=
  members.foldlM
    (fun n m => do
      match m.sense with
      | .keyword _ => throw (.element .reverseMap)
      | property =>
        if isProperty property then
          let items := (← scope.expand scope.active (.term m.key) false m.value).items
          let twice := ((scope.active.term? m.key).map Definition.isReverse).getD false
          addRelated n property (!twice) items
        else return n)
    n

def addKeyword (scope : NodeScope) (b : Building) (keyword : String) (value : Json) :
    Except ExpansionError Building := do
  if hasKeyword b.node keyword then throw (.element (.collidingKeywords keyword))
  match keyword with
  | "@id" =>
    match value with
    | .string s =>
      return { b with node := { b.node with id := (scope.active.sense s true false).node? } }
    | _ => throw (.element .id)
  | "@type" =>
    let types ← (listed value).mapM (typeSense scope.typed)
    return { b with node := { b.node with types := b.node.types ++ types } }
  | "@graph" =>
    let items := (← scope.expand scope.active .graph false value).items
    return { b with node := { b.node with graph := some (distinct items) } }
  | "@included" =>
    let items := (← scope.expand scope.active .included false value).items
    let nodes ← onlyNodes .included items
    return { b with node := { b.node with included := distinct (b.node.included ++ nodes) } }
  | "@index" => return { b with index := some (← readIndex value) }
  | "@reverse" =>
    match value with
    | .object m =>
      let node ← addReverse scope b.node (membersOf scope.active m)
      return { b with node := { node with reverse := some (node.reverse.getD []) } }
    | _ => throw (.element .reverseValue)
  | "@language" | "@direction" => return { b with likeValue := true }
  | _ => return b

def languageItems (a : Active) (d : Option Definition) (m : Json.Members) :
    Except ExpansionError (List Item) := do
  let direction := slotOr (d.map Definition.direction) a.direction
  let items ← m.mapM fun (key, value) => do
    let language := if a.sense key false true = .keyword "@none" then none else some key
    (listed value).filterMapM fun item =>
      match item with
      | .null => .ok none
      | .string s => .ok (some (.value (.ofText s language direction) none))
      | _ => .error (.element .languageMap)
  return items.flatten

def mapContext (a : Active) (d : Definition) (key : String) : Except ExpansionError Active := do
  let outer := if d.has .type || d.has .id then a.previous.getD a else a
  if d.has .type then applyOwn outer plainMode (outer.term? key) else return outer

def keyed (a : Active) (d : Definition) (key : String) (found : Sense) (item : Item) :
    Except ExpansionError Item := do
  if found = .keyword "@none" then return item
  if d.has .index then
    match d.index with
    | none => return if item.index?.isNone then item.withIndex (some key) else item
    | some property =>
      match item with
      | .node n index =>
        return .node
          (n.insert (a.sense property false true) [scalarItem a (.term property) (.string key)])
          index
      | _ => throw (.element .valueObject)
  else
    match item with
    | .node n index =>
      if d.has .id && n.id.isNone then
        return .node { n with id := (a.sense key true false).node? } index
      else if d.has .type then
        match found with
        | .nothing | .keyword _ => throw (.element .type)
        | type => return .node { n with types := type :: n.types } index
      else return item
    | _ => return item

def asGraph (item : Item) : Item := .node (NodeOf.ofGraph [item]) none

def mapItems (scope : NodeScope) (term : String) (d : Definition) (m : Json.Members) :
    Except ExpansionError (List Item) := do
  let items ← m.mapM fun (key, value) => do
    let inner ← mapContext scope.active d key
    let found := scope.active.sense key false true
    (← scope.expand inner (.term term) true value).items.mapM fun item =>
      keyed scope.active d key found
        (if d.has .graph && !item.isGraph then asGraph item else item)
  return items.flatten

def termValue (scope : NodeScope) (term : String) (d : Definition) (value : Json) :
    Except ExpansionError Expanded := do
  if d.coercion = some .json then return .one (.value (.json value) none)
  match value with
  | .object m =>
    if d.has .language then return .many (← languageItems scope.active (some d) m)
    else if d.has .index || d.has .type || d.has .id then
      return .many (← mapItems scope term d m)
    else scope.expand scope.active (.term term) false value
  | _ => scope.expand scope.active (.term term) false value

def contained (d : Definition) (e : Expanded) : List Item :=
  let items := if d.has .list && !e.isList then [Item.list e.items none] else e.items
  if d.has .graph && !d.has .id && !d.has .index then items.map asGraph else items

def addProperty (scope : NodeScope) (b : Building) (m : MemberOf) :
    Except ExpansionError Building := do
  let d := (scope.active.term? m.key).getD .empty
  let e ← termValue scope m.key d m.value
  if e.isNothing then return b
  return { b with node := ← addRelated b.node m.sense d.isReverse (contained d e) }

def nestedMembers (a : Active) (value : Json) : Except ExpansionError (List (List MemberOf)) :=
  (listed value).mapM fun v =>
    match v with
    | .object m =>
      let members := membersOf a m
      if members.any fun n => n.sense = .keyword "@value" then .error (.element .nest)
      else .ok members
    | _ => .error (.element .nest)

/-- Takes the members of a node into account, and those of nested objects with them; the number
bounds how deep objects are nested. -/
def addMembers : Nat → NodeScope → Building → List MemberOf → Except ExpansionError Building
  | 0, _, _, _ => .error (.element .nesting)
  | depth + 1, scope, b, members =>
    members.foldlM
      (fun b m =>
        match m.sense with
        | .keyword "@nest" => do
          let active ← applyOwn scope.active termMode (scope.active.term? m.key)
          (← nestedMembers active m.value).foldlM (addMembers depth { scope with active }) b
        | .keyword keyword => addKeyword scope b keyword m.value
        | property => if isProperty property then addProperty scope b m else .ok b)
      b

def nodeItem (depth : Nat) (scope : NodeScope) (p : Position) (members : List MemberOf) :
    Except ExpansionError Expanded := do
  let b ← addMembers depth scope ⟨NodeOf.empty, none, false⟩ members
  if b.node.isEmpty && (p.isFree || (b.likeValue && b.node.id.isNone)) then return .nothing
  else return .one (.node b.node b.index)

/-! ## Elements -/

def gatheredIndex (keyword : String) (members : List MemberOf) :
    Except ExpansionError (Option String) :=
  members.foldlM
    (fun index m =>
      if m.sense = .keyword keyword || m.sense = .keyword "@context" then .ok index
      else if m.sense = .keyword "@index" then (readIndex m.value).map some
      else .error (.element .listOrSet))
    none

def valueOf? (keyword : String) (members : List MemberOf) : Option Json :=
  (members.findRev? fun m => m.sense = .keyword keyword).map MemberOf.value

/-- The context for an object: the one before it where a context was for one node alone, unless
the object is a value or a mere reference. -/
def enter (a : Active) (fromMap : Bool) (m : Json.Members) : Active :=
  let members := membersOf a m
  let isReference := members.length = 1 && members.any fun n => n.sense = .keyword "@id"
  if fromMap || isReference || members.any fun n => n.sense = .keyword "@value" then a
  else a.previous.getD a

def typeValues (members : List MemberOf) : List (List Json) :=
  (members.filter fun m => m.sense = .keyword "@type").map fun m => listed m.value

/-- Applies the contexts that belong to types, those of one member in the order of the types. -/
def applyTypes (a : Active) (values : List (List Json)) : Except ExpansionError Active :=
  let types := values.flatMap fun vs =>
    (vs.filterMap Json.string?).mergeSort fun s t => decide (s ≤ t)
  types.foldlM (fun current t => applyOwn current typeMode (a.term? t)) a

/-- Whether the last type of the first member that stands for `@type` is JSON. -/
def endsWithJson (a : Active) (values : List (List Json)) : Bool :=
  match (values.head?.bind List.getLast?).bind Json.string? with
  | some s => a.sense s false true = .keyword "@json"
  | none => false

def expandMembers (depth : Nat) (scope : NodeScope) (isJson : Bool) (p : Position)
    (members : List MemberOf) : Except ExpansionError Expanded := do
  let list := if p.isFree then none else valueOf? "@list" members
  match list, valueOf? "@set" members, valueOf? "@value" members with
  | some items, _, _ => do
    let index ← gatheredIndex "@list" members
    let parts ← (listed items).mapM (scope.expand scope.active p false)
    return .one (.list (parts.flatMap Expanded.items) index)
  | none, some items, _ => do
    discard (gatheredIndex "@set" members)
    scope.expand scope.active p false items
  | none, none, some value => do
    match ← valueItem? scope.typed isJson members value with
    | some item => return .one item
    | none => return .nothing
  | none, none, none => nodeItem depth scope p members

def expandObject (depth : Nat) (expand : Expand) (a : Active) (p : Position) (fromMap : Bool)
    (m : Json.Members) : Except ExpansionError Expanded := do
  let entered ← applyOwn (enter a fromMap m) termMode (p.definition? a)
  let typed ← match NameMap.get? m "@context" with
    | some json => entered.apply plainMode json
    | none => pure entered
  let types := typeValues (membersOf typed m)
  let active ← applyTypes typed types
  expandMembers depth ⟨active, typed, expand⟩ (endsWithJson active types) p (membersOf active m)

/-- The expansion of an array: under a term for lists, arrays in it are lists as well. -/
def expandArray (expand : Expand) (a : Active) (p : Position) (fromMap : Bool)
    (items : List Json) : Except ExpansionError Expanded := do
  let isList := ((p.definition? a).map fun d => d.has .list).getD false
  let parts ← items.mapM fun item => do
    let e ← expand a p fromMap item
    return if isList && e.isMany then [Item.list e.items none] else e.items
  return .many parts.flatten

/-- The expansion of an element; the number bounds how deep it is nested. -/
def expandElement : Nat → Expand
  | 0, _, _, _, _ => .error (.element .nesting)
  | depth + 1, a, p, fromMap, json =>
    match json with
    | .null => .ok .nothing
    | .array items => expandArray (expandElement depth) a p fromMap items
    | .object m => expandObject (depth + 1) (expandElement depth) a p fromMap m
    | scalar => do
      match p.isFree, Scalar.ofJson? scalar with
      | false, some s => return .one (scalarItem (← applyOwn a plainMode (p.definition? a)) p s)
      | _, _ => return .nothing

/-- The items of an expanded document: of a graph that nothing else is said of, its items. -/
def documentItems (e : Expanded) : List Item :=
  match e.items with
  | [.node n index] =>
    match n.graph with
    | some items => if n.isGraph && n.id.isNone then items else [.node n index]
    | none => [.node n index]
  | items => items.filter fun item => !item.isValue

def expandDocument (base : String) (document : Json) : Except ExpansionError (List Item) := do
  let e ← expandElement (document.height + 1) (.initial base) .top false document
  return distinct (documentItems e)

end LinkedCommit.Expansion
