import LinkedCommit.Context.Process
/-!
# The compacted view

The compacted view of a document has the identifiers of properties in the place of their terms,
whatever words the document uses.  Arrays of one item are the item, values under a term with a
datatype carry it, and the values of several terms for one identifier are put together.

A property that stands for no identifier is left out.  In safe mode it is an error, so that
nothing in a document is left out unnoticed.
-/

set_option autoImplicit false

namespace LinkedCommit

namespace Compact

structure Mode where
  loader : Loader
  safe : Bool

def isUsable (iri : String) : Bool := isKeyword iri || iri.toList.contains ':'

def propertyIri? (typed : Context) (key : String) : Option String :=
  (typed.expand? key true).filter isUsable

def expandType (ctx : Context) (type : String) : Json :=
  .string ((ctx.expand? type true).getD type)

/-- The types of a node; one type stands alone. -/
def types (ctx : Context) : Json → Json
  | .string t => expandType ctx t
  | .array items =>
    let expanded := items.map fun item =>
      match item with
      | .string t => expandType ctx t
      | other => other
    match expanded with
    | [one] => one
    | all => .array all
  | other => other

/-- A value object: its types expanded, and the value alone if nothing else is kept. -/
def valueObject (ctx : Context) (members : Json.Members) : Json :=
  let kept := members.filterMap fun (key, value) =>
    if key = "@type" then some (key, types ctx value)
    else if key = "@value" || key = "@language" || key = "@direction" || key = "@index" then
      some (key, value)
    else none
  match kept with
  | [("@value", value)] => value
  | kept => .object kept

/-- A scalar under a term: a reference or a value with a datatype where the term says so. -/
def coerce (ctx : Context) (value : Json) (d : Option TermDefinition) : Json :=
  match d.bind TermDefinition.typeMapping with
  | none => value
  | some mapping =>
    match mapping, value with
    | "@id", .string s => .object [("@id", .string ((ctx.expand? s false).getD s))]
    | "@vocab", .string s => .object [("@id", .string ((ctx.expand? s true).getD s))]
    | mapping, value =>
      if isKeyword mapping then value
      else .object [("@type", .string mapping), ("@value", value)]

/-- Puts a value under an identifier; several values are collected in an array. -/
def merge (out : Json.Members) (iri : String) (value : Json) : Json.Members :=
  let more : List Json := match value with
    | .array items => items
    | one => [one]
  NameMap.update iri
    (fun old =>
      match old with
      | none => value
      | some (.array items) => .array (items ++ more)
      | some one => .array (one :: more))
    out

def idValue (typed : Context) : Json → Json
  | .string s => .string ((typed.expand? s false).getD s)
  | other => other

inductive Treatment where
  | id
  | types
  | nested
  | keep
  | property

def treatment (iri : String) : Treatment :=
  if iri = "@id" then .id
  else if iri = "@type" then .types
  else if iri = "@graph" || iri = "@list" || iri = "@set" || iri = "@included" then .nested
  else if startsWithAt iri then .keep
  else .property

def childContext (mode : Mode) (ctx : Context) (d : Option TermDefinition) :
    Except DocumentError Context :=
  match d.bind TermDefinition.scopedContext with
  | some json => ctx.parse mode.loader json
  | none => .ok ctx

/-- What an array of processed items is: a list where the term makes it one, or else one item
alone or all of them. -/
def arrayOf (d : Option TermDefinition) (items : List Json) : Json :=
  if (d.map (·.hasContainer "@list")).getD false then .object [("@list", .array items)]
  else
    match items with
    | [one] => one
    | all => .array all

mutual

def members (mode : Mode) (ctx typed : Context) (out : Json.Members) :
    List (String × Json) → Except DocumentError Json.Members
  | [] => .ok out
  | (key, v) :: rest =>
    if key = "@context" then members mode ctx typed out rest
    else
      match propertyIri? typed key with
      | none =>
        if startsWithAt key then members mode ctx typed out rest
        else if mode.safe then .error (.invalidProperty key)
        else members mode ctx typed out rest
      | some iri => do
        let compacted ← match treatment iri with
          | .id => pure (idValue typed v)
          | .types => pure (types typed v)
          | .nested => value mode ctx none v
          | .keep => pure v
          | .property => do
            let d := typed.term? key
            let child ← childContext mode ctx d
            value mode child d v
        members mode ctx typed (merge out iri compacted) rest

def value (mode : Mode) (ctx : Context) (d : Option TermDefinition) :
    Json → Except DocumentError Json
  | .array list => do
    let out ← items mode ctx d list
    return arrayOf d out
  | .object m =>
    if NameMap.contains m "@value" then .ok (valueObject ctx m)
    else if NameMap.contains m "@list" then do
      let out ← listItems mode ctx m
      return .object [("@list", .array out)]
    else do
      let ctx ← ctx.applyEmbedded mode.loader m
      let typed ← ctx.typeScoped mode.loader m
      return .object (← members mode ctx typed [] m)
  | .null => .ok .null
  | scalar => .ok (coerce ctx scalar d)

def items (mode : Mode) (ctx : Context) (d : Option TermDefinition) :
    List Json → Except DocumentError (List Json)
  | [] => .ok []
  | item :: rest => do
    let first ← value mode ctx d item
    let others ← items mode ctx d rest
    return first :: others

def listItems (mode : Mode) (ctx : Context) :
    List (String × Json) → Except DocumentError (List Json)
  | [] => .ok []
  | (key, v) :: rest =>
    if key = "@list" then
      match v with
      | .array list => items mode ctx none list
      | one => do return [← value mode ctx none one]
    else listItems mode ctx rest

end

end Compact

def compactDocument (loader : Loader) (safe : Bool) (document : Json) :
    Except DocumentError Json :=
  let mode : Compact.Mode := ⟨loader, safe⟩
  match document with
  | .object m => do
    let ctx ← Context.empty.applyEmbedded loader m
    let typed ← ctx.typeScoped loader m
    return .object (← Compact.members mode ctx typed [] m)
  | .array list => do
    return .object [("@graph", .array (← Compact.items mode Context.empty none list))]
  | other => .error (.malformed (.notAGraph other.kind))

end LinkedCommit
