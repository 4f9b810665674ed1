import LinkedCommit.Expansion.Item
/-!
# Expanding values

A scalar is read as its term says: as a reference, under a datatype, or as a text in a language.
A value object says so itself, and has no members but those that say so.
-/

set_option autoImplicit false

namespace LinkedCommit.Expansion

inductive Position where
  | top
  /-- Under `@graph`. -/
  | graph
  /-- Under `@included`. -/
  | included
  | term (key : String)
deriving DecidableEq, Inhabited

namespace Position

def isFree : Position → Bool
  | .top | .graph => true
  | _ => false

def definition? (p : Position) (a : Active) : Option Definition :=
  match p with
  | .term key => a.term? key
  | _ => none

end Position

def Scalar.ofJson? : Json → Option Scalar
  | .bool b => some (.bool b)
  | .number n => some (.number n)
  | .string s => some (.string s)
  | _ => none

def slotOr (slot : Option (Slot String)) (default : Option String) : Option String :=
  match slot with
  | none | some .absent => default
  | some given => given.value?

def localText (a : Active) (d : Option Definition) (s : String) : ItemValue :=
  .ofText s (slotOr (d.map Definition.language) a.language)
    (slotOr (d.map Definition.direction) a.direction)

def scalarItem (a : Active) (p : Position) (s : Scalar) : Item :=
  let d := p.definition? a
  match d.bind Definition.coercion, s with
  | some .id, .string text => .reference (a.sense text true false).node?
  | some .vocab, .string text => .reference (a.sense text true true).node?
  | some (.datatype iri), s => .value (.typed s (some iri)) none
  | some .json, s => .value (.json s.toJson) none
  | _, .string text => .value (localText a d text) none
  | _, s => .value (.typed s none) none

structure MemberOf where
  key : String
  sense : Sense
  value : Json
deriving Inhabited

def listed : Json → List Json
  | .array items => items
  | one => [one]

def readIndex : Json → Except ExpansionError String
  | .string s => .ok s
  | _ => .error (.element .index)

structure ValueInfo where
  isJson : Bool
  datatype : Option String
  language : Option String
  direction : Option String
  index : Option String

def ValueInfo.add (typed : Active) (info : ValueInfo) (m : MemberOf) :
    Except ExpansionError ValueInfo :=
  match m.sense, m.value with
  | .keyword "@value", _ | .keyword "@context", _ => .ok info
  | .keyword "@language", .string s => .ok { info with language := some s }
  | .keyword "@language", _ => .error (.element .languageTag)
  | .keyword "@direction", .string s =>
    if s = "ltr" || s = "rtl" then .ok { info with direction := some s }
    else .error (.element .direction)
  | .keyword "@direction", _ => .error (.element .direction)
  | .keyword "@index", v => (readIndex v).map fun s => { info with index := some s }
  | .keyword "@type", .string s =>
    match typed.sense s true true with
    | .keyword "@json" => .ok { info with isJson := true }
    | .iri datatype => .ok { info with isJson := false, datatype := some datatype }
    | _ => .error (.element .typedValue)
  | .keyword "@type", _ => .error (.element .typedValue)
  | _, _ => .error (.element .valueObject)

/-- The item of a value object, unless its value is null.  `isJson` says that the last of its
types is JSON. -/
def valueItem? (typed : Active) (isJson : Bool) (members : List MemberOf) (value : Json) :
    Except ExpansionError (Option Item) := do
  let info ← members.foldlM (ValueInfo.add typed) ⟨isJson, none, none, none, none⟩
  let isLocal := info.language.isSome || info.direction.isSome
  if info.isJson then
    if isLocal then throw (.element .valueObject)
    return some (.value (.json value) info.index)
  else
    match Scalar.ofJson? value, value with
    | none, .null => return none
    | none, _ => throw (.element .value)
    | some s, _ =>
      if isLocal then
        if info.datatype.isSome then throw (.element .valueObject)
        match s with
        | .string text =>
          return some (.value (.tagged text info.language info.direction) info.index)
        | _ => throw (.element .taggedValue)
      else return some (.value (.typed s info.datatype) info.index)

end LinkedCommit.Expansion
