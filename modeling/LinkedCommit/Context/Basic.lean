import LinkedCommit.Context.Loader
/-!
# Active contexts

A context gives the terms of a document their identifiers.  It holds the definitions of terms, a
vocabulary for terms without one, a base for relative references and a default language.
`Context.expand?` is the identifier of a term or reference: a defined term's own, a compact
form's by its prefix, any other by the vocabulary or the base.
-/

set_option autoImplicit false

namespace LinkedCommit

def keywords : List String :=
  ["@base", "@container", "@context", "@direction", "@graph", "@id", "@import", "@included",
   "@index", "@json", "@language", "@list", "@nest", "@none", "@prefix", "@propagate",
   "@protected", "@reverse", "@set", "@type", "@value", "@version", "@vocab"]

def isKeyword (s : String) : Bool := keywords.contains s

def startsWithAt (s : String) : Bool := s.toList.head? = some '@'

structure TermDefinition where
  /-- The identifier; a term without one is not to be used. -/
  id : Option String
  isReverse : Bool
  typeMapping : Option String
  container : List String
  language : Option String
  scopedContext : Option Json
  isProtected : Bool
deriving Inhabited

namespace TermDefinition

def empty : TermDefinition where
  id := none
  isReverse := false
  typeMapping := none
  container := []
  language := none
  scopedContext := none
  isProtected := false

def hasContainer (d : TermDefinition) (keyword : String) : Bool := d.container.contains keyword

end TermDefinition

structure Context where
  terms : NameMap TermDefinition
  vocab : Option String
  base : Option String
  language : Option String
deriving Inhabited

def cutAtColon (s : String) : Option (String × String) :=
  match Iri.cutAt ':' s.toList with
  | (before, some after) => some (String.ofList before, String.ofList after)
  | (_, none) => none

inductive Colon where
  | absent
  /-- A blank node, or an identifier with an authority: the text itself. -/
  | literal
  | compact (term rest : String)
deriving DecidableEq

def Colon.of (s : String) : Colon :=
  match cutAtColon s with
  | none => .absent
  | some (term, rest) =>
    if term = "_" || rest.startsWith "//" then .literal else .compact term rest

namespace Context

def empty : Context := ⟨[], none, none, none⟩

def withBase (base : String) : Context := { empty with base := some base }

def term? (ctx : Context) (term : String) : Option TermDefinition := NameMap.get? ctx.terms term

/-- The identifier of a compact form: by its prefix if this is a term, or else the form itself. -/
def expandCompact (terms : NameMap TermDefinition) (term rest whole : String) : String :=
  match (NameMap.get? terms term).bind TermDefinition.id with
  | some id => id ++ rest
  | none => whole

def expandByBase? (ctx : Context) (reference : String) : Option String := do
  let base ← Url.parse? (← ctx.base)
  let url ← base.join? reference
  return url.text

/-- The identifier that a text stands for: as a term and by the vocabulary if `vocab` is set, or
else by the base. -/
def expand? (ctx : Context) (text : String) (vocab : Bool) : Option String :=
  if isKeyword text then some text
  else
    let byForm : Option String :=
      match Colon.of text with
      | .literal => some text
      | .compact term rest => some (expandCompact ctx.terms term rest text)
      | .absent =>
        if vocab then ctx.vocab.map (· ++ text) else ctx.expandByBase? text
    if vocab then
      match ctx.term? text with
      | some d => d.id
      | none => byForm
    else byForm

/-- The absolute form of a reference to a context, or the reference itself if it has none. -/
def resolveReference (ctx : Context) (reference : String) : String :=
  if (Url.parse? reference).isSome then reference
  else (ctx.expandByBase? reference).getD reference

/-- The types of a node: the strings under all keys that stand for `@type`, sorted. -/
def nodeTypes (ctx : Context) (node : Json.Members) : List String :=
  let types := node.flatMap fun (key, value) =>
    if ctx.expand? key true = some "@type" then
      match value with
      | .string s => [s]
      | .array items => items.filterMap Json.string?
      | _ => []
    else []
  types.mergeSort fun a b => decide (a ≤ b)

end Context

end LinkedCommit
