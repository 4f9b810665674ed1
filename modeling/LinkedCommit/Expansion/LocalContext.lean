import LinkedCommit.Expansion.Error
import LinkedCommit.Context.Basic
import LinkedCommit.Iri.Resolve
import LinkedCommit.Json.Canonical
import LinkedCommit.Number.Reader
/-!
# Local contexts

A local context as it is written: settings, and definitions of terms.  `LocalContext.ofJson`
reads one, and refuses a value of the wrong kind under any entry, in contexts nested in
definitions as well.  What the entries mean is not looked at here.
-/

set_option autoImplicit false

namespace LinkedCommit.Expansion

inductive Slot (α : Type) where
  | absent
  | null
  | value (v : α)
deriving DecidableEq, Inhabited

namespace Slot

variable {α : Type}

def value? : Slot α → Option α
  | .value v => some v
  | _ => none

def isPresent : Slot α → Bool
  | .absent => false
  | _ => true

end Slot

inductive Container where
  | graph
  | id
  | index
  | language
  | list
  | set
  | type
deriving DecidableEq, Inhabited

def Container.ofName? (name : String) : Option Container :=
  if name = "@graph" then some .graph
  else if name = "@id" then some .id
  else if name = "@index" then some .index
  else if name = "@language" then some .language
  else if name = "@list" then some .list
  else if name = "@set" then some .set
  else if name = "@type" then some .type
  else none

structure TermEntry where
  id : Slot String
  type : Slot String
  reverse : Option String
  index : Option String
  language : Slot String
  direction : Slot String
  /-- The names of the containers; none if the entry is null. -/
  container : Option (List Container)
  nest : Option String
  isPrefix : Option Bool
  isProtected : Option Bool
  context : Option Json
  isSimple : Bool
deriving Inhabited

def TermEntry.empty : TermEntry where
  id := .absent
  type := .absent
  reverse := none
  index := none
  language := .absent
  direction := .absent
  container := none
  nest := none
  isPrefix := none
  isProtected := none
  context := none
  isSimple := false

structure ContextObject where
  base : Slot String
  vocab : Slot String
  language : Slot String
  direction : Slot String
  isProtected : Bool
  /-- What is said of `@type`: whether it is a set, and whether it is protected. -/
  typeKeyword : Option (Bool × Option Bool)
  terms : List (String × TermEntry)
deriving Inhabited

inductive LocalContext where
  | clear
  | reference (target : String)
  | object (entries : ContextObject)
deriving Inhabited

namespace LocalContext

/-- Reading an entry with a fault that is told if the value is of the wrong kind. -/
abbrev Read (α : Type) := Except LocalContextFault α

def readString (fault : LocalContextFault) : Json → Read String
  | .string s => .ok s
  | _ => .error fault

def readBool (fault : LocalContextFault) : Json → Read Bool
  | .bool b => .ok b
  | _ => .error fault

def optional {α : Type} (m : Json.Members) (key : String) (read : Json → Read α) :
    Read (Option α) :=
  match NameMap.get? m key with
  | none => .ok none
  | some v => (read v).map some

def nullable {α : Type} (m : Json.Members) (key : String) (read : Json → Read α) :
    Read (Slot α) :=
  match NameMap.get? m key with
  | none => .ok .absent
  | some .null => .ok .null
  | some v => (read v).map .value

def readDirection (fault : LocalContextFault) (j : Json) : Read String := do
  let s ← readString fault j
  if s = "ltr" || s = "rtl" then return s else throw fault

def readContainerName (fault : LocalContextFault) (j : Json) : Read Container := do
  match Container.ofName? (← readString fault j) with
  | some c => return c
  | none => throw fault

def readContainer (fault : LocalContextFault) : Json → Read (List Container)
  | .null => .ok []
  | .array items => items.mapM (readContainerName fault)
  | j => do return [← readContainerName fault j]

def readNest (fault : LocalContextFault) (j : Json) : Read String := do
  let s ← readString fault j
  if isKeyword s && s ≠ "@nest" then throw fault else return s

def termEntries : List String :=
  ["@id", "@type", "@reverse", "@index", "@language", "@direction", "@container", "@nest",
   "@prefix", "@protected", "@context"]

def readTermObject (term : String) (m : Json.Members) : Read TermEntry := do
  let fault := LocalContextFault.definition term
  if m.any fun (key, _) => !termEntries.contains key then throw fault
  return {
    id := ← nullable m "@id" (readString fault)
    type := ← nullable m "@type" (readString fault)
    reverse := ← optional m "@reverse" (readString fault)
    index := ← optional m "@index" (readString fault)
    language := ← nullable m "@language" (readString fault)
    direction := ← nullable m "@direction" (readDirection fault)
    container := ← optional m "@container" (readContainer fault)
    nest := ← optional m "@nest" (readNest fault)
    isPrefix := ← optional m "@prefix" (readBool fault)
    isProtected := ← optional m "@protected" (readBool fault)
    context := NameMap.get? m "@context"
    isSimple := false }

/-- The definition of a term; null stands for one without an identifier. -/
def readTerm (term : String) : Json → Read TermEntry
  | .null => .ok { TermEntry.empty with id := .null }
  | .string s => .ok { TermEntry.empty with id := .value s, isSimple := true }
  | .object m => readTermObject term m
  | _ => .error (.definition term)

def readTypeKeyword (j : Json) : Read (Bool × Option Bool) := do
  let fault := LocalContextFault.definition "@type"
  match j with
  | .object m => do
    if m.any fun (key, _) => key ≠ "@container" && key ≠ "@protected" then throw fault
    let container ← optional m "@container" (readContainerName fault)
    if container.isSome && container ≠ some .set then throw fault
    return (container.isSome, ← optional m "@protected" (readBool fault))
  | _ => throw fault

def isVersion : Json → Bool
  | .number n => n.double = Double.ofDecimal false 11 (-1)
  | _ => false

def readBase (j : Json) : Read String := do
  let s ← readString (.entry "@base") j
  if Iri.isReference s then return s else throw .base

def settings : List String :=
  ["@base", "@direction", "@import", "@language", "@propagate", "@protected", "@type",
   "@version", "@vocab"]

def readObject (m : Json.Members) : Read ContextObject := do
  if (NameMap.get? m "@version").any fun v => !isVersion v then throw (.entry "@version")
  if NameMap.contains m "@import" then throw (.entry "@import")
  discard (optional m "@propagate" (readBool (.entry "@propagate")))
  let terms := m.filter fun (key, _) => !settings.contains key
  return {
    base := ← nullable m "@base" readBase
    vocab := ← nullable m "@vocab" (readString (.entry "@vocab"))
    language := ← nullable m "@language" (readString (.entry "@language"))
    direction := ← nullable m "@direction" (readDirection (.entry "@direction"))
    isProtected := (← optional m "@protected" (readBool (.entry "@protected"))).getD false
    typeKeyword := ← optional m "@type" readTypeKeyword
    terms := ← terms.mapM fun (term, v) => do return (term, ← readTerm term v) }

def readItem : Json → Read LocalContext
  | .null => .ok .clear
  | .string s => .ok (.reference s)
  | .object m => (readObject m).map .object
  | _ => .error .notAContext

def readShallow : Json → Read (List LocalContext)
  | .array items => items.mapM readItem
  | one => do return [← readItem one]

def nestedContexts : LocalContext → List Json
  | .object entries => entries.terms.filterMap fun (_, e) => e.context
  | _ => []

/-- Refuses a context in which any nested context is not well formed; the number bounds how deep
they are nested. -/
def check : Nat → Json → Read Unit
  | 0, _ => .error .nesting
  | depth + 1, j => do
    let contexts ← readShallow j
    (contexts.flatMap nestedContexts).forM (check depth)

def ofJson (j : Json) : Except LocalContextFault (List LocalContext) := do
  check (j.height + 1) j
  readShallow j

end LocalContext

end LinkedCommit.Expansion
