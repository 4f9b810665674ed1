import LinkedCommit.Context.Basic
import LinkedCommit.Json.Writer
import LinkedCommit.Text.Character
/-!
# Term definitions

The terms of a local context are defined one by one.  A definition may name other terms of the
same local context, which are then defined first, so the order in which they stand does not
matter; a term that is needed for its own definition is an error.

The state of this process is the definitions so far and the terms that have been started.
Every nested definition starts another term of the local context, so the nesting is never
deeper than the number of its terms.
-/

set_option autoImplicit false

namespace LinkedCommit.Terms

inductive Progress where
  | started
  | finished
deriving DecidableEq

structure Scope where
  members : Json.Members
  vocab : Option String

structure State where
  terms : NameMap TermDefinition
  progress : NameMap Progress
deriving Inhabited

/-- A way to define a term, as far as this is needed first. -/
abbrev Define := String → State → Except ContextError State

def require (scope : Scope) (define : Define) (text : String) (s : State) :
    Except ContextError State :=
  if NameMap.contains scope.members text then define text s else .ok s

def expandForm (scope : Scope) (define : Define) (text : String) (s : State) :
    Except ContextError (Option String × State) :=
  match Colon.of text with
  | .literal => .ok (some text, s)
  | .compact term rest => do
    let s ← require scope define term s
    return (some (Context.expandCompact s.terms term rest text), s)
  | .absent => .ok (scope.vocab.map (· ++ text), s)

def expand (scope : Scope) (define : Define) (text : String) (s : State) :
    Except ContextError (Option String × State) :=
  if isKeyword text then .ok (some text, s)
  else do
    let s ← require scope define text s
    match NameMap.get? s.terms text with
    | some d => return (d.id, s)
    | none => expandForm scope define text s

inductive Target where
  | implicit
  | nothing
  | text (value : String)

def identify (scope : Scope) (define : Define) (term : String) (target : Target) (s : State) :
    Except ContextError (Option String × State) :=
  match target with
  | .nothing => .ok (none, s)
  | .text raw =>
    if isKeyword raw then .ok (some raw, s)
    else if raw = term then expandForm scope define raw s
    else do
      let (id, s) ← expand scope define raw s
      return (some (id.getD raw), s)
  | .implicit =>
    if (cutAtColon term).isSome then expandForm scope define term s
    else .ok (scope.vocab.map (· ++ term), s)

def target (term : String) (m : Json.Members) : Except ContextError Target := do
  let byId ← match NameMap.get? m "@id" with
    | none => pure .implicit
    | some .null => pure .nothing
    | some (.string s) => pure (.text s)
    | some _ => throw (.idNotString term)
  match NameMap.get? m "@reverse" with
  | some (.string r) => return .text r
  | _ => return byId

def typeMapping (scope : Scope) (define : Define) (term : String) (m : Json.Members) (s : State) :
    Except ContextError (Option String × State) :=
  match NameMap.get? m "@type" with
  | none => .ok (none, s)
  | some (.string t) => do
    let (id, s) ← expand scope define t s
    return (some (id.getD t), s)
  | some _ => .error (.typeNotString term)

def containers (term : String) (m : Json.Members) : Except ContextError (List String) :=
  match NameMap.get? m "@container" with
  | none | some .null => .ok []
  | some (.string c) => .ok [c]
  | some (.array items) => .ok (items.filterMap Json.string?)
  | some _ => .error (.invalidContainer term)

def isStringMember (m : Json.Members) (key : String) : Bool :=
  match NameMap.get? m key with
  | some (.string _) => true
  | _ => false

def describe (scope : Scope) (define : Define) (term : String) (m : Json.Members) (s : State) :
    Except ContextError (TermDefinition × Target × State) := do
  let target ← target term m
  let (typeMapping, s) ← typeMapping scope define term m s
  let container ← containers term m
  let d : TermDefinition :=
    { id := none
      isReverse := isStringMember m "@reverse"
      typeMapping
      container
      language := ((NameMap.get? m "@language").bind Json.string?).map Text.lower
      scopedContext := NameMap.get? m "@context"
      isProtected := match NameMap.get? m "@protected" with
        | some (.bool b) => b
        | _ => false }
  return (d, target, s)

def defineValue (scope : Scope) (define : Define) (term : String) (value : Json) (s : State) :
    Except ContextError State := do
  let (d, target, s) ← match value with
    | .null => pure (.empty, .nothing, s)
    | .string raw => pure (.empty, .text raw, s)
    | .object m => describe scope define term m s
    | _ => throw (.invalidDefinition term)
  let (id, s) ← identify scope define term target s
  return { s with
    terms := NameMap.insert s.terms term { d with id }
    progress := NameMap.insert s.progress term .finished }

/-- Defines a term; the number bounds how many definitions may be begun inside each other. -/
def define (scope : Scope) : Nat → Define
  | 0, term, _ => .error (.unfinished term)
  | fuel + 1, term, s =>
    match NameMap.get? s.progress term with
    | some .finished => .ok s
    | some .started => .error (.cyclicTerm term)
    | none =>
      match NameMap.get? scope.members term with
      | none => .ok s
      | some value =>
        defineValue scope (define scope fuel) term value
          { s with progress := NameMap.insert s.progress term .started }

/-- Defines all terms of a local context, in the order of their names. -/
def defineAll (members : Json.Members) (vocab : Option String) (terms : NameMap TermDefinition) :
    Except ContextError (NameMap TermDefinition) := do
  let scope : Scope := ⟨members, vocab⟩
  let keys := (NameMap.keys members).filter fun key => !startsWithAt key
  let s ← keys.foldlM (fun s key => define scope (members.length + 1) key s) ⟨terms, []⟩
  return s.terms

end LinkedCommit.Terms
