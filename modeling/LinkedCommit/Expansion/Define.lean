import LinkedCommit.Context.Terms
import LinkedCommit.Expansion.Active
/-!
# Defining terms

The terms of a context object are defined one by one.  What a definition names may be a term of
the same object, or have one as its prefix; such a term is defined first.  Every nested
definition starts another term of the object, so their number bounds the nesting.

A term that is like a keyword, or is said to be one, is left without a definition.
-/

set_option autoImplicit false

namespace LinkedCommit.Expansion

open Terms (Progress)

structure Mode where
  overrides : Bool
  propagates : Bool
deriving DecidableEq, Inhabited

namespace Define

structure Scope where
  entries : ContextObject
  mode : Mode
  nested : Active → Json → Except LocalContextFault Active

structure State where
  active : Active
  progress : NameMap Progress
deriving Inhabited

def State.mark (s : State) (term : String) (p : Progress) : State :=
  { s with progress := NameMap.insert s.progress term p }

/-- A way to define a term, as far as this is needed first. -/
abbrev Definer := String → State → Except LocalContextFault State

def require (define : Definer) (text : String) (s : State) : Except LocalContextFault State :=
  if isKeyword text || isKeywordLike text then .ok s
  else do
    let s ← define text s
    if (s.active.term? text).isSome then return s
    else
      match cutAtColon text with
      | some (stem, rest) =>
        if stem.isEmpty || stem = "_" || rest.startsWith "//" then return s else define stem s
      | none => return s

def sense (define : Definer) (text : String) (s : State) :
    Except LocalContextFault (Sense × State) := do
  let s ← require define text s
  return (s.active.sense text false true, s)

/-- Whether what follows an identifier may be anything: it ends with a delimiter, or is a blank
node. -/
def endsOpen : Sense → Bool
  | .iri text => (text.toList.getLast?.map ":/?#[]@".toList.contains).getD false
  | .blank _ => true
  | _ => false

def hasColonOrSlash (term : String) : Bool :=
  term.toList.any fun c => c = ':' || c = '/'

/-- Whether a term has to stand for what its own text says: it has a slash, or a colon that is
neither first nor last. -/
def isSelfDescribing (term : String) : Bool :=
  term.toList.contains '/' || ((term.toList.drop 1).dropLast).contains ':'

def absolute (term text : String) : Except LocalContextFault Sense :=
  if Iri.isAbsolute text then .ok (.iri text) else .error (.iriMapping term)

def senseById (define : Definer) (term id : String) (s : State) :
    Except LocalContextFault (Sense × State) := do
  let (found, s) ← sense define id s
  if found = .keyword "@context" then throw (.keywordAlias term)
  match found with
  | .other _ => throw (.iriMapping term)
  | _ =>
    if isSelfDescribing term then
      let s := s.mark term .finished
      let (itself, s) ← sense define term s
      if itself ≠ found then throw (.iriMapping term)
      return (found, s)
    else return (found, s)

/-- The sense of a term with a colon: by its prefix, or the text itself. -/
def senseByPrefix (define : Definer) (term stem rest : String) (s : State) :
    Except LocalContextFault (Sense × State) := do
  let s ← define stem s
  match s.active.term? stem with
  | some d =>
    let front := match d.sense with
      | .iri text => text
      | _ => ""
    return (← absolute term (front ++ rest), s)
  | none =>
    if stem = "_" then return (.blank term, s) else return (← absolute term term, s)

def senseByName (define : Definer) (term : String) (s : State) :
    Except LocalContextFault (Sense × State) := do
  match cutAtColon term, (term.toList.drop 1).contains ':' with
  | some (stem, rest), true => senseByPrefix define term stem rest s
  | _, _ =>
    if term.toList.contains '/' then
      match s.active.sense term false true with
      | .iri text => return (.iri text, s)
      | _ => throw (.iriMapping term)
    else
      match s.active.vocab with
      | some (.iri v) => return (← absolute term (v ++ term), s)
      | _ => throw (.iriMapping term)

def areCompatible (cs : List Container) : Bool :=
  let others := cs.filter (· ≠ .set)
  if others.contains .graph && (others.contains .id || others.contains .index) then
    others.all (fun c => c = .graph || c = .id) || others.all fun c => c = .graph || c = .index
  else
    match others with
    | [] => true
    | c :: rest => rest.all (· = c) && (c ≠ .list || !cs.contains .set)

def containers (term : String) (e : TermEntry) (coercion : Option Coercion) :
    Except LocalContextFault (List Container × Option Coercion) := do
  let cs := e.container.getD []
  if !areCompatible cs then throw (.container term)
  if cs.contains .type then
    match coercion with
    | none => return (cs, some .id)
    | some .id | some .vocab => return (cs, coercion)
    | some _ => throw (.typeMapping term)
  else return (cs, coercion)

def coercion (define : Definer) (term : String) (e : TermEntry) (s : State) :
    Except LocalContextFault (Option Coercion × State) :=
  match e.type with
  | .absent => .ok (none, s)
  | .null => .error (.typeMapping term)
  | .value t => do
    let (found, s) ← sense define t s
    match Coercion.ofSense? found with
    | some c => return (some c, s)
    | none => throw (.typeMapping term)

/-- The definition of a term that relates the other way round; none if it is to be ignored. -/
def reverseDefinition (scope : Scope) (define : Definer) (term back : String) (e : TermEntry)
    (coercion : Option Coercion) (s : State) :
    Except LocalContextFault (Option Definition × State) := do
  if e.id.isPresent || e.nest.isSome then throw (.reverse term)
  if isKeywordLike back then return (none, s)
  let (found, s) ← sense define back s
  if !found.isNode then throw (.iriMapping term)
  let cs := (e.container.getD []).eraseDups
  if cs.any (fun c => c ≠ .set && c ≠ .index) || 1 < cs.length then throw (.reverse term)
  return (some { Definition.empty with
    sense := found
    isProtected := e.isProtected.getD scope.entries.isProtected
    isReverse := true
    coercion
    container := cs }, s)

def prefixFlag (term : String) (e : TermEntry) (found : Sense) : Except LocalContextFault Bool := do
  match e.isPrefix with
  | some p =>
    if hasColonOrSlash term then throw (.definition term)
    match p, found with
    | true, .keyword _ => throw (.definition term)
    | _, _ => return p
  | none => return e.isSimple && e.id ≠ .value term && !hasColonOrSlash term && endsOpen found

/-- Refuses an index property that is no identifier, or one without a container of that kind. -/
def checkIndex (define : Definer) (term : String) (e : TermEntry) (cs : List Container)
    (s : State) : Except LocalContextFault State := do
  match e.index with
  | none => return s
  | some property =>
    if !cs.contains .index then throw (.definition term)
    let (found, s) ← sense define property s
    match found with
    | .iri _ => return s
    | _ => throw (.definition term)

/-- The sense of a term; none if the term is to be ignored. -/
def ownSense (define : Definer) (term : String) (e : TermEntry) (s : State) :
    Except LocalContextFault (Option Sense × State) := do
  match e.id with
  | .null => return (some .nothing, s)
  | .value id =>
    if id = term then
      let (found, s) ← senseByName define term s
      return (some found, s)
    else if isKeywordLike id && !isKeyword id then return (none, s)
    else
      let (found, s) ← senseById define term id s
      return (some found, s)
  | .absent =>
    let (found, s) ← senseByName define term s
    return (some found, s)

/-- The definition of a term by its entry; none if the term is to be ignored. -/
def describe (scope : Scope) (define : Definer) (term : String) (e : TermEntry) (s : State) :
    Except LocalContextFault (Option Definition × State) := do
  let (coercion, s) ← coercion define term e s
  match e.reverse with
  | some back => reverseDefinition scope define term back e coercion s
  | none =>
    match ← ownSense define term e s with
    | (none, s) => return (none, s)
    | (some found, s) =>
      let (container, coercion) ← containers term e coercion
      let s ← checkIndex define term e container s
      match e.context with
      | some json => discard (scope.nested s.active json)
      | none => pure ()
      let isPrefix ← prefixFlag term e found
      return (some {
        sense := found
        isPrefix
        isProtected := e.isProtected.getD scope.entries.isProtected
        isReverse := false
        coercion
        container
        index := e.index
        language := if e.type.isPresent then .absent else e.language
        direction := if e.type.isPresent then .absent else e.direction
        nest := e.nest
        context := e.context }, s)

/-- The new definition of a term that had an old one.  A protected one stays as it is. -/
def redefine (mode : Mode) (term : String) (old : Option Definition) (new : Definition) :
    Except LocalContextFault Definition :=
  match old with
  | some d =>
    if mode.overrides || !d.isProtected || new.isReverse then .ok new
    else if d.sameMeaning new then .ok { new with isProtected := true }
    else .error (.protectedTerm term)
  | none => .ok new

def defineEntry (scope : Scope) (define : Definer) (term : String) (e : TermEntry) (s : State) :
    Except LocalContextFault State := do
  let s := s.mark term .started
  if term.isEmpty then throw (.definition term)
  if isKeyword term then throw (.keywordRedefined term)
  if isKeywordLike term then return s
  let old := s.active.term? term
  let s := { s with active := { s.active with terms := NameMap.erase s.active.terms term } }
  match ← describe scope define term e s with
  | (none, s) => return s
  | (some new, s) =>
    let new ← redefine scope.mode term old new
    let s := { s with active := { s.active with terms := NameMap.insert s.active.terms term new } }
    return s.mark term .finished

/-- Defines a term of the object; the number bounds how many definitions may be begun inside each
other. -/
def define (scope : Scope) : Nat → Definer
  | 0, term, _ => .error (.cyclicTerm term)
  | fuel + 1, term, s =>
    match NameMap.get? s.progress term with
    | some .finished => .ok s
    | some .started => .error (.cyclicTerm term)
    | none =>
      match NameMap.get? scope.entries.terms term with
      | none => .ok s
      | some e => defineEntry scope (define scope fuel) term e s

def defineTypeKeyword (scope : Scope) (a : Active) : Except LocalContextFault Active := do
  match scope.entries.typeKeyword with
  | none => return a
  | some (isSet, isProtected) =>
    let new ← redefine scope.mode "@type" (a.term? "@type") { Definition.empty with
      sense := .keyword "@type"
      isProtected := isProtected.getD scope.entries.isProtected
      container := if isSet then [.set] else [] }
    return { a with terms := NameMap.insert a.terms "@type" new }

/-- Defines all terms of a context object, in the order in which they stand. -/
def defineAll (scope : Scope) (a : Active) : Except LocalContextFault Active := do
  let a ← defineTypeKeyword scope a
  let terms := scope.entries.terms
  let s ← terms.foldlM (fun s (term, _) => define scope (terms.length + 1) term s) ⟨a, []⟩
  return s.active

end Define

end LinkedCommit.Expansion
