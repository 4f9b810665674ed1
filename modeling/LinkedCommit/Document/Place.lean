import LinkedCommit.Context.Process
import LinkedCommit.Path
import LinkedCommit.Number.Decimal
/-!
# Paths from dotted text

A place in a document is named by its terms and indices between dots.  `pathFromDocument` walks
the document and answers the path of the place, the identifiers standing for the terms under
the contexts that apply there.  `pathFromContext` does so without a document: it knows of the
contexts of terms, and of no others.
-/

set_option autoImplicit false

namespace LinkedCommit

namespace Place

def tokens (dotted : String) : Except DocumentError (List String) :=
  if dotted.isEmpty then .error .emptyPath
  else
    let parts := (Iri.splitOn '.' dotted.toList).map String.ofList
    if parts.any String.isEmpty then .error (.shape (.emptySegment dotted)) else .ok parts

def isIndex (token : String) : Bool := token.toList.all Char.isDigit

/-- The index of a token of digits, if it fits 64 bits. -/
def index? (digits : String) : Option Nat :=
  let n := Decimal.value digits.toList
  if n < twoTo 64 then some n else none

def text (walked : List String) : String := String.intercalate "." walked

def itemAt (node : Json) (token place : String) : Except DocumentError (Nat × Json) :=
  match node with
  | .array [] => .error (.shape (.emptyArray place))
  | .array items =>
    match (index? token).bind fun i => (items[i]?).map (i, ·) with
    | some found => .ok found
    | none => .error (.missing (.index token place))
  | _ => .error (.shape (.expectedArray place))

def membersAt (node : Json) (place : String) : Except DocumentError Json.Members :=
  match node with
  | .object members => .ok members
  | .array [] => .error (.shape (.emptyArray place))
  | _ => .error (.shape (.expectedObject place))

/-- The segments of a place in a document; `walked` are the tokens before it. -/
def walk (loader : Loader) (ctx : Context) (node : Json) (walked : List String) :
    List String → Except DocumentError (List Segment)
  | [] => .ok []
  | token :: rest => do
    let place := text walked
    if isIndex token then
      let (i, item) ← itemAt node token place
      let segments ← walk loader ctx item (walked ++ [token]) rest
      return .index i :: segments
    else
      let members ← membersAt node place
      let ctx ← ctx.applyEmbedded loader members
      let typed ← ctx.typeScoped loader members
      match NameMap.get? members token with
      | none => throw (.missing (.term token place))
      | some child =>
        match typed.expand? token true with
        | none => throw (.unknownTerm token)
        | some iri =>
          let below ← match (typed.term? token).bind TermDefinition.scopedContext with
            | some json => ctx.parse loader json
            | none => pure ctx
          let segments ← walk loader below child (walked ++ [token]) rest
          return .term iri :: segments

/-- What a walk through a context finds: the path, and the type mapping of its last term. -/
structure Found where
  path : Path
  typeMapping : Option String
deriving DecidableEq

def walkTerms (loader : Loader) (ctx : Context) (found : Found) :
    List String → Except DocumentError Found
  | [] => .ok found
  | token :: rest =>
    if isIndex token then
      match index? token with
      | some i => walkTerms loader ctx ⟨found.path.append [.index i], none⟩ rest
      | none => .error (.shape (.indexTooLarge token))
    else
      match ctx.term? token with
      | none => .error (.unknownTerm token)
      | some d =>
        match d.id with
        | none => .error (.unknownTerm token)
        | some iri => do
          let found : Found := ⟨found.path.append [.term iri], d.typeMapping⟩
          let ctx ← match d.scopedContext with
            | some json => ctx.parse loader json
            | none => pure ctx
          walkTerms loader ctx found rest

def walkContext (loader : Loader) (contextDocument : Json) (dotted : String) :
    Except DocumentError Found := do
  let parts ← tokens dotted
  match contextDocument.member? "@context" with
  | none => throw (.malformed .noContext)
  | some json =>
    let ctx ← Context.empty.parse loader json
    walkTerms loader ctx ⟨⟨[]⟩, none⟩ parts

end Place

def pathFromDocument (loader : Loader) (document : Json) (dotted : String) :
    Except DocumentError Path := do
  let parts ← Place.tokens dotted
  return ⟨← Place.walk loader Context.empty document [] parts⟩

def pathFromContext (loader : Loader) (contextDocument : Json) (dotted : String) :
    Except DocumentError Path :=
  (Place.walkContext loader contextDocument dotted).map Place.Found.path

def typeFromContext (loader : Loader) (contextDocument : Json) (dotted : String) :
    Except DocumentError (Option String) :=
  (Place.walkContext loader contextDocument dotted).map Place.Found.typeMapping

def fieldPathFromContext (loader : Loader) (contextDocument : Json) (type field : String) :
    Except DocumentError Path := do
  let path ← pathFromContext loader contextDocument (type ++ "." ++ field)
  return ⟨path.segments.drop 1⟩

def typeIdFromContext (loader : Loader) (contextDocument : Json) (type : String) :
    Except DocumentError String := do
  let path ← pathFromContext loader contextDocument type
  match path.segments with
  | [.term iri] => return iri
  | _ => throw (.unknownTerm type)

end LinkedCommit
