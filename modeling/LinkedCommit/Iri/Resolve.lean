import LinkedCommit.Iri.Syntax
/-!
# Resolving references

A reference is an identifier or a part of one: it may lack the scheme, the authority, and the
front of the path.  What it lacks comes from a base.  The steps `.` and `..` in the path are
carried out.
-/

set_option autoImplicit false

namespace LinkedCommit.Iri

def isReference (s : String) : Bool := (split s.toList).isWellFormed

/-- Carries out the steps `.` and `..` of a list of segments; `done` are the segments before them
in reverse. -/
def dotless (done : List (List Char)) : List (List Char) → List (List Char)
  | [] => done.reverse
  | s :: rest =>
    let stays := if rest.isEmpty then [[]] else []
    if s = ['.'] then dotless (stays ++ done) rest
    else if s = ['.', '.'] then dotless (stays ++ done.drop 1) rest
    else dotless (s :: done) rest

def removeDots : List Char → List Char
  | '/' :: path => '/' :: ['/'].intercalate (dotless [] (splitOn '/' path))
  | path => ['/'].intercalate (dotless [] (splitOn '/' path))

def mergePath (base : Parts) (path : List Char) : List Char :=
  if base.authority.isSome && base.path.isEmpty then '/' :: path
  else (base.path.reverse.dropWhile (· ≠ '/')).reverse ++ path

def Parts.resolve (base reference : Parts) : Parts :=
  if reference.scheme.isSome then { reference with path := removeDots reference.path }
  else if reference.authority.isSome then
    { reference with scheme := base.scheme, path := removeDots reference.path }
  else if reference.path.isEmpty then
    { base with
      query := reference.query.or base.query
      fragment := reference.fragment }
  else
    let path :=
      if reference.path.head? = some '/' then reference.path
      else mergePath base reference.path
    { reference with
      scheme := base.scheme
      authority := base.authority
      path := removeDots path }

def resolve (base reference : String) : String :=
  String.ofList ((split base.toList).resolve (split reference.toList)).text

end LinkedCommit.Iri
