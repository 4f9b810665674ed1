import LinkedCommit.Text.Quoted
import LinkedCommit.Value.Datatype
/-!
# Statements

A statement relates a subject to an object by a predicate, in the default graph or in a graph
with a name.  Its terms are identifiers, blank nodes, whose labels start with `_:`, and
literals.
-/

set_option autoImplicit false

namespace LinkedCommit

/-- A text with a datatype, and a language if the datatype is that of tagged text. -/
structure Literal where
  value : String
  datatype : String
  language : Option String
deriving DecidableEq, Inhabited

inductive Term where
  | iri (name : String)
  /-- A blank node by its label, which starts with `_:`. -/
  | blank (label : String)
  | literal (value : Literal)
deriving DecidableEq, Inhabited

namespace Term

/-- The blank node with a label, to which `_:` is added if it is not there. -/
def ofLabel (label : String) : Term :=
  if label.startsWith "_:" then .blank label else .blank ("_:" ++ label)

def iri? : Term → Option String
  | .iri name => some name
  | _ => none

def display : Term → String
  | .iri name => "<" ++ name ++ ">"
  | .blank label => label
  | .literal l =>
    match l.language with
    | some tag => Text.quoted l.value ++ "@" ++ tag
    | none => Text.quoted l.value ++ "^^<" ++ l.datatype ++ ">"

end Term

structure Quad where
  subject : Term
  predicate : Term
  object : Term
  /-- The name of the graph, none for the default graph. -/
  graph : Option Term
deriving DecidableEq, Inhabited

namespace Rdf

def base : String := "http://www.w3.org/1999/02/22-rdf-syntax-ns#"

def type : String := base ++ "type"
def first : String := base ++ "first"
def rest : String := base ++ "rest"
def nil : String := base ++ "nil"
def langString : String := base ++ "langString"
def json : String := base ++ "JSON"

end Rdf

end LinkedCommit
