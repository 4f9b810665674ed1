import LinkedCommit.Context.Error
import LinkedCommit.Rdf.Dataset
import LinkedCommit.Tree.Proof
/-!
# Why a document cannot be committed
-/

set_option autoImplicit false

namespace LinkedCommit

structure QuadId where
  graph : String
  index : Nat
deriving DecidableEq, Inhabited

def QuadId.display (id : QuadId) : String := s!"{id.graph}#{id.index}"

inductive DatasetError where
  | emptyGraphName
  | defaultGraphHasNode (node : Term)
  | noGraphNode (name : String)
  | otherGraphNode (name : String) (node : Term)
  | predicateNotIri (predicate : Term)
deriving DecidableEq

def DatasetError.message : DatasetError → String
  | .emptyGraphName => "graph name is empty"
  | .defaultGraphHasNode node => "default graph quad has graph node " ++ node.display
  | .noGraphNode name => s!"quad in graph {name} has no graph node"
  | .otherGraphNode name node => s!"graph {name} holds a quad of graph " ++ node.display
  | .predicateNotIri predicate => "predicate " ++ predicate.display ++ " is not an IRI"

inductive UnsupportedQuad where
  | literalSubject (subject : Term)
  | blankObject (subject predicate : Term) (label : String)
deriving DecidableEq

def UnsupportedQuad.message : UnsupportedQuad → String
  | .literalSubject subject => "literal subject " ++ subject.display
  | .blankObject subject predicate label =>
    "blank node is not supported: " ++ subject.display ++ " " ++ predicate.display ++ " " ++ label

/-- A state that a consistent commitment never reaches, and the cycle of parents. -/
inductive BrokenInvariant where
  | quadAbsent (id : QuadId)
  | parentCycle (id : QuadId)
  | noChildList
  | childAbsent
  | entryAbsent (path : String)
deriving DecidableEq

def BrokenInvariant.message : BrokenInvariant → String
  | .quadAbsent id => "quad " ++ id.display ++ " is not in the dataset"
  | .parentCycle id => "parent links of quad " ++ id.display ++ " form a cycle"
  | .noChildList => "parent has no child list"
  | .childAbsent => "child not found in parent's child list"
  | .entryAbsent path => s!"tree holds {path} but no entry exists"

inductive CommitError where
  | encoding (cause : EncodingError)
  | tree (cause : TreeError)
  | document (cause : DocumentError)
  | dataset (cause : DatasetError)
  | unsupported (cause : UnsupportedQuad)
  | multipleParents (child first second : QuadId)
  | entryNotFound (path : String)
  | broken (cause : BrokenInvariant)
deriving DecidableEq

namespace CommitError

/-- A failure of a document in the words of a commitment: those that are about a property, a
place or a path are told as they are, the others as failures of the processing. -/
def documentMessage : DocumentError → String
  | .invalidProperty name => (DocumentError.invalidProperty name).message
  | .unknownTerm term => (EncodingError.path (.unknownTerm term)).message
  | .missing cause => cause.message
  | .shape cause => cause.message
  | .malformed cause => (DocumentError.malformed cause).message
  | .emptyPath => (EncodingError.path .empty).message
  | other => "JSON-LD processing failed: " ++ other.message

def message : CommitError → String
  | .encoding cause => cause.message
  | .tree cause => "merkle tree error: " ++ cause.message
  | .document cause => documentMessage cause
  | .dataset cause => "inconsistent dataset: " ++ cause.message
  | .unsupported cause => "unsupported RDF shape: " ++ cause.message
  | .multipleParents child first second =>
    "multiple parents found: quad " ++ child.display ++ " has parents " ++ first.display
      ++ " and " ++ second.display
  | .entryNotFound path => s!"entry not found: {path}"
  | .broken cause => "[assertion] " ++ cause.message

def isNotFound : CommitError → Bool
  | .entryNotFound _ => true
  | .document (.missing _) => true
  | _ => false

def isAssertion : CommitError → Bool
  | .broken _ => true
  | _ => false

end CommitError

end LinkedCommit
