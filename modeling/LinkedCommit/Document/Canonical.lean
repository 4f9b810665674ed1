import LinkedCommit.Document.Inline
import LinkedCommit.Expansion.Element
import LinkedCommit.Expansion.Statements
import LinkedCommit.Rdf.Canonical
/-!
# The canonical dataset of a document

The contexts that a document refers to are put in their places, the document is expanded, and
the statements of its expanded form are put in canonical form and read back as N-Quads.  The
order of the members and arrays of a document has no influence on its dataset.
-/

set_option autoImplicit false

namespace LinkedCommit

def documentBase : String := "x-string://"

def datasetOf (statements : List Quad) : Except DocumentError Dataset :=
  match Canonical.quads? statements with
  | none => .error .notCanonical
  | some quads =>
    match NQuads.read? (NQuads.text quads) with
    | some dataset => .ok dataset
    | none => .error .nquads

def canonicalDataset (loader : Loader) (document : Json) : Except DocumentError Dataset := do
  let inlined ← inlineContexts loader document
  let items ← (Expansion.expandDocument documentBase inlined).mapError .notRdf
  datasetOf (Expansion.statements items)

end LinkedCommit
