import LinkedCommit.Expansion.Error
import LinkedCommit.Value.Error
/-!
# Why a document cannot be processed

The failures of loading, of contexts, and of the operations on documents, and the texts that
report them.
-/

set_option autoImplicit false

namespace LinkedCommit

inductive LoaderError where
  | notFound (url : String)
  | unsupportedScheme (url : String)
  | noGateway (url : String)
  | invalidUrl (url : String)
  | unreachable (url : String)
  | invalidJson (url : String)
deriving DecidableEq, Repr

def LoaderError.message : LoaderError → String
  | .notFound url => s!"document not found: {url}"
  | .unsupportedScheme url => s!"unsupported URL scheme for {url}"
  | .noGateway url => s!"IPFS gateway is not configured, cannot load {url}"
  | .invalidUrl url => s!"invalid URL {url}"
  | .unreachable url => s!"failed to fetch {url}"
  | .invalidJson url => s!"document at {url} is not valid JSON"

def maxContextDepth : Nat := 32

inductive ContextError where
  | tooDeep
  | remoteWithoutContext (url : String)
  /-- A value that is no context; its JSON text. -/
  | notAContext (found : String)
  | importNotString
  | importNotObject (url : String)
  | baseNotString
  | vocabNotString
  | cyclicTerm (term : String)
  /-- Definitions are begun inside each other more often than the caller allows for. -/
  | unfinished (term : String)
  | idNotString (term : String)
  | typeNotString (term : String)
  | invalidContainer (term : String)
  | invalidDefinition (term : String)
deriving DecidableEq, Repr

def ContextError.message : ContextError → String
  | .tooDeep => s!"remote context inclusion exceeds {maxContextDepth} levels"
  | .remoteWithoutContext url => s!"remote document {url} has no @context"
  | .notAContext found =>
    "local context must be an object, array, string or null, got " ++ found
  | .importNotString => "@import must be a string"
  | .importNotObject url => s!"imported context {url} must be an object"
  | .baseNotString => "@base must be a string"
  | .vocabNotString => "@vocab must be a string"
  | .cyclicTerm term => s!"cyclic IRI mapping for term {term}"
  | .unfinished term => s!"definition of term {term} is unfinished"
  | .idNotString term => s!"@id of term {term} must be a string"
  | .typeNotString term => s!"@type of term {term} must be a string"
  | .invalidContainer term => s!"invalid @container for term {term}"
  | .invalidDefinition term => s!"invalid term definition for {term}"

inductive MalformedDocument where
  | notJson
  | notAGraph (kind : String)
  | noContext
deriving DecidableEq, Repr

def MalformedDocument.message : MalformedDocument → String
  | .notJson => "not JSON"
  | .notAGraph kind => s!"document must be an object or array, got {kind}"
  | .noContext => "context document has no @context"

inductive MissingPlace where
  /-- An index past the end of the array at a place. -/
  | index (digits place : String)
  | term (token place : String)
  /-- A path that ends in an absent member or item. -/
  | value (path : String)
  | item (path : String)
deriving DecidableEq, Repr

def MissingPlace.message : MissingPlace → String
  | .index digits place => s!"index {digits} is out of range at '{place}'"
  | .term token place => s!"no term '{token}' in the document at '{place}'"
  | .value path => s!"value not found at '{path}'"
  | .item path => s!"index is out of range at '{path}'"

inductive ShapeError where
  | emptySegment (path : String)
  | expectedArray (place : String)
  | expectedObject (place : String)
  | emptyArray (place : String)
  | indexTooLarge (digits : String)
deriving DecidableEq, Repr

def ShapeError.message : ShapeError → String
  | .emptySegment path => s!"empty segment in path '{path}'"
  | .expectedArray place => s!"expected array at '{place}'"
  | .expectedObject place => s!"expected object at '{place}'"
  | .emptyArray place => s!"array is empty at '{place}'"
  | .indexTooLarge digits => s!"index {digits} is too large"

inductive DocumentError where
  | loader (cause : LoaderError)
  | context (cause : ContextError)
  | malformed (cause : MalformedDocument)
  | invalidProperty (name : String)
  | unknownTerm (term : String)
  | missing (cause : MissingPlace)
  | shape (cause : ShapeError)
  | notRdf (cause : ExpansionError)
  | notCanonical
  | nquads
  | emptyPath
deriving DecidableEq, Repr

def DocumentError.message : DocumentError → String
  | .loader cause => "loading document failed: " ++ cause.message
  | .context cause => "invalid context: " ++ cause.message
  | .malformed cause => "invalid document: " ++ cause.message
  | .invalidProperty name => s!"invalid property: {name}"
  | .unknownTerm term => (PathError.unknownTerm term).message
  | .missing cause => cause.message
  | .shape cause => cause.message
  | .notRdf cause => "JSON-LD to RDF conversion failed: " ++ cause.message
  | .notCanonical => "canonicalization failed"
  | .nquads => "invalid N-Quads"
  | .emptyPath => PathError.empty.message

end LinkedCommit
