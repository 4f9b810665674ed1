/-!
# Why a document has no expanded form

The faults of local contexts, and the faults of the nodes and values of a document.
-/

set_option autoImplicit false

namespace LinkedCommit

inductive LocalContextFault where
  | entry (name : String)
  | notAContext
  /-- A reference to another document, whose context has not been put in its place. -/
  | reference (target : String)
  | base
  | vocab
  | definition (term : String)
  | cyclicTerm (term : String)
  | keywordRedefined (keyword : String)
  | iriMapping (term : String)
  | typeMapping (term : String)
  | container (term : String)
  | reverse (term : String)
  /-- A second name for `@context`. -/
  | keywordAlias (term : String)
  | protectedTerm (term : String)
  /-- A null context where there are protected terms. -/
  | nullification
  | nesting
deriving DecidableEq, Repr

def LocalContextFault.message : LocalContextFault → String
  | .entry name => s!"invalid context entry {name}"
  | .notAContext => "invalid local context"
  | .reference target => s!"context {target} is not in the document"
  | .base => "invalid base IRI"
  | .vocab => "invalid vocab mapping"
  | .definition term => s!"invalid term definition {term}"
  | .cyclicTerm term => s!"cyclic IRI mapping {term}"
  | .keywordRedefined keyword => s!"keyword redefinition {keyword}"
  | .iriMapping term => s!"invalid IRI mapping {term}"
  | .typeMapping term => s!"invalid type mapping {term}"
  | .container term => s!"invalid container mapping {term}"
  | .reverse term => s!"invalid reverse property {term}"
  | .keywordAlias term => s!"invalid keyword alias {term}"
  | .protectedTerm term => s!"protected term redefinition {term}"
  | .nullification => "invalid context nullification"
  | .nesting => "context overflow"

inductive ElementFault where
  | collidingKeywords (keyword : String)
  | id
  | type
  | index
  /-- A keyword among the properties under `@reverse`. -/
  | reverseMap
  | reverseValue
  /-- A value under a reverse property that is no node. -/
  | reverseProperty
  | nest
  | included
  | listOrSet
  | valueObject
  | value
  | languageTag
  | taggedValue
  | direction
  | typedValue
  | languageMap
  | nesting
deriving DecidableEq, Repr

def ElementFault.message : ElementFault → String
  | .collidingKeywords keyword => s!"colliding keywords {keyword}"
  | .id => "invalid @id value"
  | .type => "invalid type value"
  | .index => "invalid @index value"
  | .reverseMap => "invalid reverse property map"
  | .reverseValue => "invalid @reverse value"
  | .reverseProperty => "invalid reverse property value"
  | .nest => "invalid @nest value"
  | .included => "invalid @included value"
  | .listOrSet => "invalid set or list object"
  | .valueObject => "invalid value object"
  | .value => "invalid value object value"
  | .languageTag => "invalid language-tagged string"
  | .taggedValue => "invalid language-tagged value"
  | .direction => "invalid base direction"
  | .typedValue => "invalid typed value"
  | .languageMap => "invalid language map value"
  | .nesting => "document overflow"

inductive ExpansionError where
  | context (fault : LocalContextFault)
  | element (fault : ElementFault)
deriving DecidableEq, Repr

def ExpansionError.message : ExpansionError → String
  | .context fault => fault.message
  | .element fault => fault.message

end LinkedCommit
