import LinkedCommit.Expansion.LocalContext
import LinkedCommit.Rdf.NQuads.Reader
/-!
# What terms stand for

A text in a document stands for an identifier, a blank node, a keyword, or nothing; `Sense` is
what it stands for.  An active context gives terms their senses and says how their values are
read.  `Active.sense` is the sense of a text: a defined term's own, a compact form's by its
prefix, any other by the vocabulary or the base.

A prefix counts only where its definition makes it one, and a text that has the form of a keyword
but is none stands for nothing.
-/

set_option autoImplicit false

namespace LinkedCommit.Expansion

inductive Sense where
  | nothing
  | keyword (word : String)
  | iri (text : String)
  /-- A blank node by its label, which starts with `_:`. -/
  | blank (label : String)
  | other (text : String)
deriving DecidableEq, Inhabited

namespace Sense

def isNode : Sense → Bool
  | .iri _ | .blank _ => true
  | _ => false

def isLabel (s : String) : Bool :=
  match s.toList with
  | '_' :: ':' :: c :: cs => NQuads.isLabelStart c && cs.all NQuads.isLabelChar
  | _ => false

def ofText (s : String) : Sense :=
  if Iri.isAbsolute s then .iri s else if isLabel s then .blank s else .other s

def text? : Sense → Option String
  | .iri s | .blank s | .other s => some s
  | _ => none

/-- What stands for a node: a keyword does so as a text, and nothing does not. -/
def node? : Sense → Option Sense
  | .nothing => none
  | .keyword word => some (.other word)
  | s => some s

end Sense

def isKeywordLike (s : String) : Bool :=
  match s.toList with
  | '@' :: cs => !cs.isEmpty && cs.all Char.isAlpha
  | _ => false

inductive Coercion where
  | id
  | vocab
  | json
  | none
  | datatype (iri : String)
deriving DecidableEq, Inhabited

def Coercion.ofSense? : Sense → Option Coercion
  | .keyword "@id" => some .id
  | .keyword "@vocab" => some .vocab
  | .keyword "@json" => some .json
  | .keyword "@none" => some .none
  | .iri s => some (.datatype s)
  | _ => Option.none

structure Definition where
  /-- Nothing if the term is not to be used. -/
  sense : Sense
  isPrefix : Bool
  isProtected : Bool
  isReverse : Bool
  coercion : Option Coercion
  container : List Container
  index : Option String
  language : Slot String
  direction : Slot String
  nest : Option String
  /-- A local context for the values of the term, or for the nodes of the type. -/
  context : Option Json
deriving Inhabited

namespace Definition

def empty : Definition where
  sense := .nothing
  isPrefix := false
  isProtected := false
  isReverse := false
  coercion := none
  container := []
  index := none
  language := .absent
  direction := .absent
  nest := none
  context := none

def sameMeaning (a b : Definition) : Bool :=
  a.sense = b.sense && a.isPrefix = b.isPrefix && a.isReverse = b.isReverse
    && a.coercion = b.coercion
    && a.container.all b.container.contains && b.container.all a.container.contains
    && a.index = b.index && a.language = b.language && a.direction = b.direction
    && a.nest = b.nest && a.context.map Json.text = b.context.map Json.text

def has (d : Definition) (c : Container) : Bool := d.container.contains c

end Definition

structure Active where
  terms : NameMap Definition
  /-- The base of the document, which a null context returns to. -/
  origin : String
  base : Option String
  vocab : Option Sense
  language : Option String
  direction : Option String
  previous : Option Active
deriving Inhabited

namespace Active

def initial (base : String) : Active where
  terms := []
  origin := base
  base := some base
  vocab := none
  language := none
  direction := none
  previous := none

def term? (a : Active) (term : String) : Option Definition := NameMap.get? a.terms term

def hasProtected (a : Active) : Bool := a.terms.any fun (_, d) => d.isProtected

def underVocab (text : String) : Sense → Sense
  | .iri v | .blank v | .other v => .ofText (v ++ text)
  | _ => .other text

def byBase? (a : Active) (text : String) : Option Sense :=
  if Iri.isReference text then
    match a.base with
    | some base => some (.iri (Iri.resolve base text))
    | none => if Iri.isAbsolute text then some (.iri text) else none
  else none

def plainSense (a : Active) (text : String) (relative vocab : Bool) : Sense :=
  match (if vocab then a.vocab else none) with
  | some v => underVocab text v
  | none => ((if relative then a.byBase? text else none)).getD (.other text)

def compactSense? (a : Active) (text : String) : Option Sense :=
  match cutAtColon text with
  | none => none
  | some (stem, rest) =>
    if stem.isEmpty then none
    else if stem = "_" then some (if Sense.isLabel text then .blank text else .other text)
    else if rest.startsWith "//" then
      some (if Iri.isAbsolute text then .iri text else .other text)
    else
      let prefixed : Option Sense := do
        let d ← a.term? stem
        let front ← if d.isPrefix then d.sense.text? else none
        return .ofText (front ++ rest)
      match prefixed with
      | some s => some s
      | none => if Iri.isAbsolute text then some (.iri text) else none

/-- The sense of a text that is neither a keyword nor like one: of its definition only a keyword
counts unless `vocab` is set. -/
def termSense (a : Active) (text : String) (relative vocab : Bool) : Sense :=
  let own : Option Sense := do
    let d ← a.term? text
    match d.sense with
    | .keyword word => some (.keyword word)
    | s => if vocab then some s else none
  match own with
  | some s => s
  | none => (a.compactSense? text).getD (a.plainSense text relative vocab)

/-- The sense of a text, by the base if `relative` is set and by the vocabulary if `vocab` is. -/
def sense (a : Active) (text : String) (relative vocab : Bool) : Sense :=
  if isKeyword text then .keyword text
  else if isKeywordLike text then .nothing
  else a.termSense text relative vocab

end Active

end LinkedCommit.Expansion
