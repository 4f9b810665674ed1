import LinkedCommit.Json.Writer
import LinkedCommit.Rdf.Term
import LinkedCommit.Value.Datatype
/-!
# Writing N-Quads

Every statement is a line, its terms each followed by a blank, in the canonical form: in strings
only the quote, the backslash and controls are escaped, and the datatype of plain strings is
left out.
-/

set_option autoImplicit false

namespace LinkedCommit.NQuads

def escapeChar (c : Char) : List Char :=
  if c = '\x08' then ['\\', 'b']
  else if c = '\t' then ['\\', 't']
  else if c = '\n' then ['\\', 'n']
  else if c = '\x0c' then ['\\', 'f']
  else if c = '\r' then ['\\', 'r']
  else if c = '"' || c = '\\' then ['\\', c]
  else if c.toNat < 0x20 || c.toNat = 0x7f then
    let digit (n : Nat) : Char := (Json.hexDigit n).toUpper
    ['\\', 'u', '0', '0', digit (c.toNat / 16), digit (c.toNat % 16)]
  else [c]

def stringText (s : String) : String :=
  String.ofList ('"' :: (s.toList.flatMap escapeChar ++ ['"']))

def termText : Term → String
  | .iri name => "<" ++ name ++ ">"
  | .blank label => label
  | .literal l =>
    match l.language with
    | some tag => stringText l.value ++ "@" ++ tag
    | none =>
      if l.datatype = Xsd.string then stringText l.value
      else stringText l.value ++ "^^<" ++ l.datatype ++ ">"

def quadTexts (q : Quad) : List String :=
  ([q.subject, q.predicate, q.object] ++ q.graph.toList).map fun t => termText t ++ " "

def line (q : Quad) : String := String.join (quadTexts q) ++ ".\n"

def text (quads : List Quad) : String := String.join (quads.map line)

end LinkedCommit.NQuads
