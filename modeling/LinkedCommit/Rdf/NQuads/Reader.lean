import LinkedCommit.Rdf.Dataset
import LinkedCommit.Rdf.LanguageTag
import LinkedCommit.Json.Reader
/-!
# Reading N-Quads

A text of N-Quads has a statement a line: a subject, a predicate, an object, possibly a graph,
and a full stop.  Blanks may stand between them, and a comment may follow.  Identifiers have
a scheme, and language tags are read in lower case.
-/

set_option autoImplicit false

namespace LinkedCommit.NQuads

/-- A step of the reader: a value and the characters after it. -/
abbrev Step (α : Type) := List Char → Option (α × List Char)

def skipBlanks (cs : List Char) : List Char := cs.dropWhile fun c => c = ' ' || c = '\t'

def numberedChar (width : Nat) : Step Char := fun cs =>
  let ds := cs.take width
  if ds.length = width ∧ ds.all Iri.isHexDigit then
    let n := ds.foldl (fun n d => 16 * n + (Json.Lexer.hexValue? d).getD 0) 0
    if n.isValidChar then some (Char.ofNat n, cs.drop width) else none
  else none

theorem numberedChar_length {width : Nat} {cs rest : List Char} {c : Char}
    (h : numberedChar width cs = some (c, rest)) : rest.length ≤ cs.length := by
  simp only [numberedChar] at h
  split at h
  · split at h
    · cases h; simp
    · cases h
  · cases h

def iriBody (done : List Char) : Step String
  | [] => none
  | '>' :: cs => some (String.ofList done.reverse, cs)
  | '\\' :: 'u' :: cs =>
    match _h : numberedChar 4 cs with
    | some (c, rest) => iriBody (c :: done) rest
    | none => none
  | '\\' :: 'U' :: cs =>
    match _h : numberedChar 8 cs with
    | some (c, rest) => iriBody (c :: done) rest
    | none => none
  | c :: cs => if c = '\\' then none else iriBody (c :: done) cs
termination_by cs => cs.length
decreasing_by
  · have := numberedChar_length _h; simp only [List.length_cons]; omega
  · have := numberedChar_length _h; simp only [List.length_cons]; omega
  · simp only [List.length_cons]; omega

def iri : Step String
  | '<' :: cs =>
    (iriBody [] cs).bind fun (s, rest) => if Iri.isAbsolute s then some (s, rest) else none
  | _ => none

def isNameBase (c : Char) : Bool :=
  let n := c.toNat
  c.isAlpha || (0xc0 ≤ n && n ≤ 0xd6) || (0xd8 ≤ n && n ≤ 0xf6) || (0xf8 ≤ n && n ≤ 0x2ff)
    || (0x370 ≤ n && n ≤ 0x37d) || (0x37f ≤ n && n ≤ 0x1fff) || (0x200c ≤ n && n ≤ 0x200d)
    || (0x2070 ≤ n && n ≤ 0x218f) || (0x2c00 ≤ n && n ≤ 0x2fef) || (0x3001 ≤ n && n ≤ 0xd7ff)
    || (0xf900 ≤ n && n ≤ 0xfdcf) || (0xfdf0 ≤ n && n ≤ 0xfffd) || (0x10000 ≤ n && n ≤ 0xeffff)

def isLabelStart (c : Char) : Bool := isNameBase c || c = '_' || c = ':' || c.isDigit

def isLabelChar (c : Char) : Bool :=
  let n := c.toNat
  isLabelStart c || c = '-' || n = 0xb7 || (0x300 ≤ n && n ≤ 0x36f)
    || (0x203f ≤ n && n ≤ 0x2040)

/-- A blank node; a label does not end with a dot. -/
def blankNode : Step Term
  | '_' :: ':' :: c :: cs =>
    if isLabelStart c then
      let run := cs.takeWhile fun d => isLabelChar d || d = '.'
      let body := (run.reverse.dropWhile (· = '.')).reverse
      some (.blank (String.ofList ('_' :: ':' :: c :: body)), cs.drop body.length)
    else none
  | _ => none

def escaped? (c : Char) : Option Char :=
  if c = 't' then some '\t'
  else if c = 'b' then some '\x08'
  else if c = 'n' then some '\n'
  else if c = 'r' then some '\r'
  else if c = 'f' then some '\x0c'
  else if c = '"' || c = '\'' || c = '\\' then some c
  else none

def stringBody (done : List Char) : Step String
  | [] => none
  | '"' :: cs => some (String.ofList done.reverse, cs)
  | '\\' :: 'u' :: cs =>
    match _h : numberedChar 4 cs with
    | some (c, rest) => stringBody (c :: done) rest
    | none => none
  | '\\' :: 'U' :: cs =>
    match _h : numberedChar 8 cs with
    | some (c, rest) => stringBody (c :: done) rest
    | none => none
  | '\\' :: d :: cs =>
    match escaped? d with
    | some c => stringBody (c :: done) cs
    | none => none
  | c :: cs => if c = '\\' || c = '\r' then none else stringBody (c :: done) cs
termination_by cs => cs.length
decreasing_by
  · have := numberedChar_length _h; simp only [List.length_cons]; omega
  · have := numberedChar_length _h; simp only [List.length_cons]; omega
  · simp only [List.length_cons]; omega
  · simp only [List.length_cons]; omega

def literal : Step Term
  | '"' :: cs => do
    let (value, cs) ← stringBody [] cs
    match skipBlanks cs with
    | '@' :: r =>
      let tag := r.takeWhile fun c => c.isAlphanum || c = '-'
      let lower := String.ofList (tag.map Char.toLower)
      if isLanguageTag lower then
        some (.literal ⟨value, Rdf.langString, some lower⟩, r.drop tag.length)
      else none
    | '^' :: '^' :: r => do
      let (datatype, r) ← iri (skipBlanks r)
      some (.literal ⟨value, datatype, none⟩, r)
    | r => some (.literal ⟨value, Xsd.string, none⟩, r)
  | _ => none

def resource : Step Term
  | '_' :: cs => blankNode ('_' :: cs)
  | cs => (iri cs).map fun (name, rest) => (.iri name, rest)

def object : Step Term
  | '"' :: cs => literal ('"' :: cs)
  | cs => resource cs

def graph : Step (Option Term)
  | '<' :: cs => (resource ('<' :: cs)).map fun (t, rest) => (some t, rest)
  | '_' :: cs => (resource ('_' :: cs)).map fun (t, rest) => (some t, rest)
  | cs => some (none, cs)

def isRest : List Char → Bool
  | [] => true
  | c :: _ => c = '#' || c = '\r'

def readLine (cs : List Char) : Option (Option Quad) :=
  let cs := skipBlanks cs
  if isRest cs then some none
  else do
    let (subject, cs) ← resource cs
    let (predicate, cs) ← iri (skipBlanks cs)
    let (obj, cs) ← object (skipBlanks cs)
    let (g, cs) ← graph (skipBlanks cs)
    match skipBlanks cs with
    | '.' :: rest =>
      if isRest (skipBlanks rest) then some (some ⟨subject, .iri predicate, obj, g⟩) else none
    | _ => none

def read? (text : String) : Option Dataset :=
  ((Iri.splitOn '\n' text.toList).mapM readLine).map fun quads =>
    Dataset.ofQuads (quads.filterMap id)

end LinkedCommit.NQuads
