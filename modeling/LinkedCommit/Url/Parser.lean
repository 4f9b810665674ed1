import LinkedCommit.Url.Host
/-!
# URLs

A URL is read by the rules of web browsers: blanks around it and line breaks within it are
dropped, backslashes count as slashes where the scheme is a special one, dots in its path are
resolved, and what may not stand in a part is percent-encoded.  `Url.parse?` reads an absolute
URL, `Url.join?` one relative to another, and `Url.text` writes it.
-/

set_option autoImplicit false

namespace LinkedCommit

inductive UrlPath where
  | whole (text : List Char)
  | segments (list : List (List Char))
deriving DecidableEq, Inhabited

/-- A URL in parts; each part is written as it stands. -/
structure Url where
  scheme : List Char
  username : List Char
  password : List Char
  host : Option (List Char)
  port : Option Nat
  path : UrlPath
  query : Option (List Char)
  fragment : Option (List Char)
deriving DecidableEq, Inhabited

namespace Url

def specialPort? (scheme : List Char) : Option (Option Nat) :=
  match String.ofList scheme with
  | "http" | "ws" => some (some 80)
  | "https" | "wss" => some (some 443)
  | "ftp" => some (some 21)
  | "file" => some none
  | _ => none

def isSpecial (scheme : List Char) : Bool := (specialPort? scheme).isSome

def isFile (scheme : List Char) : Bool := scheme = "file".toList

/-- Drops controls and blanks around a text and line breaks and tabs within it. -/
def clean (s : String) : List Char :=
  let outer (c : Char) : Bool := c.toNat ≤ 0x20
  let cs := ((s.toList.dropWhile outer).reverse.dropWhile outer).reverse
  cs.filter fun c => c ≠ '\t' ∧ c ≠ '\n' ∧ c ≠ '\r'

def splitScheme (cs : List Char) : Option (List Char × List Char) :=
  match Iri.cutAt ':' cs with
  | (s, some rest) => if Iri.isScheme s then some (s.map Char.toLower, rest) else none
  | (_, none) => none

/-- A reference without its scheme: what stands before the query, the query and the fragment. -/
structure Reference where
  body : List Char
  query : Option (List Char)
  fragment : Option (List Char)

def splitReference (cs : List Char) : Reference :=
  let (cs, fragment) := Iri.cutAt '#' cs
  let (cs, query) := Iri.cutAt '?' cs
  ⟨cs, query, fragment⟩

def encodeQuery (special : Bool) (query : List Char) : List Char :=
  percentEncode (if special then specialQuerySet else querySet) query

def encodeFragment (fragment : List Char) : List Char := percentEncode fragmentSet fragment

def isDriveLetter : List Char → Bool
  | [a, b] => a.isAlpha && (b = ':' || b = '|')
  | _ => false

def isSingleDot (cs : List Char) : Bool := cs.map Char.toLower ∈ [['.'], ['%', '2', 'e']]

def isDoubleDot (cs : List Char) : Bool :=
  (String.ofList (cs.map Char.toLower)) ∈ ["..", ".%2e", "%2e.", "%2e%2e"]

def shorten (scheme : List Char) (segments : List (List Char)) : List (List Char) :=
  match segments with
  | [s] => if isFile scheme && isDriveLetter s then [s] else []
  | segments => segments.dropLast

def splitPath (special : Bool) (cs : List Char) : List (List Char) :=
  Iri.splitOn '/' (if special then cs.map fun c => if c = '\\' then '/' else c else cs)

def addSegments (scheme : List Char) :
    List (List Char) → List (List Char) → List (List Char)
  | path, [] => path
  | path, s :: rest =>
    let last := rest.isEmpty
    let path :=
      if isDoubleDot s then
        let path := shorten scheme path
        if last then path ++ [[]] else path
      else if isSingleDot s then if last then path ++ [[]] else path
      else
        let encoded := percentEncode pathSet s
        let segment :=
          if isFile scheme && path.isEmpty && isDriveLetter encoded then
            encoded.take 1 ++ [':']
          else encoded
        path ++ [segment]
    addSegments scheme path rest

def absoluteSegments (scheme : List Char) (cs : List Char) : List (List Char) :=
  addSegments scheme [] (splitPath (isSpecial scheme) cs)

def isSlash (special : Bool) (c : Char) : Bool := c = '/' || (special && c = '\\')

/-- The segments of a path after an authority: an empty one has a segment only where the scheme
is a special one. -/
def pathAfterAuthority (scheme : List Char) (cs : List Char) : UrlPath :=
  match cs with
  | [] => .segments (if isSpecial scheme then [[]] else [])
  | c :: rest =>
    .segments (absoluteSegments scheme (if isSlash (isSpecial scheme) c then rest else c :: rest))

/-- The port of an authority; the default one is not kept. -/
def port? (scheme : List Char) (cs : List Char) : Option (Option Nat) :=
  if !cs.all Char.isDigit then none
  else if cs.isEmpty then some none
  else
    let n := cs.foldl (fun n c => 10 * n + hexValue c) 0
    if 65535 < n then none
    else if specialPort? scheme = some (some n) then some none
    else some (some n)

def splitPort (cs : List Char) : List Char × Option (List Char) :=
  match cs with
  | '[' :: _ =>
    let address := cs.takeWhile (· ≠ ']')
    match cs.drop address.length with
    | ']' :: ':' :: port => (address ++ [']'], some port)
    | ']' :: rest => (address ++ ']' :: rest, none)
    | _ => (cs, none)
  | cs => Iri.cutAt ':' cs

def splitUser (cs : List Char) : Option (List Char) × List Char :=
  match Iri.cutAt '@' cs.reverse with
  | (host, some user) => (some user.reverse, host.reverse)
  | (_, none) => (none, cs)

def withAuthority? (scheme : List Char) (r : Reference) (cs : List Char) : Option Url := do
  let special := isSpecial scheme
  let authority := cs.takeWhile fun c => !isSlash special c
  let path := cs.drop authority.length
  let (user, hostPort) := splitUser authority
  let (name, password) := Iri.cutAt ':' (user.getD [])
  let (host, portText) := splitPort hostPort
  if host.isEmpty && (special || user.isSome || portText.isSome) then none
  let port ← port? scheme (portText.getD [])
  let host ← if host.isEmpty then some [] else Host.read? special host
  some
    { scheme
      username := percentEncode userinfoSet name
      password := percentEncode userinfoSet (password.getD [])
      host := some host
      port
      path := pathAfterAuthority scheme path
      query := r.query.map (encodeQuery special)
      fragment := r.fragment.map encodeFragment }

def withFileHost? (r : Reference) (cs : List Char) : Option Url := do
  let scheme := "file".toList
  let name := cs.takeWhile fun c => !isSlash true c
  let url (host : List Char) (path : UrlPath) : Url :=
    { scheme, username := [], password := [], host := some host, port := none, path
      query := r.query.map (encodeQuery true), fragment := r.fragment.map encodeFragment }
  if isDriveLetter name then some (url [] (pathAfterAuthority scheme cs))
  else if name.isEmpty then some (url [] (pathAfterAuthority scheme cs))
  else
    let host ← Host.read? true name
    let host := if host = "localhost".toList then [] else host
    some (url host (pathAfterAuthority scheme (cs.drop name.length)))

def dropSlashes (special : Bool) (cs : List Char) : List Char := cs.dropWhile (isSlash special)

/-- Whether a text starts with a letter, a colon or bar, and the end or a slash. -/
def startsWithDrive (cs : List Char) : Bool :=
  isDriveLetter (cs.take 2)
    && match cs.drop 2 with
      | [] => true
      | c :: _ => isSlash true c

def relativeTo? (base : Url) (path : List (List Char)) (r : Reference) : Option Url :=
  let scheme := base.scheme
  let special := isSpecial scheme
  let query := r.query.map (encodeQuery special)
  let fragment := r.fragment.map encodeFragment
  let file := isFile scheme
  match r.body with
  | [] =>
    some { base with query := if r.query.isSome then query else base.query, fragment }
  | c :: rest =>
    if isSlash special c then
      match rest with
      | d :: rest' =>
        if isSlash special d then
          if file then withFileHost? r rest'
          else withAuthority? scheme r (if special then dropSlashes special rest' else rest')
        else
          let kept := if file && !startsWithDrive rest then
            (path.take 1).filter isDriveLetter else []
          some { base with
            path := .segments (addSegments scheme kept (splitPath special rest)), query, fragment }
      | [] => some { base with
          path := .segments (addSegments scheme
            (if file then (path.take 1).filter isDriveLetter else []) [[]]), query, fragment }
    else
      let kept := if file && startsWithDrive (c :: rest) then [] else shorten scheme path
      some { base with
        path := .segments (addSegments scheme kept (splitPath special (c :: rest))), query
        fragment }

def fileUrl? (r : Reference) : Option Url :=
  let empty : Url :=
    { scheme := "file".toList, username := [], password := [], host := some [], port := none
      path := .segments [], query := none, fragment := none }
  match r.body with
  | [] => some { empty with
      path := .segments [[]], query := r.query.map (encodeQuery true)
      fragment := r.fragment.map encodeFragment }
  | _ => relativeTo? empty [] r

def withScheme? (scheme rest : List Char) (base : Option Url) : Option Url :=
  let special := isSpecial scheme
  let r := splitReference rest
  let sameBase := base.bind fun b => if b.scheme = scheme then some b else none
  if isFile scheme then
    match sameBase with
    | some ⟨s, u, p, h, o, .segments path, q, f⟩ =>
      relativeTo? ⟨s, u, p, h, o, .segments path, q, f⟩ path r
    | _ => fileUrl? r
  else if special then
    match sameBase, r.body with
    | some b, '/' :: '/' :: _ => withAuthority? b.scheme r (dropSlashes true r.body)
    | some b, body =>
      match b.path with
      | .segments path => relativeTo? b path r
      | .whole _ => withAuthority? scheme r (dropSlashes true body)
    | none, body => withAuthority? scheme r (dropSlashes true body)
  else
    let query := r.query.map (encodeQuery special)
    let fragment := r.fragment.map encodeFragment
    match r.body with
    | '/' :: '/' :: authority => withAuthority? scheme r authority
    | '/' :: path =>
      some { scheme, username := [], password := [], host := none, port := none
             path := .segments (absoluteSegments scheme path), query, fragment }
    | path =>
      some { scheme, username := [], password := [], host := none, port := none
             path := .whole (percentEncode controls path), query, fragment }

def parse? (s : String) : Option Url :=
  match splitScheme (clean s) with
  | some (scheme, rest) => withScheme? scheme rest none
  | none => none

def join? (base : Url) (s : String) : Option Url :=
  let cs := clean s
  match splitScheme cs with
  | some (scheme, rest) => withScheme? scheme rest (some base)
  | none =>
    let r := splitReference cs
    match base.path with
    | .segments path => relativeTo? base path r
    | .whole _ =>
      if cs.head? = some '#' then some { base with fragment := r.fragment.map encodeFragment }
      else none

def text (u : Url) : String :=
  let credentials :=
    if u.username.isEmpty && u.password.isEmpty then []
    else
      u.username ++ (if u.password.isEmpty then [] else ':' :: u.password) ++ ['@']
  let authority := match u.host with
    | some host =>
      '/' :: '/' :: (credentials ++ host
        ++ (match u.port with
          | some n => ':' :: (toString n).toList
          | none => []))
    | none => []
  let path := match u.path with
    | .whole text => text
    | .segments list =>
      let joined := list.flatMap ('/' :: ·)
      if u.host.isNone && 1 < list.length && list.head? = some [] then '/' :: '.' :: joined
      else joined
  let after (mark : Char) : Option (List Char) → List Char
    | some cs => mark :: cs
    | none => []
  String.ofList <|
    u.scheme ++ ':' :: (authority ++ path ++ after '?' u.query ++ after '#' u.fragment)

end Url

end LinkedCommit
