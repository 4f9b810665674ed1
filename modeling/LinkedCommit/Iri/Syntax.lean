/-!
# The syntax of identifiers

An IRI has a scheme, possibly an authority, a path, and possibly a query and a fragment, each
over its own set of characters.  `Iri.split` cuts a text into these parts without a check;
`Iri.isAbsolute` checks them.
-/

set_option autoImplicit false

namespace LinkedCommit.Iri

structure Parts where
  scheme : Option (List Char)
  authority : Option (List Char)
  path : List Char
  query : Option (List Char)
  fragment : Option (List Char)
deriving DecidableEq, Inhabited

/-- Cuts at the first occurrence of a character, which is dropped. -/
def cutAt (c : Char) (cs : List Char) : List Char × Option (List Char) :=
  match cs.dropWhile (· ≠ c) with
  | [] => (cs, none)
  | _ :: rest => (cs.takeWhile (· ≠ c), some rest)

def isSchemeChar (c : Char) : Bool := c.isAlphanum || c = '+' || c = '-' || c = '.'

def isScheme : List Char → Bool
  | [] => false
  | c :: cs => c.isAlpha && cs.all isSchemeChar

def split (cs : List Char) : Parts :=
  let (cs, fragment) := cutAt '#' cs
  let (cs, query) := cutAt '?' cs
  let (scheme, cs) :=
    match cutAt ':' cs with
    | (s, some rest) => if isScheme s then (some s, rest) else (none, cs)
    | (_, none) => (none, cs)
  match cs with
  | '/' :: '/' :: rest =>
    ⟨scheme, some (rest.takeWhile (· ≠ '/')), rest.dropWhile (· ≠ '/'), query, fragment⟩
  | path => ⟨scheme, none, path, query, fragment⟩

def Parts.text (p : Parts) : List Char :=
  let after (mark : List Char) : Option (List Char) → List Char
    | some cs => mark ++ cs
    | none => []
  (match p.scheme with
    | some s => s ++ [':']
    | none => [])
    ++ after ['/', '/'] p.authority ++ p.path ++ after ['?'] p.query ++ after ['#'] p.fragment

def isUcsChar (c : Char) : Bool :=
  let n := c.toNat
  (0xa0 ≤ n && n ≤ 0xd7ff) || (0xf900 ≤ n && n ≤ 0xfdcf) || (0xfdf0 ≤ n && n ≤ 0xffef)
    || (0x10000 ≤ n && n < 0xe0000 && n % 0x10000 ≤ 0xfffd) || (0xe1000 ≤ n && n ≤ 0xefffd)

def isPrivate (c : Char) : Bool :=
  let n := c.toNat
  (0xe000 ≤ n && n ≤ 0xf8ff) || (0xf0000 ≤ n && n ≤ 0xffffd) || (0x100000 ≤ n && n ≤ 0x10fffd)

def isUnreserved (c : Char) : Bool :=
  c.isAlphanum || c = '-' || c = '.' || c = '_' || c = '~' || isUcsChar c

def isSubDelimiter (c : Char) : Bool := "!$&'()*+,;=".toList.contains c

def isHexDigit (c : Char) : Bool :=
  c.isDigit || ('a' ≤ c && c ≤ 'f') || ('A' ≤ c && c ≤ 'F')

/-- Whether a part has only unreserved characters, delimiters, those of `more`, and percent
signs before two hexadecimal digits. -/
def isPart (more : Char → Bool) : List Char → Bool
  | [] => true
  | '%' :: a :: b :: rest => isHexDigit a && isHexDigit b && isPart more rest
  | c :: rest => (isUnreserved c || isSubDelimiter c || more c) && isPart more rest

def isPath : List Char → Bool := isPart fun c => c = ':' || c = '@' || c = '/'

def isQuery : List Char → Bool :=
  isPart fun c => c = ':' || c = '@' || c = '/' || c = '?' || isPrivate c

def isFragment : List Char → Bool := isPart fun c => c = ':' || c = '@' || c = '/' || c = '?'

def splitOn (c : Char) (cs : List Char) : List (List Char) :=
  cs.foldr
    (fun d groups =>
      if d = c then [] :: groups
      else
        match groups with
        | g :: rest => (d :: g) :: rest
        | [] => [[d]])
    [[]]

/-- A number from 0 to 255 without a leading zero. -/
def isDecimalByte (cs : List Char) : Bool :=
  !cs.isEmpty && cs.length ≤ 3 && cs.all Char.isDigit && (cs.length = 1 || cs.head? ≠ some '0')
    && cs.foldl (fun n c => 10 * n + (c.toNat - 48)) 0 ≤ 255

def isIpv4 (cs : List Char) : Bool :=
  let bytes := splitOn '.' cs
  bytes.length = 4 && bytes.all isDecimalByte

/-- The number of 16-bit groups of a list of texts, the last of which may be an IPv4 address. -/
def ipv6Groups? : List (List Char) → Option Nat
  | [] => some 0
  | [g] =>
    if isIpv4 g then some 2
    else if !g.isEmpty && g.length ≤ 4 && g.all isHexDigit then some 1
    else none
  | g :: rest =>
    if !g.isEmpty && g.length ≤ 4 && g.all isHexDigit then (ipv6Groups? rest).map (· + 1)
    else none

def cutDoubleColon : List Char → Option (List Char × List Char)
  | [] => none
  | [_] => none
  | ':' :: ':' :: rest => some ([], rest)
  | c :: rest => (cutDoubleColon rest).map fun (a, b) => (c :: a, b)

def isIpv6 (cs : List Char) : Bool :=
  let groups (cs : List Char) : List (List Char) := if cs.isEmpty then [] else splitOn ':' cs
  match cutDoubleColon cs with
  | none => ipv6Groups? (groups cs) = some 8
  | some (before, after) =>
    match ipv6Groups? (groups before), ipv6Groups? (groups after) with
    | some a, some b => a + b ≤ 7 && !(before.contains '.')
    | _, _ => false

/-- An address of a version to come: `v`, hexadecimal digits, a dot and characters. -/
def isIpvFuture : List Char → Bool
  | [] => false
  | v :: rest =>
    let digits := rest.takeWhile isHexDigit
    (v = 'v' || v = 'V') && !digits.isEmpty
      && match rest.drop digits.length with
        | '.' :: body =>
          !body.isEmpty
            && body.all fun c => (isUnreserved c && !isUcsChar c) || isSubDelimiter c || c = ':'
        | _ => false

def isAuthority (cs : List Char) : Bool :=
  let (userOk, hostPort) :=
    match cutAt '@' cs with
    | (user, some rest) => (isPart (· = ':') user, rest)
    | (_, none) => (true, cs)
  let isPort (cs : List Char) : Bool := cs.all Char.isDigit
  userOk
    && match hostPort with
      | '[' :: rest =>
        match cutAt ']' rest with
        | (address, some []) => isIpv6 address || isIpvFuture address
        | (address, some (':' :: port)) => (isIpv6 address || isIpvFuture address) && isPort port
        | _ => false
      | _ =>
        match cutAt ':' hostPort with
        | (host, some port) => isPart (fun _ => false) host && isPort port
        | (host, none) => isPart (fun _ => false) host

def Parts.isWellFormed (p : Parts) : Bool :=
  (p.authority.map isAuthority).getD true && isPath p.path && (p.query.map isQuery).getD true
    && (p.fragment.map isFragment).getD true

def isAbsolute (s : String) : Bool :=
  let p := split s.toList
  p.scheme.isSome && p.isWellFormed

end LinkedCommit.Iri
