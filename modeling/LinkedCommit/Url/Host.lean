import LinkedCommit.Url.Percent
import LinkedCommit.Url.Punycode
import LinkedCommit.Number.Decimal
import LinkedCommit.Text.Character
/-!
# Hosts

The host of a URL is a domain name, an IPv4 or IPv6 address, or, where the scheme is not a
special one, any text.  `Host.read?` answers the text that a host is written as: names in lower
case and ASCII, addresses in their shortest forms.

Names with characters outside ASCII are put in lower case letter by letter and written in Punycode.
They are not mapped or normalized otherwise, nor are their labels checked: characters that stand
for others or are left out, marks joined to the letter before them, labels that mix directions or
are written in Punycode already are taken as they stand.
-/

set_option autoImplicit false

namespace LinkedCommit.Url

def isForbiddenHostChar (c : Char) : Bool :=
  c.toNat = 0 || "\t\n\r #/:<>?@[\\]^|".toList.contains c

def isForbiddenDomainChar (c : Char) : Bool :=
  isForbiddenHostChar c || c = '%' || c.toNat < 0x20 || c.toNat = 0x7f

namespace Host

/-- A number in a part of an IPv4 address: octal after a zero, hexadecimal after `0x`. -/
def ipv4Number? (cs : List Char) : Option Nat :=
  let digitsTo (base : Nat) (ok : Char → Bool) (cs : List Char) : Option Nat :=
    if cs.all ok then some (cs.foldl (fun n c => base * n + hexValue c) 0) else none
  match cs with
  | [] => none
  | '0' :: 'x' :: rest => digitsTo 16 Iri.isHexDigit rest
  | '0' :: 'X' :: rest => digitsTo 16 Iri.isHexDigit rest
  | '0' :: c :: rest => digitsTo 8 (fun d => '0' ≤ d && d ≤ '7') (c :: rest)
  | cs => digitsTo 10 Char.isDigit cs

def nameParts (cs : List Char) : List (List Char) :=
  let parts := Iri.splitOn '.' cs
  if 1 < parts.length && parts.getLast? = some [] then parts.dropLast else parts

/-- Whether the last part of a name makes it an IPv4 address, be it a valid one or not. -/
def endsInNumber (cs : List Char) : Bool :=
  match (nameParts cs).getLast? with
  | some last =>
    (!last.isEmpty && last.all Char.isDigit)
      || ((last.take 2 = ['0', 'x'] || last.take 2 = ['0', 'X']) && (ipv4Number? last).isSome)
  | none => false

def ipv4? (cs : List Char) : Option Nat := do
  let parts := nameParts cs
  if 4 < parts.length then none
  let numbers ← parts.mapM ipv4Number?
  let leading := numbers.dropLast
  let last ← numbers.getLast?
  if leading.all (· ≤ 255) && last < twoTo (8 * (5 - numbers.length)) then
    some (leading.zipIdx.foldl (fun sum (n, i) => sum + n * twoTo (8 * (3 - i))) last)
  else none

def ipv4Text (n : Nat) : List Char :=
  (String.intercalate "." ([n >>> 24, n >>> 16, n >>> 8, n].map fun b => toString (b % 256))).toList

def ipv6Side? : List (List Char) → Option (List Nat)
  | [] => some []
  | [g] =>
    if Iri.isIpv4 g then
      let bytes := (Iri.splitOn '.' g).map fun b => b.foldl (fun n c => 10 * n + hexValue c) 0
      match bytes with
      | [a, b, c, d] => some [256 * a + b, 256 * c + d]
      | _ => none
    else if !g.isEmpty && g.length ≤ 4 && g.all Iri.isHexDigit then
      some [g.foldl (fun n c => 16 * n + hexValue c) 0]
    else none
  | g :: rest =>
    if !g.isEmpty && g.length ≤ 4 && g.all Iri.isHexDigit then
      (ipv6Side? rest).map (g.foldl (fun n c => 16 * n + hexValue c) 0 :: ·)
    else none

def ipv6? (cs : List Char) : Option (List Nat) :=
  let groups (cs : List Char) : List (List Char) := if cs.isEmpty then [] else Iri.splitOn ':' cs
  match Iri.cutDoubleColon cs with
  | none => (ipv6Side? (groups cs)).bind fun g => if g.length = 8 then some g else none
  | some (before, after) => do
    let a ← if before.contains '.' then none else ipv6Side? (groups before)
    let b ← ipv6Side? (groups after)
    if a.length + b.length ≤ 7 then
      some (a ++ List.replicate (8 - a.length - b.length) 0 ++ b)
    else none

def zeroRuns : List Nat → List Nat
  | [] => []
  | g :: rest =>
    let runs := zeroRuns rest
    (if g = 0 then runs.headD 0 + 1 else 0) :: runs

def longestRun (groups : List Nat) : Option (Nat × Nat) :=
  let runs := zeroRuns groups
  let best := runs.foldl max 0
  if best < 2 then none else (runs.findIdx? (· = best)).map (·, best)

def ipv6Text (groups : List Nat) : List Char :=
  let join (gs : List Nat) : List Char :=
    (String.intercalate ":" (gs.map fun g => String.ofList (Nat.toDigits 16 g))).toList
  match longestRun groups with
  | none => join groups
  | some (start, length) =>
    join (groups.take start) ++ ':' :: ':' :: join (groups.drop (start + length))

def asciiLabel (cs : List Char) : List Char :=
  if cs.all fun c => c.toNat < 128 then cs else 'x' :: 'n' :: '-' :: '-' :: Punycode.encode cs

def domain? (cs : List Char) : Option (List Char) :=
  let lower := cs.flatMap Text.lowerChar
  let dots := lower.map fun c => if "\u3002\uff0e\uff61".toList.contains c then '.' else c
  let ascii := List.intercalate ['.'] ((Iri.splitOn '.' dots).map asciiLabel)
  if ascii.isEmpty || ascii.any isForbiddenDomainChar then none else some ascii

def read? (special : Bool) (cs : List Char) : Option (List Char) :=
  match cs with
  | '[' :: rest =>
    if rest.getLast? = some ']' then
      (ipv6? rest.dropLast).map fun groups => '[' :: (ipv6Text groups ++ [']'])
    else none
  | cs =>
    if special then do
      let decoded ← String.fromUTF8? ⟨(percentDecode cs).toArray⟩
      let name ← domain? decoded.toList
      if endsInNumber name then (ipv4? name).map ipv4Text else some name
    else if cs.any isForbiddenHostChar then none
    else some (percentEncode controls cs)

end Host

end LinkedCommit.Url
