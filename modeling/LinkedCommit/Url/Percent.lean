import LinkedCommit.Iri.Syntax
import LinkedCommit.Value.Basic
/-!
# Percent encoding

Characters that a part of a URL may not have are written as the percent-encoded bytes of their
UTF-8 form.  Which characters these are differs from part to part; all of them include the
controls and everything outside ASCII.
-/

set_option autoImplicit false

namespace LinkedCommit.Url

abbrev EncodeSet := Char → Bool

def controls : EncodeSet := fun c => c.toNat < 0x20 || 0x7e < c.toNat

def fragmentSet : EncodeSet := fun c => controls c || " \"<>`".toList.contains c

def querySet : EncodeSet := fun c => controls c || " \"#<>".toList.contains c

def specialQuerySet : EncodeSet := fun c => querySet c || c = '\''

def pathSet : EncodeSet := fun c => fragmentSet c || "#?\x7b\x7d".toList.contains c

def userinfoSet : EncodeSet := fun c => pathSet c || "/:;=@[\\]^|".toList.contains c

def upperHexDigit (n : Nat) : Char := (Nat.digitChar n).toUpper

def percentByte (b : UInt8) : List Char :=
  ['%', upperHexDigit (b.toNat / 16), upperHexDigit (b.toNat % 16)]

def encodeChar (set : EncodeSet) (c : Char) : List Char :=
  if set c then (utf8Bytes (String.singleton c)).flatMap percentByte else [c]

def percentEncode (set : EncodeSet) (cs : List Char) : List Char := cs.flatMap (encodeChar set)

def hexValue (c : Char) : Nat :=
  if c.isDigit then c.toNat - 48
  else if 'a' ≤ c then c.toNat - 87
  else c.toNat - 55

def percentDecode : List Char → List UInt8
  | [] => []
  | '%' :: a :: b :: rest =>
    if Iri.isHexDigit a && Iri.isHexDigit b then
      UInt8.ofNat (16 * hexValue a + hexValue b) :: percentDecode rest
    else 0x25 :: percentDecode (a :: b :: rest)
  | c :: rest => utf8Bytes (String.singleton c) ++ percentDecode rest

end LinkedCommit.Url
