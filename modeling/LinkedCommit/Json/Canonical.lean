import LinkedCommit.Json.Writer
/-!
# Canonical JSON

In the canonical form of a value every number is the floating-point number nearest to it, and the
members of objects are in the order of the UTF-16 code units of their names.
-/

set_option autoImplicit false

namespace LinkedCommit

def JsonNumber.double : JsonNumber → Double
  | .integer n => Double.nearestInt n
  | .float d => d

/-- Canonical numbers: positional from `1e-6` up to 21 digits, integers without a point. -/
def canonicalNumberLayout : NumberLayout where
  positionalFrom := -6
  positionalTo := 20
  integralPoint := false
  mantissaPoint := false
  exponentMark := "e"
  exponentPlus := true
  tie := .even
  signedZero := false
  nan := "null"
  infinity := "null"

def JsonNumber.canonicalText (n : JsonNumber) : String := n.double.render canonicalNumberLayout

namespace Json

def codeUnits (c : Char) : List Nat :=
  let n := c.toNat
  if n < 0x10000 then [n]
  else [0xd800 + (n - 0x10000) / 0x400, 0xdc00 + (n - 0x10000) % 0x400]

def codeUnitsLt (a b : String) : Bool :=
  List.lex (a.toList.flatMap codeUnits) (b.toList.flatMap codeUnits) fun m n => decide (m < n)

def joinMembers (members : List (String × String)) : String :=
  let sorted := members.mergeSort fun a b => !codeUnitsLt b.1 a.1
  String.intercalate "," (sorted.map fun (name, text) => stringText name ++ ":" ++ text)

mutual

def canonicalText : Json → String
  | .null => "null"
  | .bool b => if b then "true" else "false"
  | .number n => n.canonicalText
  | .string s => stringText s
  | .array items => "[" ++ String.intercalate "," (canonicalItems items) ++ "]"
  | .object members => "\x7b" ++ joinMembers (canonicalMembers members) ++ "\x7d"

def canonicalItems : List Json → List String
  | [] => []
  | item :: rest => canonicalText item :: canonicalItems rest

def canonicalMembers : List (String × Json) → List (String × String)
  | [] => []
  | (name, value) :: rest => (name, canonicalText value) :: canonicalMembers rest

end

/-! The depth to which a value is nested, which bounds every walk into it. -/

mutual

def height : Json → Nat
  | .array items => heightItems items + 1
  | .object members => heightMembers members + 1
  | _ => 0

def heightItems : List Json → Nat
  | [] => 0
  | item :: rest => max (height item) (heightItems rest)

def heightMembers : List (String × Json) → Nat
  | [] => 0
  | (_, value) :: rest => max (height value) (heightMembers rest)

end

end Json

end LinkedCommit
