import LinkedCommit.Value.Datatype
/-!
# Native values

A caller who holds a native value and the datatype of a field computes the field element that
a document with this value commits: `NativeValue.lexical` is the text of the value under the
datatype, and `hashValue` decodes and encodes it.  A number is never rounded: an integer used
as a floating-point number, or the other way round, must be exact.
-/

set_option autoImplicit false

namespace LinkedCommit

inductive NativeValue where
  | string (value : String)
  | int (value : Int64)
  | uint (value : UInt64)
  | float (value : Double)
  | bool (value : Bool)
  | time (value : Timestamp)
  | bigInt (value : Int)
deriving DecidableEq, Inhabited

def floatToInteger (d : Double) : Except ValueError Int :=
  match d.toInt? with
  | some v => .ok v
  | none => .error (.notRepresentable d.plainText "integer")

def integerToDouble (v : Int) : Except ValueError Double :=
  (Double.ofInt? v).elim (.error (.notRepresentable (toString v) "double")) .ok

def integerLexical (v : Int) (datatype : String) : Except ValueError String :=
  if datatype = Xsd.double then (integerToDouble v).map canonicalDouble else .ok (toString v)

namespace NativeValue

def lexical (native : NativeValue) (datatype : String) : Except ValueError String :=
  match native with
  | .string s => .ok s
  | .bool b => .ok (toString b)
  | .time t => .ok (t.text .zulu)
  | .int v => integerLexical v.toInt datatype
  | .uint v => integerLexical v.toNat datatype
  | .bigInt v => integerLexical v datatype
  | .float d =>
    if isIntegerDatatype datatype then (floatToInteger d).map toString
    else if datatype = Xsd.double then .ok (canonicalDouble d)
    else .ok d.plainText

def toValue? : NativeValue → Option Value
  | .string s => some (.string s)
  | .int v => some (.int v)
  | .uint v => some (Value.ofNat v.toNat)
  | .float _ => none
  | .bool b => some (.bool b)
  | .time t => some (.time t)
  | .bigInt v => some (.bigInt v)

end NativeValue

def hashValue (hasher : Hasher) (datatype : String) (native : NativeValue) :
    Except EncodingError Nat := do
  let text ← (native.lexical datatype).mapError .value
  let value ← (Value.decode datatype text hasher.prime).mapError .value
  value.encode hasher

end LinkedCommit
