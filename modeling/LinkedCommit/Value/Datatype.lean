import LinkedCommit.Value.Basic
import LinkedCommit.Number.Reader
/-!
# Datatypes

A literal is a text with the identifier of a datatype, and `Value.decode` is its value.
Booleans, the five integer types, timestamps and floating-point numbers are read; under every
other datatype the text is the value.  A floating-point number is committed as a text, its
canonical form, so that two spellings of one number are one value.
-/

set_option autoImplicit false

namespace LinkedCommit

namespace Xsd

def base : String := "http://www.w3.org/2001/XMLSchema#"

def string : String := base ++ "string"
def boolean : String := base ++ "boolean"
def integer : String := base ++ "integer"
def nonNegativeInteger : String := base ++ "nonNegativeInteger"
def nonPositiveInteger : String := base ++ "nonPositiveInteger"
def negativeInteger : String := base ++ "negativeInteger"
def positiveInteger : String := base ++ "positiveInteger"
def dateTime : String := base ++ "dateTime"
def double : String := base ++ "double"

end Xsd

inductive IntegerType where
  | integer
  | nonNegative
  | nonPositive
  | negative
  | positive
deriving DecidableEq, Repr

namespace IntegerType

def ofName? (name : String) : Option IntegerType :=
  if name = Xsd.integer then some .integer
  else if name = Xsd.nonNegativeInteger then some .nonNegative
  else if name = Xsd.nonPositiveInteger then some .nonPositive
  else if name = Xsd.negativeInteger then some .negative
  else if name = Xsd.positiveInteger then some .positive
  else none

def minimum (t : IntegerType) (window : FieldWindow) : Int :=
  match t with
  | .nonNegative => 0
  | .positive => 1
  | .integer | .nonPositive | .negative => window.minInt

def maximum (t : IntegerType) (window : FieldWindow) : Int :=
  match t with
  | .nonNegative | .positive => window.maxElement
  | .nonPositive => 0
  | .negative => -1
  | .integer => window.maxInt

end IntegerType

def isIntegerDatatype (name : String) : Bool := (IntegerType.ofName? name).isSome

/-- The canonical form of a floating-point number: one digit, a point, at least one digit, and
an exponent. -/
def canonicalDoubleLayout : NumberLayout where
  positionalFrom := 1
  positionalTo := 0
  integralPoint := true
  mantissaPoint := true
  exponentMark := "E"
  exponentPlus := false
  tie := .away
  signedZero := true
  nan := "NaN"
  infinity := "INF"

def canonicalDouble (d : Double) : String := d.render canonicalDoubleLayout

namespace Value

def readBoolean (text : String) : Except ValueError Bool :=
  if text = "true" || text = "1" || text = "1.0E0" then .ok true
  else if text = "false" || text = "0" || text = "0.0E0" then .ok false
  else .error (.invalidBoolean text)

def readInteger (text : String) : Except ValueError Int :=
  match Decimal.signed? text.toList with
  | some v => .ok v
  | none => .error (.invalidInteger text)

def checkRange (t : IntegerType) (v : Int) (window : FieldWindow) : Except ValueError Unit :=
  if t.maximum window < v then .error (.aboveMaximum v)
  else if v < t.minimum window then .error (.belowMinimum v)
  else .ok ()

def readDateTime (text : String) : Except ValueError Timestamp :=
  let read := if Timestamp.isPlainDate text then Timestamp.ofDate? text else Timestamp.read? text
  match read with
  | some t => .ok t
  | none => .error (.invalidDateTime text)

def readDouble (text : String) : Except ValueError Double :=
  if text = "INF" || text = "+INF" then .ok (Double.infinity false)
  else if text = "-INF" then .ok (Double.infinity true)
  else if text = "NaN" then .ok Double.nan
  else
    match Double.read? text with
    | some d => .ok d
    | none => .error (.invalidDouble text)

def decode (datatype text : String) (prime : Nat) : Except ValueError Value :=
  if datatype = Xsd.boolean then (readBoolean text).map .bool
  else
    match IntegerType.ofName? datatype with
    | some t => do
      let v ← readInteger text
      checkRange t v ⟨prime⟩
      return .bigInt v
    | none =>
      if datatype = Xsd.dateTime then (readDateTime text).map .time
      else if datatype = Xsd.double then
        (readDouble text).map fun d => .string (canonicalDouble d)
      else .ok (.string text)

end Value

end LinkedCommit
