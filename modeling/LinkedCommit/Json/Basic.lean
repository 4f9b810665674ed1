import LinkedCommit.NameMap
import LinkedCommit.Number.Layout
/-!
# JSON values

A number is an integer that fits 64 bits, signed or unsigned, or else a floating-point
number.  The members of an object are a map sorted by name.
-/

set_option autoImplicit false

namespace LinkedCommit

inductive JsonNumber where
  /-- An integer from `-2 ^ 63` to `2 ^ 64 - 1`. -/
  | integer (value : Int)
  | float (value : Double)
deriving DecidableEq, Inhabited

inductive Json where
  | null
  | bool (value : Bool)
  | number (value : JsonNumber)
  | string (value : String)
  | array (items : List Json)
  /-- The members in the order of their names. -/
  | object (members : List (String × Json))
deriving Inhabited

namespace Json

abbrev Members := NameMap Json

def ofPairs (pairs : List (String × Json)) : Json := .object (NameMap.ofPairs pairs)

def int (n : Int) : Json := .number (.integer n)

def string? : Json → Option String
  | .string s => some s
  | _ => none

def member? (j : Json) (key : String) : Option Json :=
  match j with
  | .object members => NameMap.get? members key
  | _ => none

/-- Induction over a value: items and members come before the array or object that holds them. -/
@[elab_as_elim] theorem inductionOn {motive : Json → Prop} (json : Json) (null : motive .null)
    (bool : ∀ b, motive (.bool b)) (number : ∀ n, motive (.number n))
    (string : ∀ s, motive (.string s))
    (array : ∀ items, (∀ item ∈ items, motive item) → motive (.array items))
    (object : ∀ members, (∀ p ∈ members, motive p.2) → motive (.object members)) : motive json :=
  match json with
  | .null => null
  | .bool b => bool b
  | .number n => number n
  | .string s => string s
  | .array items => array items fun item _ => inductionOn item null bool number string array object
  | .object members =>
    object members fun p _ => inductionOn p.2 null bool number string array object
termination_by json
decreasing_by
  · rename_i member
    have inside := List.sizeOf_lt_of_mem member
    rw [Json.array.sizeOf_spec]
    omega
  · rename_i member
    have inside := List.sizeOf_lt_of_mem member
    have value : sizeOf p = 1 + sizeOf p.1 + sizeOf p.2 := Prod.mk.sizeOf_spec p.1 p.2
    rw [Json.object.sizeOf_spec]
    omega

def kind : Json → String
  | .null => "null"
  | .bool _ => "boolean"
  | .number _ => "number"
  | .string _ => "string"
  | .array _ => "array"
  | .object _ => "object"

end Json

/-- Numbers of JSON text: positional from `1e-5` up to sixteen digits, always with a point. -/
def JsonNumber.layout : NumberLayout where
  positionalFrom := -5
  positionalTo := 15
  integralPoint := true
  mantissaPoint := false
  exponentMark := "e"
  exponentPlus := true
  tie := .even
  signedZero := true
  nan := "null"
  infinity := "null"

def JsonNumber.text : JsonNumber → String
  | .integer n => toString n
  | .float d => d.render layout

end LinkedCommit
