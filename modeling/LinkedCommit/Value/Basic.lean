import LinkedCommit.Field
import LinkedCommit.Time.Timestamp
import LinkedCommit.Json.Basic
import LinkedCommit.Number.Decimal
/-!
# Committed values

A committed value is an integer, a boolean, a text or a timestamp.  `Value.encode` is its field
element: an integer's place in the balanced window, the hash of one or zero for a boolean, the
hash of the UTF-8 bytes of a text, and the nanoseconds since 1970 modulo the prime for a
timestamp.
-/

set_option autoImplicit false

namespace LinkedCommit

inductive Value where
  /-- An integer of 64 bits. -/
  | int (value : Int64)
  | bool (value : Bool)
  | string (value : String)
  | bigInt (value : Int)
  | time (value : Timestamp)
deriving DecidableEq, Inhabited

def utf8Bytes (s : String) : List UInt8 := s.toUTF8.toList

def int64? (n : Int) : Option Int64 :=
  if -(twoTo 63 : Int) ≤ n ∧ n < twoTo 63 then some (Int64.ofInt n) else none

def Timestamp.totalNanos (t : Timestamp) : Int := t.seconds * 1000000000 + t.nanos

def encodeTime (t : Timestamp) (prime : Nat) : Nat := (t.totalNanos % prime).toNat

namespace Value

def kind : Value → String
  | .int _ => "int"
  | .bool _ => "bool"
  | .string _ => "string"
  | .bigInt _ => "bigint"
  | .time _ => "time"

def string? : Value → Option String
  | .string s => some s
  | _ => none

def int64? : Value → Option Int64
  | .int v => some v
  | .bigInt v => LinkedCommit.int64? v
  | _ => none

def bool? : Value → Option Bool
  | .bool b => some b
  | _ => none

def time? : Value → Option Timestamp
  | .time t => some t
  | _ => none

def integer? : Value → Option Int
  | .int v => some v.toInt
  | .bigInt v => some v
  | _ => none

def display : Value → String
  | .int v => toString v.toInt
  | .bool b => toString b
  | .string s => s
  | .bigInt v => toString v
  | .time t => t.text .numeric

def encode (hasher : Hasher) (v : Value) : Except EncodingError Nat :=
  match v with
  | .int v => (encodeInteger v.toInt hasher.prime).mapError .value
  | .bigInt v => (encodeInteger v hasher.prime).mapError .value
  | .bool b => (hasher.hash [if b then 1 else 0]).mapError .hash
  | .string s => (hasher.hashBytes (utf8Bytes s)).mapError .hash
  | .time t => .ok (encodeTime t hasher.prime)

/-- An unsigned integer as a value: of 64 bits if it fits. -/
def ofNat (n : Nat) : Value :=
  match LinkedCommit.int64? n with
  | some v => .int v
  | none => .bigInt n

def ofPlainJson : Json → Except ValueError Value
  | .bool b => .ok (.bool b)
  | .string s => .ok (.string s)
  | .number (.integer n) =>
    match LinkedCommit.int64? n with
    | some v => .ok (.int v)
    | none => .ok (.bigInt n)
  | .number (.float d) => .error (.unsupportedType ("float " ++ (JsonNumber.float d).text))
  | .null => .error (.unsupportedType "null")
  | .array _ => .error (.unsupportedType "array")
  | .object _ => .error (.unsupportedType "object")

end Value

end LinkedCommit
