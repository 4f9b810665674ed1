import LinkedCommit.Number.Decimal
/-!
# Binary floating point, exactly

A `Double` is a 64-bit binary floating-point datum, held by its bits.  Its meaning is
`Double.view`: not a number, an infinity, or `± m · 2 ^ q`.  Every finite datum is a whole
number of `2 ^ (-1074)`, and `nearest` rounds an exact fraction to the nearest datum, ties
going to the even significand.

The encoding has one formula: a datum with significand `c` at the `k`-th scale stands for
`c · 2 ^ k` units of `2 ^ (-1074)`, and its bits are `k · 2 ^ 52 + c`, for subnormal and
normal numbers alike.
-/

set_option autoImplicit false

namespace LinkedCommit

/-- A 64-bit binary floating-point datum. -/
structure Double where
  bits : UInt64
deriving DecidableEq, Inhabited

namespace Double

inductive View where
  | nan
  | infinity (negative : Bool)
  /-- The number `± significand · 2 ^ exponent`. -/
  | finite (negative : Bool) (significand : Nat) (exponent : Int)
deriving DecidableEq

def magnitudeBits (d : Double) : Nat := d.bits.toNat % twoTo 63

def isNegative (d : Double) : Bool := twoTo 63 ≤ d.bits.toNat

def exponentField (d : Double) : Nat := d.magnitudeBits / twoTo 52

def fractionField (d : Double) : Nat := d.magnitudeBits % twoTo 52

def view (d : Double) : View :=
  if d.exponentField = 2047 then
    if d.fractionField = 0 then .infinity d.isNegative else .nan
  else if d.exponentField = 0 then .finite d.isNegative d.fractionField (-1074)
  else .finite d.isNegative (d.fractionField + twoTo 52) ((d.exponentField : Int) - 1075)

/-- The magnitude bits of an infinity: the first that no finite number has. -/
def infinityBits : Nat := 2047 * twoTo 52

/-- The datum with a sign and magnitude bits; magnitudes past the finite ones are infinite. -/
def ofMagnitude (negative : Bool) (magnitude : Nat) : Double :=
  ⟨UInt64.ofNat ((if negative then twoTo 63 else 0) + min magnitude infinityBits)⟩

def infinity (negative : Bool) : Double := ofMagnitude negative infinityBits

def nan : Double := ⟨0x7ff8000000000000⟩

/-- The quotient rounded to the nearest integer, a tie going to the even one. -/
def divideHalfEven (num den : Nat) : Nat :=
  let q := num / den
  let r := num % den
  if 2 * r < den then q
  else if den < 2 * r then q + 1
  else q + q % 2

/-- The datum nearest to `± num / den`, ties to the even significand. -/
def nearest (negative : Bool) (num den : Nat) : Double :=
  let units := num * twoTo 1074
  let scale := (units / den).log2 - 52
  ofMagnitude negative (scale * twoTo 52 + divideHalfEven units (den * twoTo scale))

/-- The datum nearest to an integer; zero is positive. -/
def nearestInt (v : Int) : Double := nearest (v < 0) v.natAbs 1

def isNaN (d : Double) : Bool := d.view = .nan

def isFinite (d : Double) : Bool :=
  match d.view with
  | .finite .. => true
  | _ => false

def toInt? (d : Double) : Option Int :=
  match d.view with
  | .finite negative m q =>
    let signed (n : Nat) : Int := if negative then -(n : Int) else n
    if 0 ≤ q then some (signed (m * twoTo q.toNat))
    else if m % twoTo (-q).toNat = 0 then some (signed (m / twoTo (-q).toNat))
    else none
  | _ => none

def ofInt? (v : Int) : Option Double :=
  let d := nearestInt v
  if d.toInt? = some v then some d else none

end Double

end LinkedCommit
