/-!
# Hashing into a prime field

All that is committed is an element of `[0, p)`.  A `Hasher` maps short lists of elements, and
byte strings, to elements; nothing else is known of it, so every construction over it takes
one as an argument.
-/

set_option autoImplicit false

namespace LinkedCommit

inductive HashError where
  /-- An input is not below the prime. -/
  | notInField (input : Nat)
  /-- The number of inputs is not from one to `max`. -/
  | inputCount (got max : Nat)
  | backend (reason : String)
deriving DecidableEq, Repr

def HashError.message : HashError → String
  | .notInField input => s!"hash input is outside the finite field: {input}"
  | .inputCount got max => s!"hash accepts between 1 and {max} inputs, got {got}"
  | .backend reason => s!"hash backend failure: {reason}"

structure Hasher where
  prime : Nat
  hash : List Nat → Except HashError Nat
  hashBytes : List UInt8 → Except HashError Nat

def maxHashInputs : Nat := 16

def checkInField (prime x : Nat) : Except HashError Unit :=
  if prime ≤ x then .error (.notInField x) else .ok ()

/-- Refuses a list that is empty or too long, or has a number that is not below the prime. -/
def checkInputs (prime : Nat) (inputs : List Nat) : Except HashError Unit :=
  if inputs.isEmpty || maxHashInputs < inputs.length then
    .error (.inputCount inputs.length maxHashInputs)
  else inputs.forM (checkInField prime)

/-- The order of the scalar field of the pairing-friendly curve BN254. -/
def bn254Prime : Nat :=
  21888242871839275222246405745257275088548364400416034343698204186575808495617

/-- The number that bytes denote, the most significant byte first. -/
def natOfBytes (bytes : List UInt8) : Nat :=
  bytes.foldl (fun n b => 256 * n + b.toNat) 0

/-- The last `count` bytes of a number, the most significant byte first. -/
def bytesOfNat : Nat → Nat → List UInt8
  | 0, _ => []
  | count + 1, n => bytesOfNat count (n / 256) ++ [UInt8.ofNat n]

end LinkedCommit
