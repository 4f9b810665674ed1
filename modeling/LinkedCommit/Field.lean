import LinkedCommit.Hash.Hasher
import LinkedCommit.Value.Error
/-!
# Integers as field elements

A prime field has the elements `0, 1, …, p - 1`.  Integers are laid into it by a window
balanced about zero: from `minInt` to `maxInt`, negative ones being shifted up by `p`.
`encodeInteger` takes in addition the integers from `maxInt` to `p - 1` as they are;
`decodeFieldElement` answers inside the window.
-/

set_option autoImplicit false

namespace LinkedCommit

structure FieldWindow where
  prime : Nat
deriving DecidableEq

namespace FieldWindow

/-- The greatest integer of the window, half the prime. -/
def maxInt (w : FieldWindow) : Int := (w.prime / 2 : Nat)

def minInt (w : FieldWindow) : Int := w.maxInt - w.prime + 1

def maxElement (w : FieldWindow) : Int := (w.prime : Int) - 1

def contains (w : FieldWindow) (v : Int) : Bool := w.minInt ≤ v && v ≤ w.maxInt

end FieldWindow

/-- The field element of an integer from the least of the window to `p - 1`. -/
def encodeInteger (v : Int) (prime : Nat) : Except ValueError Nat :=
  let window : FieldWindow := ⟨prime⟩
  if v < 0 then
    if v < window.minInt then .error (.tooSmall v) else .ok (v + prime).toNat
  else if prime ≤ v then .error (.tooBig v)
  else .ok v.toNat

def decodeFieldElement (x prime : Nat) : Int :=
  if (⟨prime⟩ : FieldWindow).maxInt < x then (x : Int) - prime else x

end LinkedCommit
