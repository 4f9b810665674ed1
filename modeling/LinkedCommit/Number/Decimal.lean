/-!
# Decimal integers

Integers travel as decimal text.  `digits?` reads the plain form, one or more digits;
`signed?` reads an optional single sign before it; `grouped?` is the lenient form of
serialized numbers, in which underscores may stand after the first digit.
Writing is `toString` on `Nat` and `Int`.  The powers of two and ten are those that the formats of
numbers are made of.
-/

set_option autoImplicit false

namespace LinkedCommit

def twoTo (n : Nat) : Nat := Nat.pow 2 n

def tenTo (n : Nat) : Nat := Nat.pow 10 n

namespace Decimal

/-- The number that a list of decimal digits denotes, the most significant digit first. -/
def value (ds : List Char) : Nat :=
  ds.foldl (fun n d => 10 * n + (d.toNat - 48)) 0

def digits? (cs : List Char) : Option Nat :=
  if !cs.isEmpty && cs.all Char.isDigit then some (value cs) else none

/-- An optional single sign, then one or more ASCII digits. -/
def signed? : List Char → Option Int
  | '-' :: cs => (digits? cs).map fun n => -(n : Int)
  | '+' :: cs => (digits? cs).map fun n => (n : Int)
  | cs => (digits? cs).map fun n => (n : Int)

/-- Digits between which underscores may stand; the first character is a digit. -/
def groupedDigits? : List Char → Option Nat
  | '_' :: _ => none
  | cs =>
    let ds := cs.filter (· ≠ '_')
    digits? ds

def groupedNat? : List Char → Option Nat
  | '+' :: cs => groupedDigits? cs
  | cs => groupedDigits? cs

def grouped? : List Char → Option Int
  | '-' :: cs => (groupedDigits? cs).map fun n => -(n : Int)
  | cs => (groupedNat? cs).map fun n => (n : Int)

theorem digits?_eq_some_iff (cs : List Char) (n : Nat) :
    digits? cs = some n ↔ cs ≠ [] ∧ (∀ c ∈ cs, c.isDigit = true) ∧ value cs = n := by
  cases cs with
  | nil => simp [digits?]
  | cons c cs => simp [digits?, and_assoc]

end Decimal

end LinkedCommit
