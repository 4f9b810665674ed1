/-!
# The Grain generator

The constants of a Poseidon permutation are drawn from a shift register of 80 bits that starts
from a description of the permutation.  A register bit is output only when the bit before it
is one.
-/

set_option autoImplicit false

namespace LinkedCommit.Poseidon

/-- The register: `low` holds the 64 bits that leave first, `high` the 16 others. -/
structure Grain where
  low : UInt64
  high : UInt64

namespace Grain

def step (g : Grain) : UInt64 × Grain :=
  let b := ((g.low >>> 62) ^^^ (g.low >>> 51) ^^^ (g.low >>> 38) ^^^ (g.low >>> 23)
    ^^^ (g.low >>> 13) ^^^ g.low) &&& 1
  (b, ⟨(g.low >>> 1) ||| ((g.high &&& 1) <<< 63), (g.high >>> 1) ||| (b <<< 15)⟩)

def steps : Nat → Grain → Grain
  | 0, g => g
  | n + 1, g => steps n g.step.2

def bitsOf (width n : Nat) : List Bool :=
  (List.range width).map fun i => n.testBit (width - 1 - i)

/-- The register that holds 80 bits, the first one to leave at the head of the list. -/
def ofBits (bits : List Bool) : Grain :=
  let pack (bs : List Bool) : UInt64 :=
    bs.foldr (fun b w => (w <<< 1) ||| (if b then 1 else 0)) 0
  ⟨pack (bits.take 64), pack (bits.drop 64)⟩

/-- The register of a permutation over a prime field of 254 bits with the fifth power as its
nonlinear step, after its first 160 shifts. -/
def start (width fullRounds partialRounds : Nat) : Grain :=
  steps 160 <| ofBits <|
    bitsOf 2 1 ++ bitsOf 4 0 ++ bitsOf 12 254 ++ bitsOf 12 width ++ bitsOf 10 fullRounds
      ++ bitsOf 10 partialRounds ++ List.replicate 30 true

/-- The next bit that is output: pairs of bits are drawn until the first of a pair is one.
The register has period `2 ^ 80 - 1`, so fewer than 80 pairs are drawn. -/
def outputBit : Nat → Grain → UInt64 × Grain
  | 0, g => (0, g)
  | fuel + 1, g =>
    let (b, g) := g.step
    let (c, g) := g.step
    if b = 1 then (c, g) else outputBit fuel g

def outputNumber : Nat → Nat → Grain → Nat × Grain
  | 0, n, g => (n, g)
  | width + 1, n, g =>
    let (b, g) := g.outputBit 80
    outputNumber width (2 * n + b.toNat) g

/-- The next number of 254 bits below a bound, others being passed over. -/
def outputBelow (bound : Nat) : Nat → Grain → Nat × Grain
  | 0, g => (0, g)
  | fuel + 1, g =>
    let (n, g) := outputNumber 254 0 g
    if n < bound then (n, g) else outputBelow bound fuel g

end Grain

end LinkedCommit.Poseidon
