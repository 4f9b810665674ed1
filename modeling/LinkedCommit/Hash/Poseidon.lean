import LinkedCommit.Hash.Poseidon.Grain
import LinkedCommit.Hash.Sponge
/-!
# The Poseidon hasher

Poseidon over the scalar field of BN254, with the fifth power as its nonlinear step.  The
permutation of width `t` hashes `t - 1` elements: the state starts from zero and the inputs,
and the digest is its first element.  Round constants and the mixing matrix come from the
Grain generator, and a width's parameters are computed when they are first needed.
-/

set_option autoImplicit false

namespace LinkedCommit.Poseidon

structure Parameters where
  constants : List (List Nat)
  matrix : List (List Nat)

def fullRounds : Nat := 8

/-- Rounds in which only the first element is raised, by the width of the state. -/
def partialRounds (width : Nat) : Nat :=
  [56, 57, 56, 60, 60, 63, 64, 63, 60, 66, 60, 65, 70, 60, 64, 68].getD (width - 2) 0

def power (base : Nat) : Nat → Nat → Nat
  | 0, _ => 1
  | fuel + 1, exponent =>
    if exponent = 0 then 1
    else
      let half := power (base * base % bn254Prime) fuel (exponent / 2)
      if exponent % 2 = 1 then base * half % bn254Prime else half

/-- The inverse of a field element, zero for zero. -/
def inverse (x : Nat) : Nat := power x 256 (bn254Prime - 2)

def draw (next : Grain → Nat × Grain) : Nat → Grain → List Nat × Grain
  | 0, g => ([], g)
  | n + 1, g =>
    let (x, g) := next g
    let (xs, g) := draw next n g
    (x :: xs, g)

def drawRows (width : Nat) : Nat → Grain → List (List Nat) × Grain
  | 0, g => ([], g)
  | n + 1, g =>
    let (row, g) := draw (Grain.outputBelow bn254Prime 200) width g
    let (rows, g) := drawRows width n g
    (row :: rows, g)

/-- The entries `1 / (x + y)` for two lists of field elements that follow the round constants. -/
def mixingMatrix (width : Nat) (g : Grain) : List (List Nat) :=
  let element (g : Grain) : Nat × Grain :=
    let (x, g) := Grain.outputNumber 254 0 g
    (x % bn254Prime, g)
  let (xs, g) := draw element width g
  let (ys, _) := draw element width g
  xs.map fun x => ys.map fun y => inverse ((x + y) % bn254Prime)

def Parameters.ofWidth (width : Nat) : Parameters :=
  let (constants, g) :=
    drawRows width (fullRounds + partialRounds width)
      (Grain.start width fullRounds (partialRounds width))
  ⟨constants, mixingMatrix width g⟩

def fifthPower (x : Nat) : Nat :=
  let y := x * x % bn254Prime
  y * y % bn254Prime * x % bn254Prime

def dot : List Nat → List Nat → Nat
  | x :: xs, y :: ys => x * y + dot xs ys
  | _, _ => 0

def addRow : List Nat → List Nat → List Nat
  | x :: xs, c :: cs => (x + c) % bn254Prime :: addRow xs cs
  | _, _ => []

def round (matrix : List (List Nat)) (full : Bool) (constants state : List Nat) : List Nat :=
  let state := addRow state constants
  let state :=
    if full then state.map fifthPower
    else match state with
      | [] => []
      | x :: xs => fifthPower x :: xs
  matrix.map fun row => dot row state % bn254Prime

/-- Runs all rounds: the full ones stand in halves before and after the partial ones. -/
def rounds (matrix : List (List Nat)) (total : Nat) :
    Nat → List (List Nat) → List Nat → List Nat
  | _, [], state => state
  | i, constants :: rest, state =>
    let full := i < fullRounds / 2 || total - fullRounds / 2 ≤ i
    rounds matrix total (i + 1) rest (round matrix full constants state)

def permute (parameters : Parameters) (state : List Nat) : List Nat :=
  rounds parameters.matrix parameters.constants.length 0 parameters.constants state

/-- The parameters of the widths from 2 to 17, each computed when first asked for. -/
def parameterTable : Array (Thunk Parameters) :=
  ((List.range maxHashInputs).map fun i => Thunk.mk fun _ => Parameters.ofWidth (i + 2)).toArray

def digest (inputs : List Nat) : Nat :=
  match parameterTable[inputs.length - 1]? with
  | some parameters => (permute parameters.get (0 :: inputs)).headD 0
  | none => 0

def hash (inputs : List Nat) : Except HashError Nat := do
  checkInputs bn254Prime inputs
  return digest inputs

end LinkedCommit.Poseidon

namespace LinkedCommit

def poseidonHasher : Hasher where
  prime := bn254Prime
  hash := Poseidon.hash
  hashBytes bytes := spongeHashBytes Poseidon.hash bytes Sponge.frameWidth

end LinkedCommit
