/-!
# Punycode

A label of a domain with characters outside ASCII is written in ASCII: its ASCII characters, a
hyphen, and the others as differences in numbers of variable length to base 36.
-/

set_option autoImplicit false

namespace LinkedCommit.Url.Punycode

/-- A digit to base 36: the letters first. -/
def digitChar (d : Nat) : Char :=
  if d < 26 then Char.ofNat (97 + d) else Char.ofNat (48 + d - 26)

def threshold (k bias : Nat) : Nat :=
  if k ≤ bias then 1 else if bias + 26 ≤ k then 26 else k - bias

/-- Divides until at most 455 is left, counting 36 for each time. -/
def reduce : Nat → Nat → Nat → Nat × Nat
  | 0, delta, k => (delta, k)
  | fuel + 1, delta, k => if 455 < delta then reduce fuel (delta / 35) (k + 36) else (delta, k)

def adapt (delta count : Nat) (first : Bool) : Nat :=
  let delta := if first then delta / 700 else delta / 2
  let delta := delta + delta / count
  let (delta, k) := reduce delta delta 0
  k + 36 * delta / (delta + 38)

/-- The digits of a difference; `fuel` bounds their number. -/
def digits : Nat → Nat → Nat → Nat → List Char
  | 0, _, _, _ => []
  | fuel + 1, bias, k, q =>
    let t := threshold k bias
    if q < t then [digitChar q]
    else digitChar (t + (q - t) % (36 - t)) :: digits fuel bias (k + 36) ((q - t) / (36 - t))

structure State where
  output : List Char
  delta : Nat
  bias : Nat
  handled : Nat

/-- Looks at one character while those with number `n` are inserted. -/
def scan (basic n : Nat) (s : State) (c : Char) : State :=
  if c.toNat < n then { s with delta := s.delta + 1 }
  else if c.toNat = n then
    { output := s.output ++ digits (s.delta + 1) s.bias 36 s.delta
      delta := 0
      bias := adapt s.delta (s.handled + 1) (s.handled = basic)
      handled := s.handled + 1 }
  else s

/-- Inserts the characters outside ASCII in the order of their numbers. -/
def insertAll (cs : List Char) (basic : Nat) : List Nat → Nat → State → State
  | [], _, s => s
  | n :: rest, previous, s =>
    let s := { s with delta := s.delta + (n - previous) * (s.handled + 1) }
    let s := cs.foldl (scan basic n) s
    insertAll cs basic rest (n + 1) { s with delta := s.delta + 1 }

def encode (cs : List Char) : List Char :=
  let ascii := cs.filter fun c => c.toNat < 128
  let others := ((cs.filter fun c => 128 ≤ c.toNat).map Char.toNat).eraseDups.mergeSort
  let start : State :=
    ⟨if ascii.isEmpty then [] else ascii ++ ['-'], 0, 72, ascii.length⟩
  (insertAll cs ascii.length others 128 start).output

example : encode "bücher".toList = "bcher-kva".toList := by decide +kernel

end LinkedCommit.Url.Punycode
