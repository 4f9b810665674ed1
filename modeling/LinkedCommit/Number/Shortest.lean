import LinkedCommit.Number.Double
/-!
# Shortest decimal digits

Every finite datum other than zero is told apart from its neighbours by a decimal with few
digits.  `shortest` is the decimal with the fewest digits among those nearer to the datum
than to any other (the ends of the interval belong to it when its significand is even), and
among those with that many digits the nearest one.  Where two are equally near the format
that writes the number decides.

On the grid of multiples of `10 ^ e` only the two neighbours of the exact value need a test:
if any point of the grid lies in the interval, one of them does.
-/

set_option autoImplicit false

namespace LinkedCommit.Double

inductive Tie where
  | away
  | even
deriving DecidableEq

structure DecimalDigits where
  digits : Nat
  exponent : Int
deriving DecidableEq

structure RoundingInterval where
  low : Nat
  value : Nat
  high : Nat
  denominator : Nat
  closed : Bool

/-- The interval of `m · 2 ^ q`; it is narrower below where the spacing of data halves. -/
def roundingInterval (m : Nat) (q : Int) : RoundingInterval :=
  let scale := if 2 ≤ q then twoTo (q - 2).toNat else 1
  let denominator := if 2 ≤ q then 1 else twoTo (2 - q).toNat
  let below := if m = twoTo 52 ∧ -1074 < q then 1 else 2
  { low := (4 * m - below) * scale
    value := 4 * m * scale
    high := (4 * m + 2) * scale
    denominator
    closed := m % 2 = 0 }

def RoundingInterval.contains (i : RoundingInterval) (num den : Nat) : Bool :=
  let x := num * i.denominator
  if i.closed then i.low * den ≤ x && x ≤ i.high * den
  else i.low * den < x && x < i.high * den

def powerOfTen (e : Int) : Nat × Nat :=
  if 0 ≤ e then (tenTo e.toNat, 1) else (1, tenTo (-e).toNat)

/-- The better of the two neighbours of the value among the multiples of `10 ^ e`, if one of
them rounds to the datum. -/
def RoundingInterval.onGrid? (i : RoundingInterval) (tie : Tie) (e : Int) : Option Nat :=
  let (num, den) := powerOfTen e
  let unit := i.denominator * num
  let d := i.value * den / unit
  let r := i.value * den % unit
  let lower := 0 < d && i.contains (d * num) den
  let upper := i.contains ((d + 1) * num) den
  let roundUp := unit < 2 * r || (unit = 2 * r && (tie = .away || d % 2 = 1))
  if lower && upper then some (if roundUp then d + 1 else d)
  else if lower then some d
  else if upper then some (d + 1)
  else none

/-- The exponent of the leading decimal digit of `num / den`: the largest `k` with
`10 ^ k ≤ num / den`, searched downwards from `k`. -/
def leadingExponent (num den : Nat) : Nat → Int → Int
  | 0, k => k
  | fuel + 1, k =>
    let (p, r) := powerOfTen k
    if p * den ≤ num * r then k else leadingExponent num den fuel (k - 1)

/-- The first grid with a hit, from `e` towards finer ones. -/
def RoundingInterval.search (i : RoundingInterval) (tie : Tie) : Nat → Int → DecimalDigits
  | 0, e => ⟨(i.onGrid? tie e).getD 0, e⟩
  | n + 1, e =>
    match i.onGrid? tie e with
    | some d => ⟨d, e⟩
    | none => i.search tie n (e - 1)

def DecimalDigits.trim : Nat → DecimalDigits → DecimalDigits
  | 0, x => x
  | fuel + 1, x =>
    if x.digits ≠ 0 ∧ x.digits % 10 = 0 then trim fuel ⟨x.digits / 10, x.exponent + 1⟩ else x

/-- An upper estimate of the decimal exponent of `m · 2 ^ q`. -/
def exponentBound (m : Nat) (q : Int) : Int :=
  ((m.log2 + 1 + q) * 30103).fdiv 100000 + 1

/-- The shortest decimal of `m · 2 ^ q`, for `m ≠ 0`.  Seventeen digits always suffice. -/
def shortest (tie : Tie) (m : Nat) (q : Int) : DecimalDigits :=
  let i := roundingInterval m q
  let k := leadingExponent i.value i.denominator 4 (exponentBound m q)
  (i.search tie 17 (k + 1)).trim 2

end LinkedCommit.Double
