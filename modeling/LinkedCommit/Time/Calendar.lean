/-!
# The proleptic Gregorian calendar

A `Date` is a day named by year, month and day of the month; years count through zero.
`Date.dayNumber` numbers the days, day zero being the first of January of the year zero, and
`Date.ofDayNumber` names them again.
-/

set_option autoImplicit false

namespace LinkedCommit

/-- A day of the proleptic Gregorian calendar. -/
structure Date where
  year : Int
  month : Nat
  day : Nat
deriving DecidableEq, Inhabited

namespace Date

def isLeapYear (y : Int) : Bool := y % 4 = 0 && (y % 100 ≠ 0 || y % 400 = 0)

/-- The days before the first of January of a year, counted from the year zero. -/
def daysBeforeYear (y : Int) : Int :=
  365 * y + (y + 3) / 4 - (y + 99) / 100 + (y + 399) / 400

def monthLengths (leap : Bool) : List Nat :=
  [31, if leap then 29 else 28, 31, 30, 31, 30, 31, 31, 30, 31, 30, 31]

def daysInMonth (y : Int) (month : Nat) : Nat :=
  (monthLengths (isLeapYear y)).getD (month - 1) 0

def isValid (d : Date) : Bool :=
  1 ≤ d.month && d.month ≤ 12 && 1 ≤ d.day && d.day ≤ daysInMonth d.year d.month

def daysBeforeMonth (d : Date) : Nat :=
  ((monthLengths (isLeapYear d.year)).take (d.month - 1)).foldl (· + ·) 0

/-- The number of a day, counted from the first of January of the year zero. -/
def dayNumber (d : Date) : Int := daysBeforeYear d.year + daysBeforeMonth d + d.day - 1

/-- The year of a numbered day: an estimate by the mean year, mended by one. -/
def yearOfDay (n : Int) : Int :=
  let y := n * 400 / 146097
  if n < daysBeforeYear y then y - 1
  else if daysBeforeYear (y + 1) ≤ n then y + 1
  else y

/-- The month and day of the month of the `n`-th day after the start of the month `month`. -/
def monthAndDay : List Nat → Nat → Nat → Nat × Nat
  | [], month, n => (month, n + 1)
  | [_], month, n => (month, n + 1)
  | len :: rest, month, n =>
    if n < len then (month, n + 1) else monthAndDay rest (month + 1) (n - len)

def ofDayNumber (n : Int) : Date :=
  let y := yearOfDay n
  let (month, day) := monthAndDay (monthLengths (isLeapYear y)) 1 (n - daysBeforeYear y).toNat
  ⟨y, month, day⟩

/-- The first day of 1970, from which timestamps count. -/
def epochDay : Int := 719528

example : (Date.mk 1970 1 1).dayNumber = epochDay := by decide
example : ofDayNumber epochDay = ⟨1970, 1, 1⟩ := by decide

end Date

end LinkedCommit
