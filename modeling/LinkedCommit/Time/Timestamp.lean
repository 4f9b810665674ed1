import LinkedCommit.Text.Character
import LinkedCommit.Number.Decimal
import LinkedCommit.Time.Calendar
/-!
# Timestamps and their RFC 3339 text

A `Timestamp` is a point of UTC in seconds since 1970 and nanoseconds.  A leap second is the last
second of a minute with `10 ^ 9` nanoseconds or more, and is written as second 60; with as many after
any other second the next one is written.

There are two readers.  `Timestamp.read?` takes strict RFC 3339.  `Timestamp.readLenient?`
takes also years with a sign, white space around the parts and one-digit fields; it reads all
that `Timestamp.text` writes, years of more than four digits included.  `Timestamp.ofDate?`
reads a bare date as its midnight.
-/

set_option autoImplicit false

namespace LinkedCommit

/-- A point of UTC. -/
structure Timestamp where
  /-- Whole seconds since the start of 1970, leap seconds not counted. -/
  seconds : Int
  /-- Nanoseconds, less than `2 * 10 ^ 9`. -/
  nanos : Nat
deriving DecidableEq, Inhabited

namespace Timestamp

inductive ZoneStyle where
  | zulu
  | numeric
deriving DecidableEq

def firstYear : Int := -262143
def lastYear : Int := 262142

def padded (width n : Nat) : List Char :=
  let ds := Nat.toDigits 10 n
  List.replicate (width - ds.length) '0' ++ ds

/-- Years of four digits are written plainly, the others with a sign. -/
def yearText (y : Int) : List Char :=
  if 0 ≤ y ∧ y ≤ 9999 then padded 4 y.toNat
  else (if y < 0 then '-' else '+') :: padded 4 y.natAbs

def fractionText (nanos : Nat) : List Char :=
  if nanos = 0 then []
  else if nanos % 1000000 = 0 then '.' :: padded 3 (nanos / 1000000)
  else if nanos % 1000 = 0 then '.' :: padded 6 (nanos / 1000)
  else '.' :: padded 9 nanos

def text (style : ZoneStyle) (t : Timestamp) : String :=
  let date := Date.ofDayNumber (t.seconds / 86400 + Date.epochDay)
  let time := (t.seconds % 86400).toNat
  let leap := 1000000000 ≤ t.nanos
  let second := time % 60 + (if leap then 1 else 0)
  let nanos := if leap then t.nanos - 1000000000 else t.nanos
  let zone := match style with
    | .zulu => ['Z']
    | .numeric => "+00:00".toList
  String.ofList <|
    yearText date.year ++ '-' :: padded 2 date.month ++ '-' :: padded 2 date.day
      ++ 'T' :: padded 2 (time / 3600) ++ ':' :: padded 2 (time / 60 % 60)
      ++ ':' :: padded 2 second ++ fractionText nanos ++ zone

structure Clock where
  hour : Nat
  minute : Nat
  second : Nat
  nanos : Nat

/-- The timestamp of a local date and clock reading, `offset` seconds ahead of UTC. -/
def ofLocal? (date : Date) (clock : Clock) (offset : Int) : Option Timestamp :=
  if date.isValid && firstYear ≤ date.year && date.year ≤ lastYear
      && clock.hour < 24 && clock.minute < 60 && clock.second ≤ 60 then
    let leap := clock.second = 60
    let second := if leap then 59 else clock.second
    let wall := (date.dayNumber - Date.epochDay) * 86400
      + (clock.hour * 3600 + clock.minute * 60 + second : Nat)
    let seconds := wall - offset
    let year := (Date.ofDayNumber (seconds / 86400 + Date.epochDay)).year
    if firstYear ≤ year ∧ year ≤ lastYear then
      some ⟨seconds, clock.nanos + (if leap then 1000000000 else 0)⟩
    else none
  else none

/-- A step of a reader: a value and the characters after it. -/
abbrev Step (α : Type) := List Char → Option (α × List Char)

def fixedNumber (width : Nat) : Step Nat := fun cs =>
  let ds := cs.take width
  if ds.length = width then (Decimal.digits? ds).map (·, cs.drop width) else none

def shortNumber (width : Nat) : Step Nat := fun cs =>
  let ds := (cs.take width).takeWhile Char.isDigit
  (Decimal.digits? ds).map (·, cs.drop ds.length)

def char (c : Char) : Step Unit
  | d :: cs => if d = c then some ((), cs) else none
  | [] => none

/-- The nanoseconds of an optional fraction of a second; digits past the ninth are dropped. -/
def fraction : Step Nat
  | '.' :: cs =>
    let ds := cs.takeWhile Char.isDigit
    let nine := ds.take 9
    (Decimal.digits? nine).map fun n => (n * tenTo (9 - nine.length), cs.dropWhile Char.isDigit)
  | cs => some (0, cs)

def separator : Step Unit
  | c :: cs => if c = 'T' || c = 't' || c = ' ' then some ((), cs) else none
  | [] => none

/-- A UTC offset in seconds; `colon` skips what stands between hours and minutes. -/
def zone (colon : Step Unit) : Step Int
  | [] => none
  | c :: cs =>
    if c = 'Z' || c = 'z' then some (0, cs)
    else if c = '+' || c = '-' || c = '\u2212' then do
      let (hours, cs) ← fixedNumber 2 cs
      let (_, cs) ← colon cs
      let (minutes, cs) ← fixedNumber 2 cs
      if 59 < minutes ∨ 23 < hours then none
      else
        let seconds : Int := (hours * 3600 + minutes * 60 : Nat)
        some (if c = '+' then seconds else -seconds, cs)
    else none

def read? (s : String) : Option Timestamp := do
  let (year, cs) ← fixedNumber 4 s.toList
  let (_, cs) ← char '-' cs
  let (month, cs) ← fixedNumber 2 cs
  let (_, cs) ← char '-' cs
  let (day, cs) ← fixedNumber 2 cs
  let (_, cs) ← separator cs
  let (hour, cs) ← fixedNumber 2 cs
  let (_, cs) ← char ':' cs
  let (minute, cs) ← fixedNumber 2 cs
  let (_, cs) ← char ':' cs
  let (second, cs) ← fixedNumber 2 cs
  let (nanos, cs) ← fraction cs
  let (offset, cs) ← zone (char ':') cs
  if cs.isEmpty then ofLocal? ⟨year, month, day⟩ ⟨hour, minute, second, nanos⟩ offset else none

/-- A year of up to four digits, or of any length after a sign. -/
def lenientYear : Step Int
  | '-' :: cs => (shortNumber cs.length cs).map fun (n, r) => (-(n : Int), r)
  | '+' :: cs => (shortNumber cs.length cs).map fun (n, r) => ((n : Int), r)
  | cs => (shortNumber 4 cs).map fun (n, r) => ((n : Int), r)

def colons : Step Unit := fun cs =>
  some ((), cs.dropWhile fun c => c = ':' || Text.isBlank c)

def lenientZone : Step Int := fun cs =>
  if (cs.take 3).map Char.toUpper = ['U', 'T', 'C'] then some (0, cs.drop 3) else zone colons cs

/-- Reads RFC 3339 text with white space between its parts and years of any length. -/
def readLenient? (s : String) : Option Timestamp := do
  let skip := Text.trimStart
  let (year, cs) ← lenientYear (skip s.toList)
  let (_, cs) ← char '-' (skip cs)
  let (month, cs) ← shortNumber 2 (skip cs)
  let (_, cs) ← char '-' (skip cs)
  let (day, cs) ← shortNumber 2 (skip cs)
  let (_, cs) ← separator cs
  let (hour, cs) ← shortNumber 2 (skip cs)
  let (_, cs) ← char ':' (skip cs)
  let (minute, cs) ← shortNumber 2 (skip cs)
  let (_, cs) ← char ':' (skip cs)
  let (second, cs) ← shortNumber 2 (skip cs)
  let (nanos, cs) ← fraction cs
  let (offset, cs) ← lenientZone (skip cs)
  if (skip cs).isEmpty then ofLocal? ⟨year, month, day⟩ ⟨hour, minute, second, nanos⟩ offset
  else none

/-- Whether a text is ten characters of the form `dddd-dd-dd`. -/
def isPlainDate (s : String) : Bool :=
  match s.toList with
  | [a, b, c, d, '-', e, f, '-', g, h] => [a, b, c, d, e, f, g, h].all Char.isDigit
  | _ => false

def ofDate? (s : String) : Option Timestamp := do
  let (year, cs) ← fixedNumber 4 s.toList
  let (_, cs) ← char '-' cs
  let (month, cs) ← fixedNumber 2 cs
  let (_, cs) ← char '-' cs
  let (day, _) ← fixedNumber 2 cs
  ofLocal? ⟨year, month, day⟩ ⟨0, 0, 0, 0⟩ 0

end Timestamp

end LinkedCommit
