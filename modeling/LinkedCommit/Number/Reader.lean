import LinkedCommit.Number.Decimal
import LinkedCommit.Number.Double
/-!
# Reading a floating-point number

A decimal text denotes an exact fraction, and `Double.read?` gives the datum nearest to it.
Texts are digits with at most one point, at least one digit among them, an optional sign and
an optional exponent.  Exponents far outside the range of the format are answered without
computing the fraction: such a text denotes zero or an infinity whatever its digits are.
-/

set_option autoImplicit false

namespace LinkedCommit.Double

/-- The parts of a decimal text without its sign: `± digits · 10 ^ exponent`. -/
structure DecimalText where
  digits : List Char
  exponent : Int

def exponentPart? : List Char → Option Int
  | [] => some 0
  | c :: cs => if c = 'e' || c = 'E' then Decimal.signed? cs else none

def decimalText? (cs : List Char) : Option DecimalText :=
  let whole := cs.takeWhile Char.isDigit
  let (fraction, rest) :=
    match cs.dropWhile Char.isDigit with
    | '.' :: r => (r.takeWhile Char.isDigit, r.dropWhile Char.isDigit)
    | r => ([], r)
  if whole.isEmpty && fraction.isEmpty then none
  else (exponentPart? rest).map fun e => ⟨whole ++ fraction, e - fraction.length⟩

def ofDecimal (negative : Bool) (n : Nat) (e : Int) : Double :=
  let leading := e + (Nat.toDigits 10 n).length
  if n = 0 then ofMagnitude negative 0
  else if 400 < leading then infinity negative
  else if leading < -400 then ofMagnitude negative 0
  else if 0 ≤ e then nearest negative (n * tenTo e.toNat) 1
  else nearest negative n (tenTo (-e).toNat)

def read? (text : String) : Option Double :=
  let unsigned (negative : Bool) (cs : List Char) : Option Double :=
    (decimalText? cs).map fun t => ofDecimal negative (Decimal.value t.digits) t.exponent
  match text.toList with
  | '-' :: cs => unsigned true cs
  | '+' :: cs => unsigned false cs
  | cs => unsigned false cs

end LinkedCommit.Double
