import LinkedCommit.Number.Shortest
/-!
# Writing a floating-point number

The digits of a number are its shortest decimal (`Double.shortest`); all the rest is a
format's own choice, and a `NumberLayout` is the record of these choices.  `Double.render`
writes a datum by such a record.
-/

set_option autoImplicit false

namespace LinkedCommit

structure NumberLayout where
  positionalFrom : Int
  /-- … up to this one; the others get an exponent. -/
  positionalTo : Int
  /-- Whether an integral number written positionally keeps `.0`. -/
  integralPoint : Bool
  /-- Whether a single digit before an exponent keeps `.0`. -/
  mantissaPoint : Bool
  exponentMark : String
  /-- Whether an exponent that is not negative has a plus sign. -/
  exponentPlus : Bool
  tie : Double.Tie
  /-- Whether a negative zero keeps its sign. -/
  signedZero : Bool
  nan : String
  infinity : String

namespace Double

/-- Digits with a point after `point` of them, filled with zeros on either side. -/
def positional (layout : NumberLayout) (digits : List Char) (point : Int) : List Char :=
  if point ≤ 0 then
    '0' :: '.' :: (List.replicate (-point).toNat '0' ++ digits)
  else if (digits.length : Int) ≤ point then
    digits ++ List.replicate (point.toNat - digits.length) '0'
      ++ (if layout.integralPoint then ['.', '0'] else [])
  else digits.take point.toNat ++ '.' :: digits.drop point.toNat

def scientific (layout : NumberLayout) (digits : List Char) (exponent : Int) : List Char :=
  let mantissa := match digits with
    | [] => []
    | [d] => if layout.mantissaPoint then [d, '.', '0'] else [d]
    | d :: ds => d :: '.' :: ds
  let sign := if 0 ≤ exponent && layout.exponentPlus then ['+'] else []
  mantissa ++ layout.exponentMark.toList ++ sign ++ (toString exponent).toList

/-- The digits of a finite magnitude and the exponent of the first of them. -/
def leadingDigits (tie : Tie) (m : Nat) (q : Int) : List Char × Int :=
  if m = 0 then (['0'], 0)
  else
    let x := shortest tie m q
    let digits := Nat.toDigits 10 x.digits
    (digits, x.exponent + digits.length - 1)

def render (layout : NumberLayout) (d : Double) : String :=
  match d.view with
  | .nan => layout.nan
  | .infinity negative => if negative then "-" ++ layout.infinity else layout.infinity
  | .finite negative m q =>
    let (digits, exponent) := leadingDigits layout.tie m q
    let sign := if negative && (m ≠ 0 || layout.signedZero) then ['-'] else []
    let body :=
      if layout.positionalFrom ≤ exponent ∧ exponent ≤ layout.positionalTo then
        positional layout digits (exponent + 1)
      else scientific layout digits exponent
    String.ofList (sign ++ body)

/-- Plain decimal notation: never an exponent, integral numbers without a point. -/
def plainLayout : NumberLayout where
  positionalFrom := -400
  positionalTo := 400
  integralPoint := false
  mantissaPoint := false
  exponentMark := "e"
  exponentPlus := false
  tie := .away
  signedZero := true
  nan := "NaN"
  infinity := "inf"

def plainText (d : Double) : String := d.render plainLayout

end Double

end LinkedCommit
