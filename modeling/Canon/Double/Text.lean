import Canon.Double.Numeral
import Canon.Double.Shortest

/-!
# The text of a double

A double is written with its shortest digits, and always with a fraction or an exponent, so that it is never read as an
integer. Very large and very small ones are written with an exponent.
-/

namespace Canon

namespace Decimal

def order (d : Decimal) : Int := d.exponent + ((digitsOf d.digits).length - 1 : Nat)

/-- Written with no exponent, and at least one digit on both sides of the point. -/
def positional (d : Decimal) : Numeral :=
  if 0 ≤ d.exponent then { whole := d.digits * tenTo d.exponent.toNat, fraction := lastDigits 1 0 }
  else
    let places := (-d.exponent).toNat
    { whole := d.digits / tenTo places, fraction := lastDigits places d.digits }

/-- Written with one digit before the point and an exponent. A single digit has no point. -/
def scientific (d : Decimal) : Numeral :=
  let places := (digitsOf d.digits).length - 1
  { whole := d.digits / tenTo places, fraction := lastDigits places d.digits, exponent := some d.order }

/-- Without an exponent from `10 ^ lowest` up to, but not including, `10 ^ 16`. -/
def numeral (d : Decimal) (lowest : Int) : Numeral :=
  if d.digits = 0 || (lowest ≤ d.order && d.order < 16) then d.positional else d.scientific

end Decimal

namespace Double

/-- Printed text has an exponent below `0.0001`. -/
def lowestPrinted : Int := -4

def text (x : Double) : String :=
  if x.isNaN then "NaN"
  else
    let sign := if x.isNegative then "-" else ""
    if x.isFinite then sign ++ String.ofList (x.shortest.numeral lowestPrinted).text else sign ++ "inf"

end Double

end Canon
