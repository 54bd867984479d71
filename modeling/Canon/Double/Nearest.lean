import Canon.Double.Basic

/-!
# The nearest double

Every quotient of natural numbers has a nearest double, and of two equally near the one with the even mantissa is
taken. What would be larger than all finite doubles is infinite. Products and quotients of doubles are exact before
they are rounded.
-/

namespace Canon

/-- `num / den` to the nearest natural number, a half to the even neighbour. -/
def roundHalfEven (num den : Nat) : Nat :=
  let q := num / den
  let r := num % den
  if 2 * r < den then q else if den < 2 * r then q + 1 else if q % 2 = 0 then q else q + 1

def powerOfTwoLe (e : Int) (num den : Nat) : Bool := den * twoTo e.toNat ≤ num * twoTo (-e).toNat

/-- The greatest `e` with `2 ^ e ≤ num / den`, for positive numbers. -/
def floorLogTwo (num den : Nat) : Int :=
  let e := (num.log2 : Int) - den.log2
  if powerOfTwoLe e num den then e else e - 1

namespace Double

/-- The bits of the double nearest to `num / den`, without regard to overflow. Rounding up to the next power of two
carries into the exponent by itself. -/
def nearestBits (num den : Nat) : Nat :=
  let q := max (floorLogTwo num den - 52) (-1074)
  let m := roundHalfEven (num * twoTo (-q).toNat) (den * twoTo q.toNat)
  if m < twoTo 52 then m else (q + 1075).toNat * twoTo 52 + (m - twoTo 52)

def infinityBits : Nat := 2047 * twoTo 52

def nearest (num den : Nat) : Double := ofMagnitudeBits false (min (nearestBits num den) infinityBits)

/-- The double nearest to a natural number times a power of two, divided by `den`. -/
def nearestScaled (mantissa : Nat) (exponent : Int) (den : Nat) : Double :=
  nearest (mantissa * twoTo exponent.toNat) (den * twoTo (-exponent).toNat)

/-- The product of the absolute values of two finite doubles. -/
def product (x y : Double) : Double :=
  nearestScaled (x.magnitude.mantissa * y.magnitude.mantissa) (x.magnitude.exponent + y.magnitude.exponent) 1

/-- The quotient of the absolute values of two finite doubles, the second of which is not zero. -/
def quotient (x y : Double) : Double :=
  nearestScaled x.magnitude.mantissa (x.magnitude.exponent - y.magnitude.exponent) y.magnitude.mantissa

end Double

end Canon
