/-!
# Doubles

A double is kept as its 64 bits, so every value and every NaN payload survives. A finite one stands for `m * 2 ^ q`
with natural `m`, and all arithmetic is on these two numbers.
-/

namespace Canon

structure Double where
  bits : UInt64
  deriving DecidableEq, Repr, Inhabited

/-- The natural number `mantissa` times a power of two. -/
structure Binary where
  mantissa : Nat
  exponent : Int
  deriving DecidableEq, Repr

/-- The natural number `digits` times a power of ten. -/
structure Decimal where
  digits : Nat
  exponent : Int
  deriving DecidableEq, Repr

def twoTo (n : Nat) : Nat := Nat.pow 2 n

def tenTo (n : Nat) : Nat := Nat.pow 10 n

namespace Double

def isNegative (x : Double) : Bool := x.bits.toNat / twoTo 63 = 1

def exponentField (x : Double) : Nat := x.bits.toNat / twoTo 52 % twoTo 11

def fractionField (x : Double) : Nat := x.bits.toNat % twoTo 52

def isFinite (x : Double) : Bool := x.exponentField < 2047

def isNaN (x : Double) : Bool := x.exponentField = 2047 && x.fractionField != 0

def magnitude (x : Double) : Binary :=
  if x.exponentField = 0 then ⟨x.fractionField, -1074⟩
  else ⟨twoTo 52 + x.fractionField, (x.exponentField : Int) - 1075⟩

/-- Whether the next smaller absolute value is half as far away as the next larger one. -/
def narrowsBelow (x : Double) : Bool := x.fractionField = 0 && 1 < x.exponentField

/-- A double from the bits below the sign. -/
def ofMagnitudeBits (negative : Bool) (n : Nat) : Double :=
  ⟨UInt64.ofNat (if negative then twoTo 63 + n else n)⟩

def zero (negative : Bool) : Double := ofMagnitudeBits negative 0

end Double

end Canon
