import Canon.Double.Nearest
import Canon.Double.Numeral

/-!
# Reading a numeral

A numeral is read in the arithmetic of doubles. Its digits are first gathered into a natural number of 64 bits, and as
many as have no room there are left off; that number as a double is then multiplied or divided by a power of ten. Each
of these steps is rounded, so what is read is not always the double nearest to what is written. It is when the digits
make less than `2 ^ 53` and the power of ten is at most `10 ^ 22`.
-/

namespace Canon

def maxGathered : Nat := UInt64.size - 1

/-- The digits of a numeral that there is room for, as a natural number, and the power of ten that it is short of. -/
structure Gathered where
  value : Nat
  exponent : Int
  deriving DecidableEq, Repr

namespace Gathered

/-- As many leading digits of a whole number as there is room for. -/
def ofWhole (n : Nat) (leftOff : Nat) : Gathered :=
  if n ≤ maxGathered then ⟨n, leftOff⟩ else ofWhole (n / 10) (leftOff + 1)
termination_by n
decreasing_by
  have hpos : 0 < n := Nat.lt_of_le_of_lt (Nat.zero_le _) (Nat.lt_of_not_le ‹_›)
  exact Nat.div_lt_self hpos (by decide)

/-- Appends digits behind the point up to the first that there is no room for. -/
def appendFraction (g : Gathered) : List (Fin 10) → Gathered
  | [] => g
  | d :: rest =>
    if g.value * 10 + d.val ≤ maxGathered then appendFraction ⟨g.value * 10 + d.val, g.exponent - 1⟩ rest else g

end Gathered

def Numeral.gather (n : Numeral) : Gathered :=
  let g := (Gathered.ofWhole n.whole 0).appendFraction n.fraction
  { g with exponent := g.exponent + n.exponent.getD 0 }

namespace Double

def maxPower : Nat := 308

def powerOfTen (n : Nat) : Double := nearest (tenTo n) 1

/-- `x` times `10 ^ n`, unless that is too large. -/
def scaleUp? (x : Double) (n : Nat) : Option Double :=
  if x.magnitude.mantissa = 0 then some x
  else if maxPower < n then none
  else
    let y := x.product (powerOfTen n)
    if y.isFinite then some y else none

/-- `x` over `10 ^ n`, in two steps if one is not enough. A number of 64 bits is gone after two. -/
def scaleDown (x : Double) (n : Nat) : Double :=
  if n ≤ maxPower then x.quotient (powerOfTen n)
  else if n ≤ 2 * maxPower then (x.quotient (powerOfTen maxPower)).quotient (powerOfTen (n - maxPower))
  else zero false

def withSign (negative : Bool) (x : Double) : Double := ofMagnitudeBits negative (x.bits.toNat % twoTo 63)

/-- Reads a numeral behind a sign, unless it is too large. -/
def read? (negative : Bool) (n : Numeral) : Option Double :=
  let g := n.gather
  let x := nearest g.value 1
  (if 0 ≤ g.exponent then x.scaleUp? g.exponent.toNat else some (x.scaleDown (-g.exponent).toNat)).map
    (withSign negative)

end Double

end Canon
