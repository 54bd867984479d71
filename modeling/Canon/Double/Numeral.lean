/-!
# Numerals

A numeral is a number as it is written: the whole part, the digits behind the point, and the exponent of ten. Two
numerals of one number are told apart, because they need not be read as the same double.
-/

namespace Canon

def digitsOf (n : Nat) : List Char := Nat.toDigits 10 n

def digitChar (d : Fin 10) : Char := Char.ofNat ('0'.toNat + d.val)

/-- The digit that a character stands for. Other characters than digits are not asked about. -/
def digitValue (c : Char) : Fin 10 := Fin.ofNat 10 (c.toNat - '0'.toNat)

/-- The last `count` digits of a natural number. -/
def lastDigits : Nat → Nat → List (Fin 10)
  | 0, _ => []
  | count + 1, n => lastDigits count (n / 10) ++ [Fin.ofNat 10 n]

structure Numeral where
  whole : Nat
  fraction : List (Fin 10) := []
  exponent : Option Int := none
  deriving DecidableEq, Repr, Inhabited

namespace Numeral

/-- Whether it has neither a point nor an exponent. -/
def isPlain (n : Numeral) : Bool := n.fraction.isEmpty && n.exponent.isNone

def text (n : Numeral) : List Char :=
  digitsOf n.whole ++ (if n.fraction.isEmpty then [] else '.' :: n.fraction.map digitChar) ++
    (match n.exponent with
      | some e => 'e' :: (toString e).toList
      | none => [])

end Numeral

end Canon
