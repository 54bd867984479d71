import Canon.Double.Basic

/-!
# The shortest decimal of a double

Of all decimals that read back as a given double, the ones with the fewest digits are taken, and of these the nearest.
Of two equally near the larger one is taken.
-/

namespace Canon

/-- Compares `a * 10 ^ i` with `b * 2 ^ j`. -/
def compareScaled (a : Nat) (i : Int) (b : Nat) (j : Int) : Ordering :=
  compare (a * tenTo i.toNat * twoTo (-j).toNat) (b * twoTo j.toNat * tenTo (-i).toNat)

/-- The same number with no zero at the end of its digits. At most `fuel` zeros are dropped. -/
def Decimal.strip : Nat → Decimal → Decimal
  | 0, d => d
  | fuel + 1, d => if d.digits != 0 && d.digits % 10 = 0 then strip fuel ⟨d.digits / 10, d.exponent + 1⟩ else d

namespace Double

/-- Whether a decimal lies among the reals that round to the absolute value of `x`. These reach halfway to the
neighbours, ends included exactly when the mantissa is even. -/
def readsBack (x : Double) (d : Decimal) : Bool :=
  let b := x.magnitude
  let low := 4 * b.mantissa - (if x.narrowsBelow then 1 else 2)
  let high := 4 * b.mantissa + 2
  let closed := b.mantissa % 2 = 0
  let atLow := compareScaled d.digits d.exponent low (b.exponent - 2)
  let atHigh := compareScaled d.digits d.exponent high (b.exponent - 2)
  (atLow == .gt || (closed && atLow == .eq)) && (atHigh == .lt || (closed && atHigh == .eq))

/-- The greatest `k` with `10 ^ k ≤ m * 2 ^ q`, for a positive mantissa. -/
def floorLogTen (b : Binary) : Int :=
  let k := ((b.mantissa.log2 : Int) + b.exponent) * 30103 / 100000
  if compareScaled 1 (k + 1) b.mantissa b.exponent != .gt then k + 1
  else if compareScaled 1 k b.mantissa b.exponent == .gt then k - 1
  else k

/-- The greatest multiple of `10 ^ e` that is no larger than `m * 2 ^ q`, in units of `10 ^ e`. -/
def floorAt (b : Binary) (e : Int) : Nat :=
  (b.mantissa * twoTo b.exponent.toNat * tenTo (-e).toNat) / (tenTo e.toNat * twoTo (-b.exponent).toNat)

/-- The better of the two neighbours of `x` among the multiples of `10 ^ e`, if one of them reads back. -/
def atPlace (x : Double) (e : Int) : Option Decimal :=
  let b := x.magnitude
  let below : Decimal := ⟨floorAt b e, e⟩
  let above : Decimal := ⟨floorAt b e + 1, e⟩
  match readsBack x below, readsBack x above with
  | true, true =>
    -- The value against the middle of the two.
    if compareScaled (2 * floorAt b e + 1) e (2 * b.mantissa) b.exponent == .gt then some below else some above
  | true, false => some below
  | false, true => some above
  | false, false => none

/-- The shortest decimal of the absolute value of a finite double. Seventeen digits are always enough. -/
def shortest (x : Double) : Decimal :=
  if x.magnitude.mantissa = 0 then ⟨0, 0⟩
  else
    let k := floorLogTen x.magnitude
    match (List.range 17).findSome? fun (n : Nat) => atPlace x (k - n) with
    | some d => d.strip 20
    | none => ⟨floorAt x.magnitude (k - 17), k - 17⟩

end Double

end Canon
