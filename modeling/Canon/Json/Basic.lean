import Canon.Double.Numeral

/-!
# JSON values

A JSON text is read into this type before anything is decoded from it. What a decoder may turn on stays as it was
written: the order of the members of an object and their repetitions, the digits of a number, and the string literals
that spell no text.
-/

namespace Canon

structure Json.Number where
  negative : Bool
  numeral : Numeral
  deriving DecidableEq, Repr, Inhabited

/-- The text that a string literal spells. A lone surrogate and bytes that are not UTF-8 spell none. -/
abbrev Json.Text := Option String

inductive Json where
  | null
  | bool (value : Bool)
  | number (value : Json.Number)
  | string (text : Json.Text)
  | array (items : List Json)
  | object (members : List (Json.Text × Json))
  deriving Inhabited

namespace Json

abbrev Member := Json.Text × Json

/-! ## Numbers -/

def Number.ofInt (n : Int) : Number := ⟨n < 0, { whole := n.natAbs }⟩

/-- A number counts as an integer when it is written as one. `-0` does not: it is a zero with a sign. -/
def Number.int? (n : Number) : Option Int :=
  if n.numeral.isPlain && !(n.negative && n.numeral.whole = 0) then
    some (if n.negative then -(n.numeral.whole : Int) else n.numeral.whole)
  else none

theorem Number.int?_ofInt (n : Int) : (Number.ofInt n).int? = some n := by
  have hplain : (Numeral.isPlain { whole := n.natAbs }) = true := rfl
  rcases Int.lt_or_le n 0 with h | h
  · have hdigits : n.natAbs ≠ 0 := by omega
    have hvalue : -(n.natAbs : Int) = n := by omega
    simp only [ofInt, int?, hplain, h, hdigits, decide_true, decide_false, Bool.and_false, Bool.not_false,
      Bool.true_and, if_true, hvalue]
  · have hsign : ¬ n < 0 := by omega
    have hvalue : (n.natAbs : Int) = n := by omega
    simp only [ofInt, int?, hplain, hsign, decide_false, Bool.false_and, Bool.not_false, Bool.true_and, if_true, hvalue]
    rfl

/-! ## Values -/

def ofInt (n : Int) : Json := .number (Number.ofInt n)

def ofString (s : String) : Json := .string (some s)

def ofMembers (members : List (String × Json)) : Json :=
  .object (members.map fun (name, value) => (some name, value))

def int? : Json → Option Int
  | .number n => n.int?
  | _ => none

def text? : Json → Option String
  | .string text => text
  | _ => none

def items? : Json → Option (List Json)
  | .array items => some items
  | _ => none

end Json

end Canon
