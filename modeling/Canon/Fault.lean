/-!
# Faults

What can go wrong in the use of a program that has not been checked. A program that passed validation looks nothing up
in vain.
-/

namespace Canon

inductive Fault where
  /-- An id was looked up in a store that is not that long. -/
  | dangling (size index : Nat)
  /-- An indentation was to be written that is wider than the widest one, `maxIndent`. -/
  | indentTooWide
  /-- A walk went deeper than any walk without a cycle can. -/
  | endless
  deriving DecidableEq, Repr

def Fault.message : Fault → String
  | .dangling size index =>
    "index out of bounds: the len is " ++ toString size ++ " but the index is " ++ toString index
  | .indentTooWide => "Formatting argument out of range"
  | .endless => "the program contains itself"

end Canon
