/-!
# Back ends

What can be done with a program. Only printing is part of this tool.
-/

namespace Canon

inductive Backend where
  | print
  | interpret
  | jit
  deriving DecidableEq, Repr, Inhabited

def Backend.name : Backend → String
  | .print => "print"
  | .interpret => "interpret"
  | .jit => "jit"

def Backend.isAvailable (b : Backend) : Bool := b = .print

end Canon
