import Canon.Text.Position

/-!
# Syntax errors

A front end turns a source down with a byte offset and a message. The user is shown one line about it, and a report that
points at a character of the source.
-/

namespace Canon

structure SyntaxError where
  offset : Nat
  message : String
  deriving DecidableEq, Repr, Inhabited

namespace SyntaxError

def text (e : SyntaxError) : String := e.message ++ " at offset " ++ toString e.offset

def diagnostic (e : SyntaxError) (source : String) : String :=
  (Text.Position.ofOffset source e.offset).oneBased.text ++ "; error '" ++ e.message ++ "'"

def line (e : SyntaxError) (source : String) : String :=
  "Cannot parse program: expression at " ++ e.diagnostic source ++ "\n"

/-- The character that a report points at: the one at the offset, or else the last one. An empty source has none. -/
def reportedChar? (e : SyntaxError) (source : String) : Option Nat :=
  if source.length = 0 then none else some (min (Text.charOffset source e.offset) (source.length - 1))

/-- The line and column that a report names, as people count. -/
def reported? (e : SyntaxError) (source : String) : Option Text.Position :=
  (e.reportedChar? source).map fun i => (Text.reportPosition i source.toList).oneBased

end SyntaxError

end Canon
