import Canon.Fault

/-!
# Sinks

What a printer writes goes into a sink. A sink may have room for a limited number of characters; it takes what fits and
refuses the next one.
-/

namespace Canon

structure Sink where
  written : String := ""
  /-- How many characters more it takes, if there is a limit. -/
  room : Option Nat := none
  deriving DecidableEq, Repr, Inhabited

namespace Sink

/-- Writes a text, and tells whether all of it fitted. -/
def write (s : Sink) (text : String) : Bool × Sink :=
  match s.room with
  | none => (true, { s with written := s.written ++ text })
  | some room =>
    if text.length ≤ room then (true, ⟨s.written ++ text, some (room - text.length)⟩)
    else (false, ⟨s.written ++ String.ofList (text.toList.take room), some 0⟩)

end Sink

end Canon
