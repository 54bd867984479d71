/-!
# Positions in a text

A front end names a place by a byte offset. People are told a line and a column, and an annotated report needs the
number of characters before the place. An offset inside a character counts that character as passed, and an offset past
the end stands for the end.
-/

namespace Canon.Text

structure Position where
  line : Nat
  column : Nat
  deriving DecidableEq, Repr, Inhabited

namespace Position

def advance (p : Position) (c : Char) : Position :=
  if c = '\n' then ⟨p.line + 1, 0⟩ else ⟨p.line, p.column + 1⟩

/-- Counted from one, as people do. -/
def oneBased (p : Position) : Position := ⟨p.line + 1, p.column + 1⟩

def text (p : Position) : String := s!"{p.line},{p.column}"

/-- Goes on from a position over characters, the first of which starts at byte `start`, up to the first that starts at the
offset or behind it. -/
def advanceTo (offset : Nat) (start : Nat) (p : Position) : List Char → Position
  | [] => p
  | c :: rest => if offset ≤ start then p else (p.advance c).advanceTo offset (start + c.utf8Size) rest

/-- The line and column of a byte offset. Only a line feed ends a line. -/
def ofOffset (source : String) (offset : Nat) : Position :=
  advanceTo offset 0 ⟨0, 0⟩ source.toList

end Position

/-- Characters with the bytes at which they start, from `start` on. -/
def charStarts (start : Nat) : List Char → List (Nat × Char)
  | [] => []
  | c :: rest => (start, c) :: charStarts (start + c.utf8Size) rest

/-- The number of characters that start before a byte offset. -/
def charOffset (source : String) (offset : Nat) : Nat :=
  ((charStarts 0 source.toList).takeWhile fun (start, _) => start < offset).length

/-! ## Lines of a report -/

/-- Whether a line of a report ends at `c` when `next` follows it. A carriage return and a line feed end one line
together. -/
def endsReportLine (c : Char) (next : Option Char) : Bool :=
  (c = '\r' && next != some '\n') || c = '\n' || c = '\x0b' || c = '\x0c' || c = '\x85' || c = '\u2028' || c = '\u2029'

/-- The line and column that a report names for the character with the given index. The character that ends a line
belongs to it. -/
def reportPosition : Nat → List Char → Position
  | 0, _ => ⟨0, 0⟩
  | _ + 1, [] => ⟨0, 0⟩
  | n + 1, c :: rest =>
    let p := reportPosition n rest
    if endsReportLine c rest.head? then ⟨p.line + 1, p.column⟩
    else if p.line = 0 then ⟨0, p.column + 1⟩
    else p

end Canon.Text
