/-!
# Ranges of characters

The tables of a standard are lists of ranges of code points. A range holds its first and its last one.
-/

namespace Canon.Text

def inRanges (ranges : List (Nat × Nat)) (c : Char) : Bool :=
  ranges.any fun (first, last) => first ≤ c.toNat && c.toNat ≤ last

end Canon.Text
