import Canon.Text.Ranges

/-!
# Blanks and words

The characters with the Unicode property White_Space, and the words between them. A command line has no quoting: its
words are what the blanks leave.
-/

namespace Canon.Text

def blankRanges : List (Nat × Nat) :=
  [(0x09, 0x0D), (0x20, 0x20), (0x85, 0x85), (0xA0, 0xA0), (0x1680, 0x1680), (0x2000, 0x200A), (0x2028, 0x2029),
    (0x202F, 0x202F), (0x205F, 0x205F), (0x3000, 0x3000)]

def isBlank (c : Char) : Bool := inRanges blankRanges c

/-- The first word, which may be empty, and the words behind it, as one list. -/
def joinWords (split : List Char × List (List Char)) : List (List Char) :=
  if split.1.isEmpty then split.2 else split.1 :: split.2

/-- Splits into the word that `chars` starts with, which is empty before a blank, and the words behind it. -/
def splitWords : List Char → List Char × List (List Char)
  | [] => ([], [])
  | c :: rest => if isBlank c then ([], joinWords (splitWords rest)) else (c :: (splitWords rest).1, (splitWords rest).2)

def words (s : String) : List String := (joinWords (splitWords s.toList)).map String.ofList

end Canon.Text
