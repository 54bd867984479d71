import Canon.Text.Graphic

/-!
# Quoted texts

The log shows a list of words with quotes around them, so that one can tell where each begins and ends. Quotes,
backslashes and what would not be seen are written as escapes.
-/

namespace Canon.Text

def quoteChar (c : Char) : List Char :=
  if c = '"' then ['\\', '"']
  else if c = '\\' then ['\\', '\\']
  else if c = '\n' then ['\\', 'n']
  else if c = '\r' then ['\\', 'r']
  else if c = '\t' then ['\\', 't']
  else if c = '\x00' then ['\\', '0']
  else if isGraphic c then [c]
  else ['\\', 'u', '{'] ++ Nat.toDigits 16 c.toNat ++ ['}']

def quoted (s : String) : String := String.ofList ('"' :: s.toList.flatMap quoteChar ++ ['"'])

def quotedList (words : List String) : String := "[" ++ String.intercalate ", " (words.map quoted) ++ "]"

end Canon.Text
