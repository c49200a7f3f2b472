import ForkJoin.Text.DefaultIgnorable
import ForkJoin.Text.ExtendingMark
import ForkJoin.Text.Printable

/-!
# Quoted text

A string is quoted for a message: double quotes around it, a backslash before a quote or a
backslash, short names for four control characters, and the hexadecimal code of every other
character that a reader could miss: one that is not printable, is ignored by default, or extends
the character before it. Apostrophes and all other characters stand for themselves.

## Main definitions
- `quoted`: one string.
- `quotedList`: a list of strings in brackets.
-/

namespace ForkJoin

/-- Whether a character is written as its code: it cannot be seen, or it would be drawn as part of
the character before it. -/
def needsCode (c : Char) : Bool :=
  !isPrintable c || isDefaultIgnorable c || isExtendingMark c

/-- One character inside quotes. -/
def quotedChar (c : Char) : String :=
  if c = '"' then "\\\""
  else if c = '\\' then "\\\\"
  else if c = '\n' then "\\n"
  else if c = '\t' then "\\t"
  else if c = '\r' then "\\r"
  else if c.toNat = 0 then "\\0"
  else if needsCode c then "\\u\x7b" ++ String.ofList (Nat.toDigits 16 c.toNat) ++ "\x7d"
  else c.toString

def quoted (s : String) : String :=
  "\"" ++ String.join (s.toList.map quotedChar) ++ "\""

/-- A list of quoted strings in brackets. -/
def quotedList (texts : List String) : String :=
  "[" ++ ", ".intercalate (texts.map quoted) ++ "]"

end ForkJoin
