import ForkJoin.Text.CodePoints

/-!
# Characters that are ignored by default

Fillers, joiners and selectors are not drawn at all by a program that does not know what they stand
for. The table is the property `Default_Ignorable_Code_Point` of Unicode 17.0. Most of its members
are format characters or marks; the Hangul fillers are letters that leave a blank.

## Main definitions
- `defaultIgnorablePoints`: the table.
- `isDefaultIgnorable`: whether a character has the property.
-/

namespace ForkJoin

/-- The code points that are ignored by default. -/
def defaultIgnorablePoints : CodePoints :=
  [(0xad, 0xad), (0x34f, 0x34f), (0x61c, 0x61c), (0x115f, 0x1160), (0x17b4, 0x17b5),
   (0x180b, 0x180f), (0x200b, 0x200f), (0x202a, 0x202e), (0x2060, 0x206f), (0x3164, 0x3164),
   (0xfe00, 0xfe0f), (0xfeff, 0xfeff), (0xffa0, 0xffa0), (0xfff0, 0xfff8), (0x1bca0, 0x1bca3),
   (0x1d173, 0x1d17a), (0xe0000, 0xe0fff)]

/-- Whether a character is ignored by default. -/
def isDefaultIgnorable (c : Char) : Bool :=
  defaultIgnorablePoints.contains c

end ForkJoin
