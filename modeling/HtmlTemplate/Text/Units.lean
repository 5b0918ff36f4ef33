import HtmlTemplate.Text.Basic

/-!
The UTF-16 form of text. A character outside the basic plane counts as two units, and since its
units are surrogates it sorts before the characters from U+E000 on.
-/

namespace HtmlTemplate.Text

/-- One unit for a character of the basic plane, else a leading and a trailing surrogate. -/
def charUnits (c : Char) : List Nat :=
  if c.toNat < 0x10000 then [c.toNat]
  else [0xD800 + (c.toNat - 0x10000) / 0x400, 0xDC00 + (c.toNat - 0x10000) % 0x400]

def units (t : Text) : List Nat := t.flatMap charUnits

/-- Lexicographic order of the units. -/
def compareUnits (s t : Text) : Ordering := compare (units s) (units t)

end HtmlTemplate.Text
