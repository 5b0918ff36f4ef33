import HtmlTemplate.Text.Blank
import HtmlTemplate.Text.QuotedTable

/-!
Quoted forms of text for messages. A backslash and the enclosing marks are escaped, the common
control characters have letters, and a character that would not show by itself is written as its
number in hexadecimal between braces.
-/

namespace HtmlTemplate.Text

def isVisible (c : Char) : Bool := !inRanges extendingRanges c && !inRanges invisibleRanges c

/-- One character inside quotes, where `isMark` tells the marks that need a backslash. -/
def escapeChar (isMark : Char → Bool) (c : Char) : Text :=
  if c = Char.ofNat 0 then ['\\', '0']
  else if c = '\t' then ['\\', 't']
  else if c = '\r' then ['\\', 'r']
  else if c = '\n' then ['\\', 'n']
  else if c = '\\' ∨ isMark c then ['\\', c]
  else if isVisible c then [c]
  else "\\u\x7b" ++ Nat.toDigits 16 c.toNat ++ "\x7d"

def quoted (t : Text) : Text := '"' :: t.flatMap (escapeChar (· == '"')) ++ ['"']

def quotedChar (c : Char) : Text := '\'' :: escapeChar (· == '\'') c ++ ['\'']

end HtmlTemplate.Text
