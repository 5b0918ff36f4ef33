import HtmlTemplate.Text.Blank
import HtmlTemplate.Text.CaseTable

/-!
Full case mapping. A character may become several, as the sharp s does in upper case. In lower
case a capital sigma at the end of a word becomes the final sigma.
-/

namespace HtmlTemplate.Text

/-- The image of a code point under the first run that contains it. -/
def shiftCase (runs : List CaseRun) (c : Char) : Char :=
  match runs.find? fun r =>
      r.first ≤ c.toNat && c.toNat ≤ r.last && (c.toNat - r.first) % r.stride == 0 with
  | some r => Char.ofNat (c.toNat + r.shift).toNat
  | none => c

def upperChar (c : Char) : Text :=
  match upperExpansions.lookup c.toNat with
  | some codes => codes.map Char.ofNat
  | none => [shiftCase upperRuns c]

/-- Lower case of a character that stands alone, so a capital sigma is not final. -/
def lowerChar (c : Char) : Text :=
  if c.toNat = 0x130 then ['i', Char.ofNat 0x307] else [shiftCase lowerRuns c]

def upper (t : Text) : Text := t.flatMap upperChar

/-- Whether the next character that is not case-ignorable is cased. -/
def casedNext (t : Text) : Bool :=
  match t.dropWhile (inRanges caseIgnorableRanges) with
  | [] => false
  | c :: _ => inRanges casedRanges c

/-- Lower case of a text that follows the characters `before`, the nearest of them first. -/
def lowerAfter (before : Text) : Text → Text
  | [] => []
  | c :: cs =>
    let image :=
      if c.toNat = 0x3A3 then
        [Char.ofNat (if casedNext before && !casedNext cs then 0x3C2 else 0x3C3)]
      else lowerChar c
    image ++ lowerAfter (c :: before) cs

def lower (t : Text) : Text := lowerAfter [] t

end HtmlTemplate.Text
