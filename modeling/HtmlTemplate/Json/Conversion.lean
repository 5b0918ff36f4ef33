import HtmlTemplate.Json.Value
import HtmlTemplate.Text.Units

/-!
How data counts in conditions, in output and in sorting. A missing value is `none`; it is not the
same as `null`, but neither holds and neither writes anything.
-/

namespace HtmlTemplate.Value

/-- Whether a condition on the value holds: not for a missing value, `null`, `false`, a zero or
the empty text. -/
def holds : Option Value → Bool
  | none => false
  | some null => false
  | some (bool b) => b
  | some (number n) => !n.isZero
  | some (string s) => !s.isEmpty
  | some (array _) => true
  | some (object _) => true

mutual

/-- The value as text. Items of an array are separated by commas, and `null` items are blank. -/
def text : Value → Text
  | null => "null"
  | bool b => if b then "true" else "false"
  | number n => n.outputText
  | string s => s
  | array items => Text.join "," (itemTexts items)
  | object _ => "[object Object]"

def itemTexts : List Value → List Text
  | [] => []
  | null :: items => [] :: itemTexts items
  | item :: items => item.text :: itemTexts items

end

/-- What an interpolated value writes; `null` writes nothing. -/
def outputText : Value → Text
  | null => []
  | value => value.text

/-- Numbers by value, texts by UTF-16 units, `false` before `true`; all else ties. -/
def compareValues : Option Value → Option Value → Ordering
  | some (number m), some (number n) => m.compareValue n
  | some (string s), some (string t) => Text.compareUnits s t
  | some (bool a), some (bool b) => compare a b
  | _, _ => .eq

end HtmlTemplate.Value
