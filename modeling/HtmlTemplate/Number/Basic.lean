import HtmlTemplate.Number.Shortest

/-!
Numbers of template data and expressions: integers as written, and binary64 numbers for all that
is written with a fraction or an exponent or is too large.
-/

namespace HtmlTemplate

inductive Number
  | int (value : Int)
  | float (value : Binary64)
deriving DecidableEq

namespace Number

def intText (i : Int) : Text :=
  if i < 0 then "-" ++ Text.digits i.natAbs else Text.digits i.natAbs

/-- In output every digit is written out, and a whole number has no point. -/
def outputLayout : Binary64.Layout := ⟨.up, none, []⟩

/-- In a script or JSON text a float shows as one: whole numbers end in `.0`, and outside of
`1e-5` to `1e16` there is an exponent. -/
def literalLayout : Binary64.Layout := ⟨.even, some (-5, 15), ".0"⟩

def outputText : Number → Text
  | int i => intText i
  | float x => x.write outputLayout

def literalText : Number → Text
  | int i => intText i
  | float x => x.write literalLayout

def isZero : Number → Bool
  | int i => i == 0
  | float x => x.isZero

def index? : Number → Option Nat
  | int i => if 0 ≤ i then some i.toNat else none
  | float _ => none

def toBinary64 : Number → Binary64
  | int i => (Binary64.ofInt? i).getD .zero
  | float x => x

/-- Order of the nearest binary64 numbers, so integers of more than 53 bits may tie. -/
def compareValue (m n : Number) : Ordering := m.toBinary64.compareValue n.toBinary64

end Number

end HtmlTemplate
