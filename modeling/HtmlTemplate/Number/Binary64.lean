/-!
Finite numbers in the binary64 format, held as sign, significand and power of two, with exact
rounding to the nearest such number and exact comparison. An overflow is `none`.
-/

namespace HtmlTemplate

/-- The number `± significand * 2 ^ exponent`. A significand below `2 ^ 52` goes with the least
exponent, so every number but zero has one form; zero has a form for either sign. -/
structure Binary64 where
  negative : Bool
  significand : Nat
  exponent : Int
deriving DecidableEq

namespace Binary64

def leastExponent : Int := -1074
def greatestExponent : Int := 971

def zero : Binary64 := ⟨false, 0, leastExponent⟩

def isZero (x : Binary64) : Bool := x.significand == 0

def withSign (negative : Bool) (x : Binary64) : Binary64 := { x with negative := negative }

/-- The integer nearest to `n / d`; a half goes to the even neighbour. -/
def roundDiv (n d : Nat) : Nat :=
  let q := n / d
  let r := n % d
  if 2 * r < d then q
  else if d < 2 * r then q + 1
  else if q % 2 = 0 then q else q + 1

def scaled (n d : Nat) (e : Int) : Nat × Nat :=
  if e ≥ 0 then (n, d * Nat.pow 2 e.toNat) else (n * Nat.pow 2 (-e).toNat, d)

/-- The exponent at which the significand of `n / d` fills 53 bits. -/
def fitExponent (n d : Nat) : Int :=
  let e : Int := (n.log2 : Int) - (d.log2 : Int) - 53
  let (a, b) := scaled n d e
  if a / b < Nat.pow 2 53 then e else e + 1

def ofRatio? (n d : Nat) : Option Binary64 :=
  if n = 0 ∨ d = 0 then some zero
  else
    let e := max leastExponent (fitExponent n d)
    let (a, b) := scaled n d e
    let m := roundDiv a b
    let x : Binary64 := if m = Nat.pow 2 53 then ⟨false, Nat.pow 2 52, e + 1⟩ else ⟨false, m, e⟩
    if x.exponent ≤ greatestExponent then some x else none

def ofDecimal? (digits : Nat) (scale : Int) : Option Binary64 :=
  if scale ≥ 0 then ofRatio? (digits * Nat.pow 10 scale.toNat) 1
  else ofRatio? digits (Nat.pow 10 (-scale).toNat)

/-- The number nearest to an integer. Only integers of 1024 bits and more have none. -/
def ofInt? (i : Int) : Option Binary64 := (ofRatio? i.natAbs 1).map (withSign (i < 0))

/-- Numerator and denominator of the absolute value. -/
def ratio (x : Binary64) : Nat × Nat :=
  if x.exponent ≥ 0 then (x.significand * Nat.pow 2 x.exponent.toNat, 1)
  else (x.significand, Nat.pow 2 (-x.exponent).toNat)

/-- The rounded product; its sign is that of the first factor. -/
def mul? (x y : Binary64) : Option Binary64 :=
  let (a, b) := x.ratio
  let (c, d) := y.ratio
  (ofRatio? (a * c) (b * d)).map (withSign x.negative)

/-- The rounded quotient; its sign is that of the dividend. -/
def div? (x y : Binary64) : Option Binary64 :=
  let (a, b) := x.ratio
  let (c, d) := y.ratio
  (ofRatio? (a * d) (b * c)).map (withSign x.negative)

/-- The number in units of `2 ^ leastExponent`, where every finite number is an integer. -/
def toUnits (x : Binary64) : Int :=
  let n : Int := x.significand * Nat.pow 2 (x.exponent - leastExponent).toNat
  if x.negative then -n else n

/-- Order by value; the two zeros are equal. -/
def compareValue (x y : Binary64) : Ordering := compare x.toUnits y.toUnits

end Binary64

end HtmlTemplate
