import HtmlTemplate.Number.Binary64
import HtmlTemplate.Text.Basic

/-!
Decimal text of binary64 numbers: the fewest significant digits that read back as the number, and
of those the digits nearest to it. How the digits are laid out is a record of its own.
-/

namespace HtmlTemplate.Binary64

structure Decimal where
  digits : Nat
  scale : Int
deriving DecidableEq

inductive TieRule
  | up
  | even
deriving DecidableEq

/-- The value and the ends of the interval of reals that round to it, over one denominator. -/
structure Interval where
  value : Nat
  low : Nat
  high : Nat
  denominator : Nat
  /-- Whether the ends round to the value too. -/
  closed : Bool

/-- The interval of a number that is not zero, its sign left aside. Below a power of two the
neighbouring number is only half as far away. -/
def interval (x : Binary64) : Interval :=
  let m := x.significand
  let below := if m = Nat.pow 2 52 ∧ x.exponent > leastExponent then 1 else 2
  let e := x.exponent - 2
  let up := Nat.pow 2 e.toNat
  ⟨4 * m * up, (4 * m - below) * up, (4 * m + 2) * up, Nat.pow 2 (-e).toNat, m % 2 == 0⟩

/-- Numerator of `digits * 10 ^ scale` and of the interval's numbers over a common denominator. -/
def Interval.atScale (i : Interval) (scale : Int) : Interval × Nat :=
  let up := Nat.pow 10 (-scale).toNat
  (⟨i.value * up, i.low * up, i.high * up, i.denominator, i.closed⟩,
    i.denominator * Nat.pow 10 scale.toNat)

def Interval.contains (i : Interval) (n : Nat) : Bool :=
  if i.closed then i.low ≤ n && n ≤ i.high else i.low < n && n < i.high

/-- The nearer of the value's two neighbours among the multiples of `10 ^ scale`, if one of them
lies in the interval. -/
def Interval.onGrid? (tie : TieRule) (i : Interval) (scale : Int) : Option Decimal :=
  let (j, step) := i.atScale scale
  let floor := j.value / step
  let rest := j.value - floor * step
  let hitsFloor := j.contains (floor * step)
  let hitsNext := j.contains ((floor + 1) * step)
  let nextIsNearer :=
    if 2 * rest = step then tie == .up || floor % 2 == 1 else step < 2 * rest
  if hitsFloor && (!hitsNext || !nextIsNearer) then some ⟨floor, scale⟩
  else if hitsNext then some ⟨floor + 1, scale⟩
  else none

/-- The decimal on the coarsest grid that has one, from `scale` down in at most `steps` steps. -/
def Interval.search (tie : TieRule) (i : Interval) : Nat → Int → Decimal
  | 0, scale => ⟨(i.atScale scale).1.value / (i.atScale scale).2, scale⟩
  | steps + 1, scale =>
    match i.onGrid? tie scale with
    | some d => d
    | none => search tie i steps (scale - 1)

/-- The shortest decimal of a number's absolute value. Its digits stand at or below the scale
where the search starts, and 17 of them are always enough. -/
def shortest (tie : TieRule) (x : Binary64) : Decimal :=
  if x.isZero then ⟨0, 0⟩
  else
    let bits : Int := (x.significand.log2 : Int) + 1 + x.exponent
    x.interval.search tie 24 (bits * 30103 / 100000 + 2)

structure Layout where
  tie : TieRule
  /-- Exponents of the first digit that are written positionally; all of them if absent. -/
  positional : Option (Int × Int)
  /-- What follows the digits of a whole number. -/
  wholeSuffix : Text

/-- Digits with the point in its place and zeros to reach it. -/
def Decimal.positional (wholeSuffix : Text) (d : Decimal) : Text :=
  let ds := Text.digits d.digits
  let point : Int := ds.length + d.scale
  if d.scale ≥ 0 then ds ++ List.replicate d.scale.toNat '0' ++ wholeSuffix
  else if point > 0 then ds.take point.toNat ++ "." ++ ds.drop point.toNat
  else "0." ++ List.replicate (-point).toNat '0' ++ ds

/-- One digit, the others after a point, and the exponent with its sign. -/
def Decimal.scientific (d : Decimal) : Text :=
  let ds := Text.digits d.digits
  let e : Int := ds.length + d.scale - 1
  let fraction : Text := if ds.length > 1 then "." ++ ds.drop 1 else []
  let sign : Text := if e < 0 then "-" else "+"
  ds.take 1 ++ fraction ++ "e" ++ sign ++ Text.digits e.natAbs

def write (n : Layout) (x : Binary64) : Text :=
  let d := x.shortest n.tie
  let e : Int := (Text.digits d.digits).length + d.scale - 1
  let body : Text :=
    match n.positional with
    | none => d.positional n.wholeSuffix
    | some (least, greatest) =>
      if least ≤ e ∧ e ≤ greatest then d.positional n.wholeSuffix else d.scientific
  if x.negative then "-" ++ body else body

end HtmlTemplate.Binary64
