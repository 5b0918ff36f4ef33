import HtmlTemplate.Number.Basic

/-!
Numbers of JSON text. An integer that fits in 64 bits, signed or unsigned, is read exactly. Any
other number is its significand, cut before it would pass 64 bits, times or divided by a power of
ten, with each step rounded; a number too large for binary64 is refused.
-/

namespace HtmlTemplate.Json

/-- The greatest significand, and so the greatest integer that is read exactly. -/
def greatestSignificand : Nat := Nat.pow 2 64 - 1

/-- Digits taken into a significand, how many of them, and what follows. Reading stops before the
digit that would be one too many. -/
def takeDigits (significand : Nat) : Text → Nat × Nat × Text
  | [] => (significand, 0, [])
  | c :: cs =>
    if c.isDigit then
      let next := significand * 10 + (c.toNat - '0'.toNat)
      if next > greatestSignificand then (significand, 0, c :: cs)
      else
        let (result, count, rest) := takeDigits next cs
        (result, count + 1, rest)
    else (significand, 0, c :: cs)

/-- Decimal exponents above this one are not told apart. -/
def greatestExponent : Nat := Nat.pow 2 31 - 1

/-- A significand scaled by a power of ten from the table `10 ^ 0` to `10 ^ 308`; smaller numbers
are first divided by `10 ^ 308`. -/
def scaleDown : Nat → Binary64 → Nat → Option Binary64
  | 0, x, _ => some x
  | steps + 1, x, k =>
    if k ≤ 308 then (Binary64.ofDecimal? 1 k).bind x.div?
    else if x.isZero then some x
    else
      ((Binary64.ofDecimal? 1 308).bind x.div?).bind fun y => scaleDown steps y (k - 308)

def scaleDecimal (negative : Bool) (significand : Nat) (exponent : Int) : Option Binary64 :=
  (Binary64.ofInt? significand).bind fun x =>
    let magnitude :=
      if exponent ≥ 0 then
        if exponent ≤ 308 then (Binary64.ofDecimal? 1 exponent).bind x.mul?
        else if x.isZero then some x
        else none
      else scaleDown 4 x (-exponent).toNat
    magnitude.map (·.withSign negative)

/-- An exponent and all that follows its mark: sign, digits, and the number it completes. -/
def readExponent (negative : Bool) (significand : Nat) (exponent : Int) (cs : Text) :
    Option (Binary64 × Text) :=
  let (down, cs) : Bool × Text :=
    match cs with
    | '+' :: rest => (false, rest)
    | '-' :: rest => (true, rest)
    | _ => (false, cs)
  let ds := cs.takeWhile Char.isDigit
  let rest := cs.dropWhile Char.isDigit
  if ds.isEmpty then none
  else
    let magnitude := ds.foldl (fun n c => n * 10 + (c.toNat - '0'.toNat)) 0
    if magnitude > greatestExponent then
      if significand ≠ 0 ∧ !down then none
      else some (Binary64.zero.withSign negative, rest)
    else
      let exponent := if down then exponent - magnitude else exponent + magnitude
      (scaleDecimal negative significand exponent).map fun x => (x, rest)

def readScaled (negative : Bool) (significand : Nat) (exponent : Int) (cs : Text) :
    Option (Binary64 × Text) :=
  match cs with
  | 'e' :: rest => readExponent negative significand exponent rest
  | 'E' :: rest => readExponent negative significand exponent rest
  | _ => (scaleDecimal negative significand exponent).map fun x => (x, cs)

def readFraction (negative : Bool) (significand : Nat) (exponent : Int) (cs : Text) :
    Option (Binary64 × Text) :=
  let (significand, count, rest) := takeDigits significand cs
  let more := rest.dropWhile Char.isDigit
  if count = 0 ∧ more.length = rest.length then none
  else readScaled negative significand (exponent - count) more

/-- An integer in range, or the nearest binary64 number. There is no negative integer zero. -/
def ofSignificand (negative : Bool) (significand : Nat) : Option Number :=
  if !negative then some (.int significand)
  else if significand = 0 ∨ significand > Nat.pow 2 63 then
    (Binary64.ofInt? significand).map fun x => .float (x.withSign true)
  else some (.int (-significand))

/-- A number after its sign. Its first digit is a zero only if it is the only one before the point
or exponent. -/
def readUnsigned (negative : Bool) (cs : Text) : Option (Number × Text) :=
  match cs with
  | [] => none
  | c :: _ =>
    if !c.isDigit then none
    else
      let (significand, _, unread) := takeDigits 0 (if c = '0' then cs.take 1 else cs)
      let unread := if c = '0' then cs.drop 1 else unread
      let dropped := unread.takeWhile Char.isDigit
      let rest := unread.dropWhile Char.isDigit
      let float := fun (r : Option (Binary64 × Text)) => r.map fun (x, t) => (Number.float x, t)
      if c = '0' ∧ !dropped.isEmpty then none
      else match rest with
        | '.' :: after => float (readFraction negative significand dropped.length after)
        | _ =>
          if !dropped.isEmpty ∨ rest.head? = some 'e' ∨ rest.head? = some 'E' then
            float (readScaled negative significand dropped.length rest)
          else (ofSignificand negative significand).map fun n => (n, rest)

def readNumber : Text → Option (Number × Text)
  | '-' :: cs => readUnsigned true cs
  | cs => readUnsigned false cs

end HtmlTemplate.Json
