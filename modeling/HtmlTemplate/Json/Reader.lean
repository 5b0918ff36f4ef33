import HtmlTemplate.Json.Value
import HtmlTemplate.Json.NumberReader

/-!
Reading of JSON text. Blanks are the four that JSON knows, arrays and objects nest at most 127
deep, and strings hold no bare control character and no lone surrogate. When an object repeats a
key, the last value counts and stands where the key came first.
-/

namespace HtmlTemplate.Json

def isSpace (c : Char) : Bool := c == ' ' || c == '\n' || c == '\t' || c == '\r'

def skipSpace (cs : Text) : Text := cs.dropWhile isSpace

def hexDigit? (c : Char) : Option Nat :=
  if c.isDigit then some (c.toNat - '0'.toNat)
  else if 'a' ≤ c ∧ c ≤ 'f' then some (c.toNat - 'a'.toNat + 10)
  else if 'A' ≤ c ∧ c ≤ 'F' then some (c.toNat - 'A'.toNat + 10)
  else none

def readHex4 : Text → Option (Nat × Text)
  | a :: b :: c :: d :: rest => do
    let a ← hexDigit? a
    let b ← hexDigit? b
    let c ← hexDigit? c
    let d ← hexDigit? d
    pure (a * 0x1000 + b * 0x100 + c * 0x10 + d, rest)
  | _ => none

/-- The character of a `\u` escape, which for a leading surrogate goes on with a second one. -/
def readUnicodeEscape (cs : Text) : Option (Char × Text) := do
  let (n, rest) ← readHex4 cs
  if 0xDC00 ≤ n ∧ n ≤ 0xDFFF then none
  else if 0xD800 ≤ n ∧ n ≤ 0xDBFF then
    match rest with
    | '\\' :: 'u' :: more => do
      let (m, rest) ← readHex4 more
      if 0xDC00 ≤ m ∧ m ≤ 0xDFFF then
        pure (Char.ofNat (0x10000 + (n - 0xD800) * 0x400 + (m - 0xDC00)), rest)
      else none
    | _ => none
  else pure (Char.ofNat n, rest)

def readEscape : Text → Option (Char × Text)
  | '"' :: rest => some ('"', rest)
  | '\\' :: rest => some ('\\', rest)
  | '/' :: rest => some ('/', rest)
  | 'b' :: rest => some ('\x08', rest)
  | 'f' :: rest => some ('\x0c', rest)
  | 'n' :: rest => some ('\n', rest)
  | 'r' :: rest => some ('\r', rest)
  | 't' :: rest => some ('\t', rest)
  | 'u' :: rest => readUnicodeEscape rest
  | _ => none

/-- A string after its opening quote. No text is longer than `steps`. -/
def readString : (steps : Nat) → Text → Option (Text × Text)
  | 0, _ => none
  | _, [] => none
  | steps + 1, c :: cs =>
    if c = '"' then some ([], cs)
    else if c = '\\' then do
      let (e, rest) ← readEscape cs
      let (s, rest) ← readString steps rest
      pure (e :: s, rest)
    else if c.toNat < 0x20 then none
    else do
      let (s, rest) ← readString steps cs
      pure (c :: s, rest)

/-- The items of an array from the first one on, up to the closing bracket. -/
def readItems (read : Text → Option (Value × Text)) :
    (steps : Nat) → Text → Option (List Value × Text)
  | 0, _ => none
  | steps + 1, cs => do
    let (item, rest) ← read cs
    match skipSpace rest with
    | ',' :: rest =>
      let (items, rest) ← readItems read steps rest
      pure (item :: items, rest)
    | ']' :: rest => pure ([item], rest)
    | _ => none

/-- The fields of an object from the first one on, up to the closing brace, added to those read
before. -/
def readFields (read : Text → Option (Value × Text)) :
    (steps : Nat) → List (Text × Value) → Text → Option (List (Text × Value) × Text)
  | 0, _, _ => none
  | steps + 1, fields, cs =>
    match skipSpace cs with
    | '"' :: rest => do
      let (key, rest) ← readString (rest.length + 1) rest
      match skipSpace rest with
      | ':' :: rest =>
        let (value, rest) ← read rest
        let fields := Value.setField key value fields
        match skipSpace rest with
        | ',' :: rest => readFields read steps fields rest
        | '\x7d' :: rest => pure (fields, rest)
        | _ => none
      | _ => none
    | _ => none

/-- A value at the start of the text, with at most `depth` levels of arrays and objects. -/
def readValue : (depth : Nat) → Text → Option (Value × Text)
  | depth, cs =>
    match skipSpace cs with
    | 'n' :: 'u' :: 'l' :: 'l' :: rest => some (.null, rest)
    | 't' :: 'r' :: 'u' :: 'e' :: rest => some (.bool true, rest)
    | 'f' :: 'a' :: 'l' :: 's' :: 'e' :: rest => some (.bool false, rest)
    | '"' :: rest => (readString (rest.length + 1) rest).map fun (s, rest) => (.string s, rest)
    | '[' :: rest =>
      match depth with
      | 0 => none
      | depth + 1 =>
        match skipSpace rest with
        | ']' :: rest => some (.array [], rest)
        | _ =>
          (readItems (readValue depth) (rest.length + 1) rest).map fun (items, rest) =>
            (.array items, rest)
    | '\x7b' :: rest =>
      match depth with
      | 0 => none
      | depth + 1 =>
        match skipSpace rest with
        | '\x7d' :: rest => some (.object [], rest)
        | _ =>
          (readFields (readValue depth) (rest.length + 1) [] rest).map fun (fields, rest) =>
            (.object fields, rest)
    | cs => (readNumber cs).map fun (n, rest) => (.number n, rest)

/-- How deep arrays and objects may nest. -/
def depthLimit : Nat := 127

/-- The value that the whole text holds, if it is well-formed JSON. -/
def read? (cs : Text) : Option Value :=
  match readValue depthLimit cs with
  | some (value, rest) => if (skipSpace rest).isEmpty then some value else none
  | none => none

end HtmlTemplate.Json
