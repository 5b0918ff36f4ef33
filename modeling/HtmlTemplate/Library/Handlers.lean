import HtmlTemplate.Library.Basic
import HtmlTemplate.Json.Conversion
import HtmlTemplate.Text.Case
import HtmlTemplate.Text.Utf8

/-!
The standard handlers. All but `escape` work on the text of the value, whatever its kind; none
takes further arguments.
-/

namespace HtmlTemplate.Handlers

/-- A character as it may stand in markup: the special ones as numeric entities. -/
def escapeChar (c : Char) : Text :=
  if c = '&' then "&#38;"
  else if c = '<' then "&#60;"
  else if c = '>' then "&#62;"
  else if c = '"' then "&#34;"
  else [c]

def escapeText (t : Text) : Text := t.flatMap escapeChar

/-- Escapes texts and leaves every other value as it is. -/
def escape : Value → Value
  | .string s => .string (escapeText s)
  | value => value

def isWordChar (c : Char) : Bool := c.isAlphanum || c == '_'

/-- Whether the text after an ampersand makes it an entity: word characters and a semicolon. -/
def completesEntity (t : Text) : Bool :=
  !(t.takeWhile isWordChar).isEmpty && (t.dropWhile isWordChar).head? == some ';'

/-- Named entities for the special characters. An ampersand that starts an entity stays. -/
def htmlText : Text → Text
  | [] => []
  | c :: cs =>
    let image : Text :=
      if c = '&' then (if completesEntity cs then ['&'] else "&amp;")
      else if c = '<' then "&lt;"
      else if c = '>' then "&gt;"
      else if c = '"' then "&quot;"
      else [c]
    image ++ htmlText cs

def html (v : Value) : Value := .string (htmlText v.text)

def lower (v : Value) : Value := .string (Text.lower v.text)

def upper (v : Value) : Value := .string (Text.upper v.text)

def nl2brText (t : Text) : Text := t.flatMap fun c => if c = '\n' then "<br />".toList else [c]

def nl2br (v : Value) : Value := .string (nl2brText v.text)

/-- Capitalizes words. A word starts at a word character and goes on to the next blank. -/
def titleText (inWord : Bool) : Text → Text
  | [] => []
  | c :: cs =>
    if Text.isBlank c then c :: titleText false cs
    else if inWord then Text.lowerChar c ++ titleText true cs
    else if isWordChar c then Text.upperChar c ++ titleText true cs
    else c :: titleText false cs

def title (v : Value) : Value := .string (titleText false v.text)

/-- Decodes numeric entities of exactly two decimal digits. -/
def unescapeText : Text → Text
  | '&' :: '#' :: a :: b :: ';' :: rest =>
    if a.isDigit && b.isDigit then
      Char.ofNat ((a.toNat - '0'.toNat) * 10 + (b.toNat - '0'.toNat)) :: unescapeText rest
    else '&' :: '#' :: unescapeText (a :: b :: ';' :: rest)
  | c :: rest => c :: unescapeText rest
  | [] => []

def unescape (v : Value) : Value := .string (unescapeText v.text)

def isUrlChar (c : Char) : Bool := c.isAlphanum || "-_.!~*'()".toList.contains c

def percentByte (b : UInt8) : Text :=
  let digit := fun (n : Nat) => if n < 10 then Char.ofNat (48 + n) else Char.ofNat (55 + n)
  ['%', digit (b.toNat / 16), digit (b.toNat % 16)]

/-- Percent-encodes the bytes of every other character. -/
def urlText (t : Text) : Text :=
  t.flatMap fun c => if isUrlChar c then [c] else (Text.utf8 [c]).flatMap percentByte

def url (v : Value) : Value := .string (urlText v.text)

def all : List (Text × Handler) :=
  [("escape".toList, escape), ("html".toList, html), ("lower".toList, lower),
    ("upper".toList, upper), ("nl2br".toList, nl2br), ("title".toList, title),
    ("unescape".toList, unescape), ("url".toList, url)].map fun (name, f) => (name, fun v _ => f v)

end HtmlTemplate.Handlers
