import HtmlTemplate.Text.Blank

/-!
Attributes of an opening tag. The inside of a tag is split into chunks at the blanks outside of
quotes, except around an equals sign; a chunk is then split at its first equals sign.
-/

namespace HtmlTemplate

structure Attribute where
  /-- In lower case. -/
  key : Text
  /-- The value without its quotes, absent if the attribute has no equals sign. -/
  value : Option Text
  /-- The quote that opens the value. -/
  quote : Option Char
  /-- Whether the value's quote is closed at the end. -/
  hasEndQuote : Bool
  /-- The attribute as written. -/
  raw : Text
deriving DecidableEq

namespace Attribute

def isQuote (c : Char) : Bool := c == '"' || c == '\''

/-- The attribute whose text is one chunk. A missing end quote is tolerated. -/
def ofChunk (chunk : Text) : Attribute :=
  match chunk.dropWhile (· != '=') with
  | [] => ⟨Text.lowerAscii chunk, none, none, false, chunk⟩
  | _ :: after =>
    let key := Text.lowerAscii (Text.trim (chunk.takeWhile (· != '=')))
    match Text.trimStart after with
    | [] => ⟨key, some [], none, false, chunk⟩
    | q :: inside =>
      if !isQuote q then ⟨key, some (q :: inside), none, false, chunk⟩
      else if inside.getLast? = some q then ⟨key, some inside.dropLast, some q, true, chunk⟩
      else ⟨key, some inside, some q, false, chunk⟩

def nextQuote (open? : Option Char) (c : Char) : Option Char :=
  match open? with
  | some q => if c = q then none else some q
  | none => if isQuote c then some c else none

/-- Chunks of the text that follows an unfinished chunk. `chunk` holds the characters of that
chunk, the last one first, and `gap` the blanks read after it, again the last one first. -/
def chunksAfter (open? : Option Char) (chunk gap : Text) : Text → List Text
  | [] => if chunk.isEmpty then [] else [chunk.reverse]
  | c :: cs =>
    if open?.isNone && Text.isBlank c then
      chunksAfter open? chunk (if chunk.isEmpty then [] else c :: gap) cs
    else if gap.isEmpty || c = '=' || chunk.head? = some '=' then
      chunksAfter (nextQuote open? c) (c :: (gap ++ chunk)) [] cs
    else chunk.reverse :: chunksAfter (nextQuote open? c) [c] [] cs

/-- The chunks of the inside of a tag, a lone slash among them. -/
def chunks (interior : Text) : List Text := chunksAfter none [] [] interior

/-- The attributes of the inside of a tag: its chunks other than a lone slash. -/
def split (interior : Text) : List Attribute :=
  ((chunks interior).filter (· != ['/'])).map ofChunk

end Attribute

end HtmlTemplate
