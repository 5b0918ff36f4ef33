import HtmlTemplate.Text.Basic

/-! The UTF-8 form of text and its reading, which refuses every malformed sequence. -/

namespace HtmlTemplate.Text

def utf8 (t : Text) : List UInt8 := t.flatMap String.utf8EncodeChar

/-- The text with these bytes, if they are well-formed UTF-8. -/
def ofUtf8? (bytes : List UInt8) : Option Text :=
  (String.fromUTF8? ⟨bytes.toArray⟩).map String.toList

end HtmlTemplate.Text
