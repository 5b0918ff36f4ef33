import HtmlTemplate.Markup.Attribute

/-!
Tokens of a template: runs of text and whole tags, comments and document types. A token carries
its source text, so the texts of all tokens in order are the template.
-/

namespace HtmlTemplate

inductive TokenKind
  | text
  | tagOpen
  | tagClose
  | comment
  | doctype
deriving DecidableEq

namespace TokenKind

def name : TokenKind → Text
  | text => "Text"
  | tagOpen => "TagOpen"
  | tagClose => "TagClose"
  | comment => "Comment"
  | doctype => "Doctype"

end TokenKind

structure Token where
  kind : TokenKind
  /-- Offset of the token in the template, in bytes. -/
  start : Nat
  /-- The token as written. -/
  text : Text
  /-- Name of a tag in lower case, empty for other tokens. -/
  name : Text
  attributes : List Attribute
  /-- Whether the tag closes itself or names an element that has no content. -/
  standalone : Bool
deriving DecidableEq

namespace Token

def plain (kind : TokenKind) (start : Nat) (text : Text) : Token :=
  ⟨kind, start, text, [], [], false⟩

/-- Offset just after the token, in bytes. -/
def stop (t : Token) : Nat := t.start + Text.byteSize t.text

def isTag (t : Token) : Bool := t.kind == .tagOpen || t.kind == .tagClose

def toText (t : Token) : Token := plain .text t.start t.text

def voidElements : List Text :=
  ["area", "base", "br", "col", "embed", "hr", "img", "input", "link", "meta", "param", "source",
    "track", "wbr"]

/-- Elements whose content is text that holds no tags. -/
def rawTextElements : List Text := ["script", "style"]

def opensRawText (t : Token) : Bool :=
  t.kind == .tagOpen && !t.standalone && rawTextElements.contains t.name

/-- Conditional comments are kept in the output. -/
def isConditionalComment (text : Text) : Bool := "<!--[".toList.isPrefixOf text

end Token

end HtmlTemplate
