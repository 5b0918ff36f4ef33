import HtmlTemplate.Expr.Parser

/-!
What can go wrong while a template is rendered. Compiling never fails, so a malformed expression
or an unknown name shows only here.
-/

namespace HtmlTemplate

/-- Includes that nest deeper than this are taken for a cycle. -/
def maxIncludeDepth : Nat := 64

/-- Directives that nest deeper than this are refused. -/
def maxBlockDepth : Nat := 128

inductive RenderError
  | expression (source : Text) (cause : ParseError)
  | unknownHandler (name : Text)
  | unknownFilter (name source : Text)
  | unknownTemplate (name : Text)
  | includeDepth
  | blockDepth
  /-- An error while the template `name` was rendered. -/
  | inTemplate (name : Text) (cause : RenderError)
deriving DecidableEq

namespace RenderError

def message : RenderError → Text
  | expression source cause =>
    "invalid expression " ++ Text.quoted source ++ ": " ++ cause.message source
  | unknownHandler name => "unknown handler \"" ++ name ++ "\""
  | unknownFilter name source => "unknown filter \"" ++ name ++ "\" in " ++ Text.quoted source
  | unknownTemplate name => "unknown template \"" ++ name ++ "\""
  | includeDepth =>
    "includes nested too deeply (more than " ++ Text.digits maxIncludeDepth ++ " levels)"
  | blockDepth =>
    "directives nested too deeply (more than " ++ Text.digits maxBlockDepth ++ " levels)"
  | inTemplate name cause => "in template \"" ++ name ++ "\": " ++ cause.message

end RenderError

end HtmlTemplate
