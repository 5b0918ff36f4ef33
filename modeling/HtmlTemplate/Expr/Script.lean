import HtmlTemplate.Expr.Parser
import HtmlTemplate.Json.Quoted

/-!
Expressions as JavaScript over the variables `data`, `parent`, `root`, `key`, `length`, `filters`
and `handlers`. No parentheses are written.
-/

namespace HtmlTemplate

namespace Literal

def script : Literal → Text
  | null => "null"
  | bool b => if b then "true" else "false"
  | number n => n.literalText
  | string s => Json.quoted s

end Literal

namespace Expr

mutual

def script : Expr → Text
  | literal l => l.script
  | undefined => "undefined"
  | binding b => b.name
  | member base property => base.script ++ "." ++ property
  | index base key => base.script ++ "[" ++ key.script ++ "]"
  | not operand => "!" ++ operand.script
  | call table function arguments =>
    table.name ++ "." ++ function ++ "(" ++ Text.join ", " (scripts arguments) ++ ")"

def scripts : List Expr → List Text
  | [] => []
  | e :: es => e.script :: scripts es

end

/-- The JavaScript of an expression text: the text itself if it is malformed. -/
def scriptOfSource (source : Text) : Text :=
  match parse source with
  | .ok e => e.script
  | .error _ => source

end Expr

end HtmlTemplate
