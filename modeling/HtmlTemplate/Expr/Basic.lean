import HtmlTemplate.Number.Basic

/-!
Expressions of directives and interpolations: literals, the bindings of the surrounding loops,
access to members, negation, and calls of filters and handlers.
-/

namespace HtmlTemplate

/-- What a name that is not a property stands for. -/
inductive Binding
  | data
  | parent
  | root
  | key
  | length
deriving DecidableEq

inductive FunctionTable
  | filters
  | handlers
deriving DecidableEq

inductive Literal
  | null
  | bool (value : Bool)
  | number (value : Number)
  | string (value : Text)
deriving DecidableEq

inductive Expr
  | literal (value : Literal)
  | undefined
  | binding (which : Binding)
  /-- `base.property` -/
  | member (base : Expr) (property : Text)
  /-- `base[key]` -/
  | index (base key : Expr)
  | not (operand : Expr)
  | call (table : FunctionTable) (function : Text) (arguments : List Expr)

namespace Binding

def name : Binding → Text
  | data => "data"
  | parent => "parent"
  | root => "root"
  | key => "key"
  | length => "length"

/-- The binding that an identifier names; `this` is the current data. -/
def ofName? (name : Text) : Option Binding :=
  [("data".toList, data), ("this".toList, data), ("parent".toList, parent),
    ("root".toList, root), ("key".toList, key), ("length".toList, length)].lookup name

end Binding

namespace FunctionTable

def name : FunctionTable → Text
  | filters => "filters"
  | handlers => "handlers"

end FunctionTable

end HtmlTemplate
