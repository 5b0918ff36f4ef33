import HtmlTemplate.Library.Basic
import HtmlTemplate.Json.Conversion
import HtmlTemplate.RenderError

/-!
Evaluation of expressions. A missing binding, member or item is no error: it is undefined, and so
is every member of it. The only errors are names of functions that the library does not have.
-/

namespace HtmlTemplate

/-- What the bindings stand for. Outside of loops there is no parent, key or length. -/
structure Scope where
  root : Value
  data : Value
  parent : Option Value
  key : Option Value
  length : Option Value

namespace Scope

/-- The scope in which a template starts. -/
def ofRoot (root : Value) : Scope := ⟨root, root, none, none, none⟩

def lookup (s : Scope) : Binding → Option Value
  | .data => some s.data
  | .parent => s.parent
  | .root => some s.root
  | .key => s.key
  | .length => s.length

end Scope

inductive MemberKey
  | name (text : Text)
  | index (i : Nat)

namespace MemberKey

/-- An integer that is not negative is an index, any other value a name. -/
def ofValue (v : Value) : MemberKey :=
  match v with
  | .number n =>
    match n.index? with
    | some i => index i
    | none => name v.text
  | _ => name v.text

def text : MemberKey → Text
  | name t => t
  | index i => Text.digits i

/-- The index that a name spells: digits, with or without a plus sign. -/
def indexOfName? (t : Text) : Option Nat :=
  let ds := if t.head? = some '+' then t.drop 1 else t
  if ds.isEmpty || !ds.all Char.isDigit then none else some (Expr.digitsValue ds)

end MemberKey

namespace Value

/-- The member of a value. Arrays and texts have a length; a text's is counted in UTF-16 units,
its items are characters and only an index, not a name, reaches them. -/
def member? (v : Value) (k : MemberKey) : Option Value :=
  match v with
  | object _ => v.field? k.text
  | array items =>
    match k with
    | .index i => items[i]?
    | .name t =>
      if t = "length" then some (ofNat items.length)
      else (MemberKey.indexOfName? t).bind fun i => items[i]?
  | string s =>
    match k with
    | .index i => (s[i]?).map fun c => string [c]
    | .name t => if t = "length" then some (ofNat (Text.units s).length) else none
  | _ => none

end Value

namespace Literal

def toValue : Literal → Value
  | null => .null
  | bool b => .bool b
  | number n => .number n
  | string s => .string s

end Literal

namespace Library

/-- Calls a function by name. A handler takes its first argument as the value. `source` is the
expression that holds the call. -/
def call (l : Library) (table : FunctionTable) (function : Text) (arguments : List Value)
    (source : Text) : Except RenderError Value :=
  match table with
  | .filters =>
    match l.filter? function with
    | some f => .ok (f arguments)
    | none => .error (.unknownFilter function source)
  | .handlers =>
    match l.handler? function with
    | some h => .ok (h (arguments.headD .null) arguments.tail)
    | none => .error (.unknownHandler function)

end Library

namespace Expr

mutual

/-- The value of an expression, `none` if it is undefined. `source` is its text. -/
def eval (scope : Scope) (library : Library) (source : Text) :
    Expr → Except RenderError (Option Value)
  | literal l => .ok (some l.toValue)
  | undefined => .ok none
  | binding b => .ok (scope.lookup b)
  | member base property => do
    match ← eval scope library source base with
    | none => .ok none
    | some v => .ok (v.member? (.name property))
  | index base key => do
    match ← eval scope library source base with
    | none => .ok none
    | some v =>
      match ← eval scope library source key with
      | none => .ok (v.member? (.name "undefined"))
      | some k => .ok (v.member? (.ofValue k))
  | not operand => do
    let v ← eval scope library source operand
    .ok (some (.bool !Value.holds v))
  | call table function arguments => do
    let values ← evalArguments scope library source arguments
    let result ← library.call table function values source
    .ok (some result)

/-- The values of arguments in order; an undefined one is passed as `null`. -/
def evalArguments (scope : Scope) (library : Library) (source : Text) :
    List Expr → Except RenderError (List Value)
  | [] => .ok []
  | e :: es => do
    let v ← eval scope library source e
    let vs ← evalArguments scope library source es
    .ok (v.getD .null :: vs)

end

end Expr

/-- An expression's text and what reading it gave. A malformed expression is an error only when
it is evaluated. -/
structure Formula where
  source : Text
  parsed : Except ParseError Expr

namespace Formula

def ofSource (source : Text) : Formula := ⟨source, Expr.parse source⟩

/-- The value of a formula, `none` if it is undefined. -/
def eval (f : Formula) (scope : Scope) (library : Library) : Except RenderError (Option Value) :=
  match f.parsed with
  | .ok e => e.eval scope library f.source
  | .error cause => .error (.expression f.source cause)

def evalOrNull (f : Formula) (scope : Scope) (library : Library) : Except RenderError Value :=
  (f.eval scope library).map (·.getD .null)

end Formula

end HtmlTemplate
