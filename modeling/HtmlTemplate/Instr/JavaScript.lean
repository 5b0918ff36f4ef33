import HtmlTemplate.Instr.Basic
import HtmlTemplate.Expr.Script

/-!
A compiled template as the body of a JavaScript function of `runtime`, `root` and `inputPartials`
that returns the output. Loops number their variables by frame.
-/

namespace HtmlTemplate.JavaScript

def escapeChar (c : Char) : Text :=
  if c = '\'' then "\\'"
  else if c = '\\' then "\\\\"
  else if c = '\x08' then "\\b"
  else if c = '\x0c' then "\\f"
  else if c = '\n' then "\\n"
  else if c = '\r' then "\\r"
  else if c = '\t' then "\\t"
  else if c.toNat = 0x2028 then "\\u2028"
  else if c.toNat = 0x2029 then "\\u2029"
  else [c]

def quote (t : Text) : Text := '\'' :: t.flatMap escapeChar ++ ['\'']

/-- The value of an interpolation, or nothing if it is `null` or undefined. -/
def interpolation (v : Variable) : Text :=
  let script := Expr.scriptOfSource v.expr
  let wrapped := v.handlers.foldl
    (fun (inner handler : Text) => "handlers." ++ handler ++ "(" ++ inner ++ ")") script
  "(" ++ script ++ " == null ? '' : " ++ wrapped ++ ")"

def piece : Piece → Text
  | .text t => quote t
  | .value v => interpolation v

def includeCall (target : Target) (partials : Text) : Text :=
  "result += runtime.render(" ++ Expr.scriptOfSource target.data ++ ", " ++ partials ++ ", " ++
    quote target.name ++ ");"

/-- A line of the function body, indented relative to the body of the block around it. -/
structure Line where
  offset : Int
  text : Text

def eachLines (expr : Text) (frame : Nat) : List Line :=
  let n := Text.digits frame
  [⟨0, "var t" ++ n ++ " = " ++ Expr.scriptOfSource expr ++ ", d" ++ n ++ " = data, p" ++ n ++
      " = parent, k" ++ n ++ " = key, l" ++ n ++ " = length;"⟩,
    ⟨0, "var e" ++ n ++ " = t" ++ n ++ " && typeof t" ++ n ++ " === 'object' ? (Array.isArray(t" ++
      n ++ ") ? t" ++ n ++ ".map(function (v, i) \x7b return i; \x7d) : Object.keys(t" ++ n ++
      ")) : [];"⟩,
    ⟨0, "for (var i" ++ n ++ " = 0; i" ++ n ++ " < e" ++ n ++ ".length; i" ++ n ++
      " += 1) \x7b"⟩,
    ⟨1, "parent = d" ++ n ++ ";"⟩,
    ⟨1, "key = e" ++ n ++ "[i" ++ n ++ "];"⟩,
    ⟨1, "length = e" ++ n ++ ".length;"⟩,
    ⟨1, "data = t" ++ n ++ "[key];"⟩]

/-- Lines that restore the bindings of the surroundings and close a loop. -/
def eachEndLines (frame : Nat) : List Line :=
  let n := Text.digits frame
  [⟨0, "data = d" ++ n ++ ";"⟩, ⟨0, "parent = p" ++ n ++ ";"⟩, ⟨0, "key = k" ++ n ++ ";"⟩,
    ⟨0, "length = l" ++ n ++ ";"⟩, ⟨-1, "\x7d"⟩]

def lines : Instr → List Line
  | .append pieces => [⟨0, "result += " ++ Text.join " + " (pieces.map piece) ++ ";"⟩]
  | .ifOpen expr => [⟨0, "if (" ++ Expr.scriptOfSource expr ++ ") \x7b"⟩]
  | .ifClose => [⟨-1, "\x7d"⟩]
  | .eachOpen expr frame => eachLines expr frame
  | .eachClose frame => eachEndLines frame
  | .includeOpen => [⟨0, "(function (outputPartials) \x7b"⟩]
  | .includeClose target => [⟨0, includeCall target "outputPartials"⟩, ⟨-1, "\x7d)(\x7b\x7d);"⟩]
  | .includeInvoke target => [⟨0, includeCall target "null"⟩]
  | .partialOpen name =>
    [⟨0, "outputPartials[" ++ quote name ++ "] = function (data) \x7b"⟩, ⟨1, "var result = '';"⟩]
  | .partialClose => [⟨0, "return result;"⟩, ⟨-1, "\x7d;"⟩]
  | .partialInvoke target =>
    let name := quote target.name
    [⟨0, "result += inputPartials && inputPartials[" ++ name ++ "] ? inputPartials[" ++ name ++
      "](" ++ Expr.scriptOfSource target.data ++ ") : '';"⟩]

def indentChange (i : Instr) : Int := if i.opens then 1 else if i.closes then -1 else 0

/-- A line with its tabs; there are none below the outermost level. -/
def indented (level : Int) (line : Text) : Text :=
  List.replicate level.toNat '\t' ++ line ++ ['\n']

def body (level : Int) : List Instr → Text
  | [] => []
  | i :: is =>
    (lines i).flatMap (fun l => indented (level + l.offset) l.text) ++
      body (level + indentChange i) is

def prelude : List Text :=
  ["var data = root;", "var filters = runtime.filters;", "var handlers = runtime.handlers;",
    "var parent, key, length;", "var result = '';"]

def ofInstrs (instrs : List Instr) : Text :=
  prelude.flatMap (indented 0) ++ body 0 instrs ++ indented 0 "return result;"

end HtmlTemplate.JavaScript
