import HtmlTemplate.Expr.Basic
import HtmlTemplate.Text.Blank
import HtmlTemplate.Text.Quoted

/-!
Reading of expressions:

    unary   := "!" unary | path
    path    := primary ("." identifier | "[" unary "]")*
    primary := "(" unary ")" | string | number | constant | call | identifier
    call    := ("filters" | "handlers") "." identifier "(" (unary ("," unary)*)? ")"

Blanks may stand before every symbol and at the end. A reader takes the text that is left and
returns a result with what is left after it; an error holds the text that is left where it arose,
which tells its offset.
-/

namespace HtmlTemplate

inductive Wanted
  | symbol (c : Char)
  | expression
  | functionName
  | propertyName
  | endOfExpression
deriving DecidableEq

inductive ParseError
  /-- Something else than the wanted was found at the start of `rest`. -/
  | expected (wanted : Wanted) (rest : Text)
  | unterminatedString
  | invalidNumber (text : Text)
deriving DecidableEq

namespace Wanted

def describe : Wanted → Text
  | symbol c => Text.quotedChar c
  | expression => "an expression"
  | functionName => "a function name"
  | propertyName => "a property name"
  | endOfExpression => "end of expression"

end Wanted

namespace ParseError

def message (source : Text) : ParseError → Text
  | expected wanted [] => "expected " ++ wanted.describe ++ ", found end of expression"
  | expected wanted (c :: cs) =>
    "expected " ++ wanted.describe ++ ", found " ++ Text.quotedChar c ++ " at offset " ++
      Text.digits (Text.byteSize source - Text.byteSize (c :: cs))
  | unterminatedString => "unterminated string literal"
  | invalidNumber text => "invalid number " ++ Text.quoted text

end ParseError

namespace Expr

abbrev ExprReader := Text → Except ParseError (Expr × Text)

def isIdentStart (c : Char) : Bool := c.isAlpha || c == '_' || c == '$'
def isIdentChar (c : Char) : Bool := c.isAlphanum || c == '_' || c == '$'

/-- The text after the symbol `c`, if it comes next. -/
def eat? (c : Char) (cs : Text) : Option Text :=
  match Text.trimStart cs with
  | d :: rest => if d = c then some rest else none
  | [] => none

def expect (c : Char) (cs : Text) : Except ParseError Text :=
  match eat? c cs with
  | some rest => .ok rest
  | none => .error (.expected (.symbol c) (Text.trimStart cs))

/-- The longest identifier that comes next. -/
def readIdent (wanted : Wanted) (cs : Text) : Except ParseError (Text × Text) :=
  match Text.trimStart cs with
  | [] => .error (.expected wanted [])
  | c :: rest =>
    if isIdentStart c then .ok (c :: rest.takeWhile isIdentChar, rest.dropWhile isIdentChar)
    else .error (.expected wanted (c :: rest))

def unescape : Char → Char
  | 'n' => '\n'
  | 't' => '\t'
  | 'r' => '\r'
  | c => c

/-- A string after its opening quote, up to the next quote of that kind without a backslash. -/
def readString (quote : Char) : Text → Except ParseError (Text × Text)
  | [] => .error .unterminatedString
  | c :: cs =>
    if c = '\\' then
      match cs with
      | [] => .error .unterminatedString
      | d :: cs => do
        let (s, rest) ← readString quote cs
        .ok (unescape d :: s, rest)
    else if c = quote then .ok ([], cs)
    else do
      let (s, rest) ← readString quote cs
      .ok (c :: s, rest)

def digitsValue (ds : Text) : Nat := ds.foldl (fun n c => n * 10 + (c.toNat - '0'.toNat)) 0

/-- The number that a run of digits and points with an optional sign stands for. An integer of
more than 64 bits becomes a float; with two points, or if it is too large, it is no number. -/
def numberOfText? (text : Text) : Option Number :=
  let (negative, unsigned) : Bool × Text :=
    match text with
    | '-' :: rest => (true, rest)
    | _ => (false, text)
  let whole := unsigned.takeWhile (· != '.')
  let fraction := (unsigned.dropWhile (· != '.')).drop 1
  let value := if negative then -(digitsValue whole : Int) else digitsValue whole
  let bound : Int := Nat.pow 2 63
  if whole.length = unsigned.length ∧ -bound ≤ value ∧ value < bound then some (.int value)
  else if fraction.contains '.' then none
  else
    (Binary64.ofDecimal? (digitsValue (whole ++ fraction)) (-fraction.length)).map fun x =>
      .float (x.withSign negative)

/-- The longest run of digits and points after the first character. -/
def readNumber : Text → Except ParseError (Number × Text)
  | [] => .error (.expected .expression [])
  | c :: cs =>
    let isPart := fun (d : Char) => d.isDigit || d == '.'
    let text := c :: cs.takeWhile isPart
    match numberOfText? text with
    | some n => .ok (n, cs.dropWhile isPart)
    | none => .error (.invalidNumber text)

/-- Whether a number comes next: a digit, or a minus sign with a digit right after it. -/
def startsNumber : Text → Bool
  | '-' :: c :: _ => c.isDigit
  | c :: _ => c.isDigit
  | [] => false

/-- The arguments of a call from the first one on, up to the closing parenthesis. -/
def readArguments (unary : ExprReader) :
    (steps : Nat) → Text → Except ParseError (List Expr × Text)
  | 0, cs => .error (.expected (.symbol ')') cs)
  | steps + 1, cs => do
    let (argument, rest) ← unary cs
    match eat? ')' rest with
    | some rest => .ok ([argument], rest)
    | none =>
      let rest ← expect ',' rest
      let (arguments, rest) ← readArguments unary steps rest
      .ok (argument :: arguments, rest)

def readCall (unary : ExprReader) (table : FunctionTable) (cs : Text) :
    Except ParseError (Expr × Text) := do
  let rest ← expect '.' cs
  let (function, rest) ← readIdent .functionName rest
  let rest ← expect '(' rest
  match eat? ')' rest with
  | some rest => .ok (.call table function [], rest)
  | none =>
    let (arguments, rest) ← readArguments unary (rest.length + 1) rest
    .ok (.call table function arguments, rest)

/-- The expression that an identifier starts, with the text after the identifier. -/
def readNamed (unary : ExprReader) (ident rest : Text) : Except ParseError (Expr × Text) :=
  if ident = "true" then .ok (.literal (.bool true), rest)
  else if ident = "false" then .ok (.literal (.bool false), rest)
  else if ident = "null" then .ok (.literal .null, rest)
  else if ident = "undefined" then .ok (.undefined, rest)
  else if ident = "filters" then readCall unary .filters rest
  else if ident = "handlers" then readCall unary .handlers rest
  else match Binding.ofName? ident with
    | some b => .ok (.binding b, rest)
    | none => .ok (.member (.binding .data) ident, rest)

def readPrimary (unary : ExprReader) : ExprReader := fun cs =>
  match Text.trimStart cs with
  | [] => .error (.expected .expression [])
  | c :: rest =>
    if c = '(' then do
      let (inner, rest) ← unary rest
      let rest ← expect ')' rest
      .ok (inner, rest)
    else if c = '\'' ∨ c = '"' then do
      let (s, rest) ← readString c rest
      .ok (.literal (.string s), rest)
    else if startsNumber (c :: rest) then do
      let (n, rest) ← readNumber (c :: rest)
      .ok (.literal (.number n), rest)
    else do
      let (ident, rest) ← readIdent .expression (c :: rest)
      readNamed unary ident rest

/-- The member accesses that follow an expression. Each takes at least one character. -/
def readMembers (unary : ExprReader) : (steps : Nat) → Expr → ExprReader
  | 0, base, cs => .ok (base, cs)
  | steps + 1, base, cs =>
    match eat? '.' cs with
    | some rest => do
      let (property, rest) ← readIdent .propertyName rest
      readMembers unary steps (.member base property) rest
    | none =>
      match eat? '[' cs with
      | some rest => do
        let (key, rest) ← unary rest
        let rest ← expect ']' rest
        readMembers unary steps (.index base key) rest
      | none => .ok (base, cs)

/-- An expression with at most `depth` levels of nesting. Each level takes a character, so the
length of the text is depth enough. -/
def readUnary : (depth : Nat) → ExprReader
  | 0, cs => .error (.expected .expression cs)
  | depth + 1, cs =>
    match eat? '!' cs with
    | some rest => do
      let (operand, rest) ← readUnary depth rest
      .ok (.not operand, rest)
    | none => do
      let (base, rest) ← readPrimary (readUnary depth) cs
      readMembers (readUnary depth) (rest.length + 1) base rest

def parse (source : Text) : Except ParseError Expr := do
  let (e, rest) ← readUnary (source.length + 1) source
  match Text.trimStart rest with
  | [] => .ok e
  | rest => .error (.expected .endOfExpression rest)

end Expr

end HtmlTemplate
