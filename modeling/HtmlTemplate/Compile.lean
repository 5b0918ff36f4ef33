import HtmlTemplate.Markup.Cleaning
import HtmlTemplate.Emission.Element
import HtmlTemplate.Instr.Normal
import HtmlTemplate.Instr.JavaScript

/-!
Compilation of a template: tokens, pairs, emission, normal form. It never fails; what looks wrong
in the markup is only warned of.
-/

namespace HtmlTemplate

inductive Warning
  | unmatchedTag (kind : TokenKind) (name : Text) (offset : Nat)
  /-- Directives are still open at the end. -/
  | openDirectives (depth openPartials : Nat)
deriving DecidableEq

namespace Warning

def ofToken (t : Token) : Warning := unmatchedTag t.kind t.name t.start

def message : Warning → Text
  | unmatchedTag kind name offset =>
    "unmatched " ++ (if kind = .tagOpen then "opening" else "closing") ++ " tag " ++
      Text.quoted name ++ " at byte " ++ Text.digits offset
  | openDirectives depth openPartials =>
    "unbalanced directive state after emission: depth " ++ Text.digits depth ++ ", " ++
      Text.digits openPartials ++ " open partials"

end Warning

inductive Stage
  | clean
  | lex
  | associate
  | emit
  | optimize
deriving DecidableEq

namespace Stage

def name : Stage → Text
  | clean => "clean"
  | lex => "lex"
  | associate => "associate"
  | emit => "emit"
  | optimize => "optimize"

end Stage

namespace Compile

/-- The paired tokens of a template, which is cleaned first if the options ask for it. -/
def tokens (source : Text) (options : Options) : List Token.Paired :=
  Token.associate (Token.lex (if options.compress then Markup.clean source else source))

def emission (source : Text) (options : Options) : Emission :=
  Emission.ofTokens options (tokens source options)

/-- The instructions of a template, in normal form. -/
def instrs (source : Text) (options : Options) : List Instr :=
  Instr.optimize (emission source options).finish

def warnings (source : Text) (options : Options) : List Warning :=
  let final := emission source options
  (Token.unmatched (tokens source options)).map Warning.ofToken ++
    if final.depth ≠ 0 ∨ !final.partials.isEmpty then
      [.openDirectives final.depth final.partials.length]
    else []

def stages (options : Options) : List Stage :=
  if options.compress then [.clean, .lex, .associate, .emit, .optimize]
  else [.lex, .associate, .emit, .optimize]

def javaScript (source : Text) (options : Options) : Text :=
  JavaScript.ofInstrs (instrs source options)

end Compile

end HtmlTemplate
