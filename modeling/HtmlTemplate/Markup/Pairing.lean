import HtmlTemplate.Markup.Lexer

/-!
Pairing of opening and closing tags. Tags inside raw-text elements become text first; then each
closing tag is paired with the nearest opening tag of its name before it that has no partner yet.
Tags without a partner are no error.
-/

namespace HtmlTemplate.Token

/-- Turns the tokens between an opening tag of this name and the next tag of this name into text.
`inside` tells whether an opening tag came last. -/
def neutralize (name : Text) (inside : Bool) : List Token → List Token
  | [] => []
  | t :: ts =>
    if t.isTag && !t.standalone && t.name == name then
      t :: neutralize name (t.kind == .tagOpen) ts
    else (if inside then t.toText else t) :: neutralize name inside ts

/-- The tokens with the content of every raw-text element turned into text. -/
def neutralizeRawText (tokens : List Token) : List Token :=
  rawTextElements.foldl (fun ts name => neutralize name false ts) tokens

structure Pair where
  opening : Nat
  closing : Nat
deriving DecidableEq

/-- Takes the nearest opening tag of this name out of the tags that wait for a partner. -/
def takeWaiting (name : Text) : List (Text × Nat) → Option (Nat × List (Text × Nat))
  | [] => none
  | (n, i) :: waiting =>
    if n = name then some (i, waiting)
    else (takeWaiting name waiting).map fun (found, others) => (found, (n, i) :: others)

/-- The pairs that close in a token list whose first token stands at position `i`. The opening tags
that wait for a partner come nearest first. -/
def pairsFrom (i : Nat) (waiting : List (Text × Nat)) : List Token → List Pair
  | [] => []
  | t :: ts =>
    match t.kind with
    | .tagOpen => pairsFrom (i + 1) (if t.standalone then waiting else (t.name, i) :: waiting) ts
    | .tagClose =>
      match takeWaiting t.name waiting with
      | some (opening, waiting) => ⟨opening, i⟩ :: pairsFrom (i + 1) waiting ts
      | none => pairsFrom (i + 1) waiting ts
    | _ => pairsFrom (i + 1) waiting ts

/-- All pairs, in the order of their closing tags. -/
def pairs (tokens : List Token) : List Pair := pairsFrom 0 [] tokens

def partner? (pairs : List Pair) (i : Nat) : Option Nat :=
  pairs.findSome? fun p =>
    if p.opening = i then some p.closing else if p.closing = i then some p.opening else none

structure Paired where
  token : Token
  partner : Option Nat
deriving DecidableEq

/-- The tokens with raw text neutralized and every tag paired. -/
def associate (tokens : List Token) : List Paired :=
  let tokens := neutralizeRawText tokens
  let pairs := pairs tokens
  tokens.mapIdx fun i token => ⟨token, partner? pairs i⟩

/-- Nesting depths from position `i` and depth `depth` on. An opening tag with a partner deepens
what follows; its closing tag has one level less than what precedes it. -/
def depthsFrom (i depth : Nat) : List Paired → List Nat
  | [] => []
  | p :: ps =>
    match p.partner with
    | some j => if j < i then (depth - 1) :: depthsFrom (i + 1) (depth - 1) ps
      else depth :: depthsFrom (i + 1) (depth + 1) ps
    | none => depth :: depthsFrom (i + 1) depth ps

def depths (tokens : List Paired) : List Nat := depthsFrom 0 0 tokens

/-- The tags that should have a partner and have none. -/
def unmatched (tokens : List Paired) : List Token :=
  (tokens.filter fun p => p.token.isTag && !p.token.standalone && p.partner.isNone).map (·.token)

end HtmlTemplate.Token
