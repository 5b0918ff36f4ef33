import HtmlTemplate.Markup.Pairing
import HtmlTemplate.Emission.Directive
import HtmlTemplate.Emission.Interpolation
import HtmlTemplate.Options

/-!
Emission of a token list. Elements with a closing tag wait on a stack until it comes, so deep
markup needs no deep recursion. An element without directives is written as it stands; one with
directives gets its tag from the attributes that are left, or loses its tags if it is a container
without any.
-/

namespace HtmlTemplate

/-- An element whose closing tag is still ahead. -/
structure Element where
  /-- Position of the closing tag. -/
  stop : Nat
  keepsTags : Bool
  /-- Directives around the tags. -/
  outer : List Clause
  /-- Directives between the tags. -/
  inner : List Clause

namespace Token

def openTagWith (t : Token) (attributes : List Attribute) : Text :=
  '<' :: (t.text.drop 1).take t.name.length ++ attributes.flatMap (fun a => ' ' :: a.raw) ++
    (if "/>".toList.isSuffixOf t.text then " />" else ">")

/-- The opening tag without its directives; none if the element is to lose its tags. -/
def keptTag? (t : Token) (options : Options) : Option Text :=
  let remaining := Clause.remaining t.attributes
  if remaining.isEmpty && options.isContainer t.name then none else some (t.openTagWith remaining)

end Token

namespace Emission

def openElement (options : Options) (s : Emission) (t : Token) (stop : Nat) :
    Emission × Element :=
  let clauses := Clause.ofAttributes t.attributes
  if clauses.isEmpty then (s.writeLiteral t.text, ⟨stop, true, [], []⟩)
  else
    let s := s.mark
    match t.keptTag? options with
    | some tag =>
      let (outer, inner) := Clause.split s.depth clauses
      let s := (((s.writeLiteral tag).openClauses outer).unmark).openClauses inner
      (s, ⟨stop, true, outer, inner⟩)
    | none => ((s.openClauses clauses).unmark, ⟨stop, false, clauses, []⟩)

def closeElement (s : Emission) (e : Element) (closingTag : Text) : Emission :=
  let s := s.closeClauses e.inner
  let s := if e.keepsTags then s.writeLiteral closingTag else s
  s.closeClauses e.outer

/-- Emits an opening tag that has no partner: conditions and loops go around the tag, includes and
partials are invoked after it. -/
def loneTag (options : Options) (s : Emission) (t : Token) : Emission :=
  let clauses := Clause.ofAttributes t.attributes
  if clauses.isEmpty then s.writeLiteral t.text
  else
    let (invoked, wrapping) := clauses.partition (·.directive.isInvocable)
    let s := s.mark.openClauses wrapping
    let s := match t.keptTag? options with
      | some tag => s.writeLiteral tag
      | none => s
    (s.unmark.invokeClauses invoked).closeClauses wrapping

/-- The state of emission with the elements whose closing tags are ahead, innermost first. -/
structure Progress where
  state : Emission
  waiting : List Element

/-- Emits a token at position `i` that closes no waiting element; `limit` is the position of the
closing tag of the innermost one, or the end. A tag whose partner is not before the limit has its
element broken off by the surrounding one and stands alone. -/
def emitInside (options : Options) (limit i : Nat) (p : Progress) (t : Token.Paired) : Progress :=
  match t.token.kind with
  | .text | .doctype | .tagClose => { p with state := p.state.writeLiteral t.token.text }
  | .comment =>
    if Token.isConditionalComment t.token.text then { p with state := p.state.write t.token.text }
    else p
  | .tagOpen =>
    match t.partner with
    | some stop =>
      if i < stop ∧ stop < limit then
        let (s, e) := p.state.openElement options t.token stop
        ⟨s, e :: p.waiting⟩
      else { p with state := p.state.loneTag options t.token }
    | none => { p with state := p.state.loneTag options t.token }

def emitToken (options : Options) (count i : Nat) (p : Progress) (t : Token.Paired) : Progress :=
  match p.waiting with
  | [] => emitInside options count i p t
  | e :: waiting =>
    if e.stop = i then ⟨p.state.closeElement e t.token.text, waiting⟩
    else emitInside options e.stop i p t

def emitFrom (options : Options) (count : Nat) :
    (i : Nat) → Progress → List Token.Paired → Progress
  | _, p, [] => p
  | i, p, t :: ts => emitFrom options count (i + 1) (emitToken options count i p t) ts

def ofTokens (options : Options) (tokens : List Token.Paired) : Emission :=
  (emitFrom options tokens.length 0 ⟨start, []⟩ tokens).state

end Emission

end HtmlTemplate
