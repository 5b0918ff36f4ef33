import HtmlTemplate.Directive
import HtmlTemplate.Emission.Basic

/-!
What directives emit: each opens with its element, closes with it, and for an element without
content an include or a partial is invoked in place of both.
-/

namespace HtmlTemplate.Emission

/-- Opens a directive. The content of a registered partial is a template of its own, in which
partials are looked up and not registered. -/
def openDirective (s : Emission) (d : Directive) (value : Text) : Emission :=
  match d with
  | .condition => s.insert (.ifOpen (Text.trim value))
  | .iteration =>
    let (s, frame) := s.enterLoop
    s.insert (.eachOpen (Text.trim value) frame)
  | .inclusion => { s with depth := s.depth + 1 }.insert .includeOpen
  | .partialSlot =>
    if s.depth > 0 then
      { s with partials := some s.depth :: s.partials, depth := 0 }.insert
        (.partialOpen (Target.ofText value).name)
    else { s with partials := none :: s.partials }

/-- Emits the form of a directive for an element without content; directives that have none emit
nothing. -/
def invokeDirective (s : Emission) (d : Directive) (value : Text) : Emission :=
  match d with
  | .inclusion => s.push (.includeInvoke (Target.ofText value))
  | .partialSlot => s.push (.partialInvoke (Target.ofText value))
  | .condition | .iteration => s

/-- Closes a directive. A partial that was not registered is looked up after its content. -/
def closeDirective (s : Emission) (d : Directive) (value : Text) : Emission :=
  match d with
  | .condition => s.push .ifClose
  | .iteration =>
    let (s, frame) := s.leaveLoop
    s.push (.eachClose frame)
  | .inclusion => { s with depth := s.depth - 1 }.push (.includeClose (Target.ofText value))
  | .partialSlot =>
    match s.partials with
    | some depth :: partials => { s with partials, depth }.push .partialClose
    | _ => { s with partials := s.partials.tail }.invokeDirective .partialSlot value

def openClauses (s : Emission) (clauses : List Clause) : Emission :=
  clauses.foldl (fun s c => s.openDirective c.directive c.value) s

/-- Closes clauses in reverse order. -/
def closeClauses (s : Emission) (clauses : List Clause) : Emission :=
  clauses.reverse.foldl (fun s c => s.closeDirective c.directive c.value) s

def invokeClauses (s : Emission) (clauses : List Clause) : Emission :=
  clauses.foldl (fun s c => s.invokeDirective c.directive c.value) s

end HtmlTemplate.Emission
