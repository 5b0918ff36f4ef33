import HtmlTemplate.Text.Blank

/-!
Instructions of a compiled template. Blocks are written flat: an instruction opens one and a later
one closes it.
-/

namespace HtmlTemplate

/-- An interpolation: the text of its expression and the handlers its value passes, in order. -/
structure Variable where
  expr : Text
  handlers : List Text
deriving DecidableEq

inductive Piece
  | text (t : Text)
  | value (v : Variable)
deriving DecidableEq

/-- What an include or partial directive names: a template or partial, and the expression of the
data for it. -/
structure Target where
  name : Text
  data : Text
deriving DecidableEq

namespace Target

/-- Reads `name|data`. Without data the target gets the current data. -/
def ofText (t : Text) : Target :=
  let name := Text.trim (t.takeWhile (· != '|'))
  let data := Text.trim ((t.dropWhile (· != '|')).drop 1)
  ⟨name, if data.isEmpty then "data" else data⟩

end Target

inductive Instr
  /-- Writes the pieces. -/
  | append (pieces : List Piece)
  | ifOpen (expr : Text)
  | ifClose
  /-- Starts a loop; `frame` is the number of loops around it. -/
  | eachOpen (expr : Text) (frame : Nat)
  | eachClose (frame : Nat)
  /-- Starts to collect partials for the include that the matching close makes. -/
  | includeOpen
  | includeClose (target : Target)
  /-- An include that is handed no partials. -/
  | includeInvoke (target : Target)
  /-- Starts the body of a partial for the include around it. -/
  | partialOpen (name : Text)
  | partialClose
  /-- Writes a partial that the template was rendered with, if there is one of that name. -/
  | partialInvoke (target : Target)
deriving DecidableEq

namespace Instr

def text (t : Text) : Instr := append [.text t]

def opens : Instr → Bool
  | ifOpen _ | eachOpen _ _ | includeOpen | partialOpen _ => true
  | _ => false

def closes : Instr → Bool
  | ifClose | eachClose _ | includeClose _ | partialClose => true
  | _ => false

end Instr

end HtmlTemplate
