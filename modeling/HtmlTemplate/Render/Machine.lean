import HtmlTemplate.Render.Program
import HtmlTemplate.Table

/-!
Execution of programs. Rendering may change the state of its surroundings, and a failure keeps the
state that was reached. A registered partial is a function: it holds the scope and the partials of
the place where it was registered and takes the runtime and the data of the place where it is
called.
-/

namespace HtmlTemplate

/-- Rendering in surroundings with states `σ`: a result or an error, and the new state. -/
abbrev RenderM (σ : Type) := ExceptT RenderError (StateM σ)

/-- A piece of template that one template hands to another. It runs in the runtime, one of `ρ`, of
the template that calls it. -/
abbrev Partial (ρ σ : Type) := ρ → Value → RenderM σ Text

abbrev Partials (ρ σ : Type) := Table (Partial ρ σ)

/-- What templates are rendered in: the runtimes are the elements of `ρ`, and each of them has a
library and other templates by name. -/
structure Runtimes (ρ σ : Type) where
  library : ρ → Library
  /-- Renders the named template for an include. -/
  render : ρ → Value → Partials ρ σ → Text → RenderM σ Text

namespace RenderM

variable {σ α : Type}

/-- A result that does not depend on the surroundings. -/
def ofExcept (r : Except RenderError α) : RenderM σ α := ExceptT.mk (pure r)

def mapError (f : RenderError → RenderError) (action : RenderM σ α) : RenderM σ α :=
  ExceptT.mk ((Except.mapError f) <$> action.run)

end RenderM

namespace Runtimes

/-- Libraries as runtimes, without templates. -/
def libraries {σ : Type} : Runtimes Library σ :=
  ⟨id, fun _ _ _ name => throw (.unknownTemplate name)⟩

end Runtimes

structure Machine (ρ σ : Type) where
  scope : Scope
  /-- Partials registered so far for the includes around the current place, innermost first. -/
  collectors : List (Partials ρ σ)
  out : Text

namespace Value

/-- What a loop goes over, with keys: the items of an array by index, the fields of an object by
name, nothing of any other value. -/
def entries : Value → List (Value × Value)
  | array items => items.mapIdx fun i item => (ofNat i, item)
  | object fields => fields.map fun (key, value) => (string key, value)
  | _ => []

end Value

namespace Library

def applyHandlers (l : Library) (value : Value) : List Text → Except RenderError Value
  | [] => .ok value
  | name :: names =>
    match l.handler? name with
    | some h => l.applyHandlers (h value []) names
    | none => .error (.unknownHandler name)

end Library

namespace Part

/-- What a part writes. A value that is `null` or undefined writes nothing, and its handlers are
not looked up. -/
def write (scope : Scope) (library : Library) : Part → Except RenderError Text
  | text t => .ok t
  | value formula handlers => do
    match ← formula.eval scope library with
    | none | some .null => .ok []
    | some v => (library.applyHandlers v handlers).map Value.outputText

def writeAll (scope : Scope) (library : Library) : List Part → Except RenderError Text
  | [] => .ok []
  | part :: parts => do
    let t ← part.write scope library
    let ts ← writeAll scope library parts
    .ok (t ++ ts)

end Part

namespace Machine

variable {ρ σ : Type}

/-- The machine at the start of a template or of a partial's body. -/
def start (scope : Scope) : Machine ρ σ := ⟨scope, [], []⟩

def write (m : Machine ρ σ) (t : Text) : Machine ρ σ := { m with out := m.out ++ t }

def collect (m : Machine ρ σ) : Machine ρ σ := { m with collectors := .empty :: m.collectors }

def collected (m : Machine ρ σ) : Partials ρ σ × Machine ρ σ :=
  (m.collectors.headD .empty, { m with collectors := m.collectors.tail })

/-- Adds a partial for the innermost include; outside of includes it is lost. -/
def register (m : Machine ρ σ) (name : Text) (p : Partial ρ σ) : Machine ρ σ :=
  match m.collectors with
  | [] => m
  | c :: cs => { m with collectors := c.insert name p :: cs }

/-- Binds an entry, a key with its value, of a loop that started in `outer`. -/
def enter (m : Machine ρ σ) (outer : Scope) (count : Nat) (entry : Value × Value) : Machine ρ σ :=
  { m with scope :=
      { m.scope with
        data := entry.2
        parent := some outer.data
        key := some entry.1
        length := some (.ofNat count) } }

end Machine

namespace Program

variable {ρ σ : Type}

def callTemplate (rts : Runtimes ρ σ) (rt : ρ) (partials : Partials ρ σ) (call : Call)
    (m : Machine ρ σ) : RenderM σ (Machine ρ σ) := do
  let data ← .ofExcept (call.data.evalOrNull m.scope (rts.library rt))
  let t ← rts.render rt data partials call.name
  pure (m.write t)

/-- Writes a partial that the template was rendered with; one that it was not writes nothing, and
the data for it is not evaluated. -/
def callPartial (rts : Runtimes ρ σ) (rt : ρ) (inputs : Partials ρ σ) (call : Call)
    (m : Machine ρ σ) : RenderM σ (Machine ρ σ) :=
  match inputs.get? call.name with
  | none => pure m
  | some p => do
    let data ← .ofExcept (call.data.evalOrNull m.scope (rts.library rt))
    let t ← p rt data
    pure (m.write t)

/-- Makes the include that closes a block, if an include closes it. -/
def callClosing (rts : Runtimes ρ σ) (rt : ρ) (closing : Option Op) (partials : Partials ρ σ)
    (m : Machine ρ σ) : RenderM σ (Machine ρ σ) :=
  match closing with
  | some (.callCollected call) => callTemplate rts rt partials call m
  | _ => pure m

/-- Runs the first `count` operations of a list in a template that was handed the partials
`inputs`. A block runs its body, the operations right after it, and goes on behind its close. -/
def run (rts : Runtimes ρ σ) (rt : ρ) (inputs : Partials ρ σ) :
    (count : Nat) → (ops : List Op) → Machine ρ σ → RenderM σ (Machine ρ σ)
  | 0, _, m => pure m
  | _ + 1, [], m => pure m
  | count + 1, op :: rest, m =>
    match op with
    | .append parts => do
      let t ← .ofExcept (Part.writeAll m.scope (rts.library rt) parts)
      run rts rt inputs count rest (m.write t)
    | .branch condition body => do
      let v ← .ofExcept (condition.eval m.scope (rts.library rt))
      let m ← if Value.holds v then run rts rt inputs body rest m else pure m
      run rts rt inputs (count - (body + 1)) (rest.drop (body + 1)) m
    | .loop items body => do
      let v ← .ofExcept (items.evalOrNull m.scope (rts.library rt))
      let outer := m.scope
      let entries := v.entries
      let total := entries.length
      let m ← entries.foldlM
        (fun m entry => run rts rt inputs body rest (m.enter outer total entry)) m
      run rts rt inputs (count - (body + 1)) (rest.drop (body + 1)) { m with scope := outer }
    | .collect body => do
      let m ← run rts rt inputs body rest m.collect
      let m ← callClosing rts rt rest[body]? m.collected.1 m.collected.2
      run rts rt inputs (count - (body + 1)) (rest.drop (body + 1)) m
    | .register name body => do
      let p : Partial ρ σ := fun rt data => do
        let inner ← run rts rt inputs body rest (.start { m.scope with data })
        pure inner.out
      run rts rt inputs (count - (body + 1)) (rest.drop (body + 1)) (m.register name p)
    | .callInclude call => do
      let m ← callTemplate rts rt .empty call m
      run rts rt inputs count rest m
    | .callPartial call => do
      let m ← callPartial rts rt inputs call m
      run rts rt inputs count rest m
    | .callCollected _ | .close => run rts rt inputs count rest m
termination_by _ ops => ops.length

end Program

end HtmlTemplate
