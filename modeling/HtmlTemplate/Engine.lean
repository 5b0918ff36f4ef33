import HtmlTemplate.Render.Template
import HtmlTemplate.Library.Standard

/-!
A registry of named templates that include each other. A template is compiled on its first use and
kept if the options say so; replacing its source forgets what was compiled. Every inclusion counts
while it lasts, and one too many is refused, so templates that include each other in a circle end
with an error.
-/

namespace HtmlTemplate

/-- A compiled template; the number tells apart the results of different compilations. -/
structure Compiled where
  number : Nat
  template : Template

structure Engine where
  options : Options
  library : Library
  sources : Table Text
  cache : Table Compiled
  /-- The sources compiled so far, the latest first. -/
  compilations : List Text
  /-- Number of includes that are being rendered. -/
  includes : Nat

namespace Engine

def create (options : Options) (library : Library) : Engine :=
  ⟨options, library, .empty, .empty, [], 0⟩

/-- Registers a template, in place of one of that name. -/
def add (e : Engine) (name source : Text) : Engine :=
  { e with sources := e.sources.insert name source, cache := e.cache.erase name }

def contains (e : Engine) (name : Text) : Bool := e.sources.contains name

def compile (source : Text) : RenderM Engine Compiled := do
  let e ← get
  set { e with compilations := source :: e.compilations }
  pure ⟨e.compilations.length, .compile source e.options⟩

def keep (name : Text) (c : Compiled) : RenderM Engine Unit :=
  modify fun e => if e.options.cache then { e with cache := e.cache.insert name c } else e

def template (name : Text) : RenderM Engine Compiled := do
  let e ← get
  match if e.options.cache then e.cache.get? name else none with
  | some c => pure c
  | none =>
    match e.sources.get? name with
    | none => throw (.unknownTemplate name)
    | some source =>
      let c ← compile source
      keep name c
      pure c

/-- Counts one more include while an action runs, whether it fails or not; too many are refused. -/
def counted {α : Type} (action : RenderM Engine α) : RenderM Engine α := ExceptT.mk fun e =>
  if e.includes ≥ maxIncludeDepth then (.error .includeDepth, e)
  else
    let (result, e) := action.run { e with includes := e.includes + 1 }
    (result, { e with includes := e.includes - 1 })

/-- Renders an included template in which includes nest less than `levels` deep. Each level counts
one include, so when no level is left, the count is at its limit too. -/
def includeWithin :
    (levels : Nat) → Library → Value → Partials Library Engine → Text → RenderM Engine Text
  | 0, _, _, _, _ => throw .includeDepth
  | levels + 1, library, data, partials, name => counted do
    let c ← template name
    (c.template.render ⟨id, includeWithin levels⟩ library data partials).mapError
      (.inTemplate name)

/-- The runtimes that find the engine's templates. One is given by the library of the engine. -/
def runtimes : Runtimes Library Engine := ⟨id, includeWithin maxIncludeDepth⟩

/-- Renders a template, inside the layout if there is one and it is another template. The layout
finds the template among its partials. -/
def renderNamed (name : Text) (data : Value) (partials : Partials Library Engine) :
    RenderM Engine Text := do
  let e ← get
  match e.options.layout.filter (· != name) with
  | none => runtimes.render e.library data partials name
  | some layout =>
    let page ← template name
    let content : Partial Library Engine := fun library data =>
      (page.template.render runtimes library data partials).mapError (.inTemplate name)
    runtimes.render e.library data (partials.insert e.options.partialName content) layout

/-- Renders a source that is not registered; it can include registered templates. -/
def renderUnnamed (source : Text) (data : Value) : RenderM Engine Text := do
  let e ← get
  let c ← compile source
  c.template.render runtimes e.library data .empty

end Engine

end HtmlTemplate
