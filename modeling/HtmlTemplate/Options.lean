import HtmlTemplate.Text.Quoted

/-! Settings of the compiler and the engine, and their reading from environment variables. -/

namespace HtmlTemplate

structure Options where
  /-- Strip comments and needless blanks before compiling. -/
  compress : Bool
  /-- Keep compiled templates. -/
  cache : Bool
  /-- The template that wraps every rendered template. -/
  layout : Option Text
  /-- The name under which the layout finds the wrapped template. -/
  partialName : Text
  /-- Elements that vanish when directives are all they carry. -/
  containers : List Text
deriving DecidableEq

/-- The value of an environment variable; it need not be text. -/
inductive EnvValue
  | text (t : Text)
  | malformed

abbrev Environment := List (Text × EnvValue)

inductive OptionsError
  | notUnicode (name : Text)
  | invalidFlag (name value : Text)
  | emptyPartialName
deriving DecidableEq

namespace OptionsError

def message : OptionsError → Text
  | notUnicode name => Text.quoted name ++ " env var is not unicode"
  | invalidFlag name value =>
    Text.quoted name ++ " env var has invalid boolean value " ++ Text.quoted value
  | emptyPartialName => "GAIKAN_PARTIAL must not be empty"

end OptionsError

namespace Environment

def text? (env : Environment) (name : Text) : Except OptionsError (Option Text) :=
  match env.lookup name with
  | none => .ok none
  | some (.text t) => .ok (some t)
  | some .malformed => .error (.notUnicode name)

def falseWords : List Text := ["0", "", "off", "false", "no"]
def trueWords : List Text := ["1", "on", "true", "yes"]

/-- A variable as a flag, `none` if it is not set. -/
def flag? (env : Environment) (name : Text) : Except OptionsError (Option Bool) := do
  match ← env.text? name with
  | none => .ok none
  | some t =>
    if falseWords.contains t then .ok (some false)
    else if trueWords.contains t then .ok (some true)
    else .error (.invalidFlag name t)

def isOn (env : Environment) (name : Text) : Bool :=
  match env.flag? name with
  | .ok (some b) => b
  | _ => false

end Environment

namespace Options

def default : Options :=
  ⟨false, true, none, "content", ["ins".toList, "div".toList, "span".toList]⟩

def isContainer (o : Options) (name : Text) : Bool := o.containers.contains name

/-- The defaults with what the environment sets. An empty layout is none. -/
def ofEnvironment (env : Environment) : Except OptionsError Options := do
  let compress ← env.flag? "GAIKAN_COMPRESS"
  let cache ← env.flag? "GAIKAN_CACHE"
  let layout ← env.text? "GAIKAN_LAYOUT"
  let partialName ← env.text? "GAIKAN_PARTIAL"
  if partialName = some [] then .error .emptyPartialName
  else
    .ok { default with
      compress := compress.getD default.compress
      cache := cache.getD default.cache
      layout := layout.filter (!·.isEmpty)
      partialName := partialName.getD default.partialName }

end Options

end HtmlTemplate
