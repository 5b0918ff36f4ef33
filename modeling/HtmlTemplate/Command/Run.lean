import HtmlTemplate.Command.Arguments
import HtmlTemplate.Command.Files
import HtmlTemplate.Engine
import HtmlTemplate.Json.Reader

/-!
The command: compiles a template to JavaScript, renders one with JSON data and a directory of
templates to include, or lists the tokens of one. Nothing is written to the output unless all went
well. Reports go to the error output: what a compilation warns of, and its stages, where asked for.
-/

namespace HtmlTemplate.Command

/-- What a run of the command leaves: its exit code, its output and the lines of its error
output. -/
structure Outcome where
  exitCode : Nat
  output : Text
  errors : List Text

structure Failure where
  message : Text
  cause : Option Text

namespace Failure

/-- The cause stands below the message, each of its lines indented. -/
def lines (f : Failure) : List Text :=
  Text.splitWhere (· == '\n') ("Error: " ++ f.message) ++
    match f.cause with
    | none => []
    | some cause =>
      [[], "Caused by:"] ++ (Text.splitWhere (· == '\n') cause).map ("    ".toList ++ ·)

end Failure

structure Reports where
  warnings : Bool
  stages : Bool

namespace Reports

/-- Arguments and environment can both ask for a report. -/
def ofArguments (a : Arguments) (env : Environment) : Reports :=
  ⟨a.verbose || env.isOn "GAIKAN_WARN", a.time || env.isOn "GAIKAN_TIME_GUARD"⟩

def warningLines (r : Reports) (warnings : List Warning) : List Text :=
  if r.warnings then warnings.map fun w => "W: " ++ w.message else []

def ofCompilation (r : Reports) (options : Options) (source : Text) : List Text :=
  r.warningLines (Compile.warnings source options) ++
    if r.stages then
      (Compile.stages options).map (fun s => "time compile/".toList ++ s.name) ++
        ["time compile".toList]
    else []

end Reports

abbrev Result := List Text × Except Failure Text

namespace Result

def fail (message : Text) (cause : Option Text) : Result := ([], .error ⟨message, cause⟩)

def outcome : Result → Outcome
  | (reports, .ok output) => ⟨0, output, reports⟩
  | (reports, .error failure) => ⟨1, [], reports ++ failure.lines⟩

end Result

section

variable {m : Type → Type} [Monad m]

def readText (files : Files m) (path : Text) : m (Except Failure Text) := do
  let failure := fun (e : FileError) =>
    (⟨"reading " ++ Text.quoted path, some e.message⟩ : Failure)
  match ← files.read path with
  | .error e => pure (.error (failure e))
  | .ok bytes =>
    match Text.ofUtf8? bytes with
    | none => pure (.error (failure .malformedText))
    | some text => pure (.ok text)

def templateName (path : Text) : Except Failure Text :=
  match Path.stem? path with
  | some name => .ok name
  | none => .error ⟨"no usable template name in path " ++ Text.quoted path, none⟩

def addFile (files : Files m) (e : Engine) (path : Text) : m (Except Failure Engine) := do
  match templateName path with
  | .error f => pure (.error f)
  | .ok name => pure ((← readText files path).map (e.add name))

def addFiles (files : Files m) (directory : Text) (e : Engine) :
    List Text → m (Except Failure Engine)
  | [] => pure (.ok e)
  | name :: names => do
    let path := Path.join directory name
    if Path.suffix? path = some "html" then
      match ← addFile files e path with
      | .error f => pure (.error f)
      | .ok e => addFiles files directory e names
    else addFiles files directory e names

def addDirectory (files : Files m) (e : Engine) (directory : Text) :
    m (Except Failure Engine) := do
  match ← files.list directory with
  | .error error =>
    pure (.error ⟨"reading directory " ++ Text.quoted directory, some error.message⟩)
  | .ok names => addFiles files directory e names

/-- The data of a file, or an empty object if there is none. -/
def readData (files : Files m) : Option Text → m (Except Failure Value)
  | none => pure (.ok (.object []))
  | some path => do
    match ← readText files path with
    | .error f => pure (.error f)
    | .ok text =>
      match Json.read? text with
      | some value => pure (.ok value)
      | none =>
        pure (.error ⟨"parsing JSON from " ++ Text.quoted path, some "malformed JSON"⟩)

def compileFile (files : Files m) (reports : Reports) (options : Options) (file : Text) :
    m Result := do
  match ← readText files file with
  | .error f => pure ([], .error f)
  | .ok source =>
    pure (reports.ofCompilation options source, .ok (Compile.javaScript source options))

/-- Renders a registered template. The reports are those of all compilations that it took. -/
def renderTemplate (reports : Reports) (e : Engine) (file name : Text) (data : Value) : Result :=
  let (result, after) := (Engine.renderNamed name data .empty).run e
  let lines := after.compilations.reverse.flatMap (reports.ofCompilation e.options)
  match result with
  | .ok output => (lines, .ok output)
  | .error error =>
    (lines, .error ⟨"rendering " ++ Text.quoted file, some error.message⟩)

def renderFile (files : Files m) (reports : Reports) (options : Options) (file : Text)
    (data directory : Option Text) : m Result := do
  match ← readData files data with
  | .error f => pure ([], .error f)
  | .ok data =>
    let e := Engine.create options .standard
    let filled ← match directory with
      | none => pure (.ok e)
      | some directory => addDirectory files e directory
    match filled with
    | .error f => pure ([], .error f)
    | .ok e =>
      match ← addFile files e file, templateName file with
      | .error f, _ => pure ([], .error f)
      | _, .error f => pure ([], .error f)
      | .ok e, .ok name => pure (renderTemplate reports e file name data)

/-- A token per line, indented by its depth. -/
def tokenLines (source : Text) : Text :=
  let tokens := Token.associate (Token.lex source)
  (tokens.zip (Token.depths tokens)).flatMap fun (p, depth) =>
    List.replicate (2 * depth) ' ' ++ p.token.kind.name ++ " " ++ Text.quoted p.token.text ++
      ['\n']

def listTokens (files : Files m) (reports : Reports) (file : Text) : m Result := do
  match ← readText files file with
  | .error f => pure ([], .error f)
  | .ok source =>
    let unmatched := Token.unmatched (Token.associate (Token.lex source))
    pure (reports.warningLines (unmatched.map .ofToken), .ok (tokenLines source))

def runAction (files : Files m) (reports : Reports) (options : Options) : Action → m Result
  | .compile file compress =>
    compileFile files reports { options with compress := options.compress || compress } file
  | .render file data directory compress =>
    renderFile files reports { options with compress := options.compress || compress } file data
      directory
  | .tokens file => listTokens files reports file

/-- Runs the command. Bad arguments exit with code 2. -/
def run (files : Files m) (env : Environment) (args : List Text) : m Outcome := do
  match readArguments .none args with
  | .error .help => pure ⟨0, [], []⟩
  | .error .invalid => pure ⟨2, [], []⟩
  | .ok arguments =>
    match Options.ofEnvironment env with
    | .error e => pure (Result.fail e.message none).outcome
    | .ok options =>
      let result ← runAction files (.ofArguments arguments env) options arguments.action
      pure result.outcome

end

end HtmlTemplate.Command
