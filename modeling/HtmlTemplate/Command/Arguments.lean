import HtmlTemplate.Text.Basic

/-!
Arguments of the command line: options of the command itself, one of three actions, and the
options of that action. An option stands at most once, and after `--` nothing is one. Where help is
asked for there is nothing to run.
-/

namespace HtmlTemplate.Command

inductive Action
  | compile (file : Text) (compress : Bool)
  | render (file : Text) (data directory : Option Text) (compress : Bool)
  | tokens (file : Text)
deriving DecidableEq

structure Arguments where
  verbose : Bool
  time : Bool
  action : Action
deriving DecidableEq

inductive Usage
  | help
  | invalid
deriving DecidableEq

structure Found where
  flags : List Text
  /-- Options with their values; the value is absent if an option or the end came instead. -/
  values : List (Text × Option Text)
  others : List Text

namespace Found

def none : Found := ⟨[], [], []⟩

def addFlag (f : Found) (name : Text) : Found := { f with flags := name :: f.flags }

def addValue (f : Found) (name : Text) (value : Option Text) : Found :=
  { f with values := (name, value) :: f.values }

def value? (f : Found) (name : Text) : Option Text := (f.values.lookup name).join

/-- Whether no option was given twice and none lacks its value. -/
def isComplete (f : Found) : Bool :=
  let names := f.flags ++ f.values.map (·.1)
  names.eraseDups.length == names.length && f.values.all (·.2.isSome)

end Found

/-- Whether an argument is an option or its mark; a lone dash is neither. -/
def isOption : Text → Bool
  | '-' :: _ :: _ => true
  | _ => false

/-- Whether an argument asks for help. What follows the letter of the short form is not read. -/
def isHelp (arg : Text) : Bool := arg = "--help" || "-h".toList.isPrefixOf arg

/-- Reads the options and the one other argument of an action. What is wrong on its own stops the
reading, and so does a call for help, whichever comes first; what is missing or given twice shows
only at the end. -/
def readOptions (flags values : List Text) : Found → List Text → Except Usage Found
  | found, [] => .ok found
  | found, arg :: args =>
    if arg = "--" then .ok { found with others := found.others ++ args }
    else if isHelp arg then .error .help
    else if !isOption arg then
      if found.others.isEmpty then readOptions flags values { found with others := [arg] } args
      else .error .invalid
    else if flags.contains arg then readOptions flags values (found.addFlag arg) args
    else
      let name := arg.takeWhile (· != '=')
      if !values.contains name then .error .invalid
      else match arg.dropWhile (· != '=') with
        | _ :: value => readOptions flags values (found.addValue name value) args
        | [] =>
          match args with
          | [] => .ok (found.addValue name .none)
          | next :: rest =>
            if isOption next then
              readOptions flags values (found.addValue name .none) (next :: rest)
            else readOptions flags values (found.addValue name next) rest

def actionNames : List Text := ["compile", "render", "tokens"]

def readAction (name : Text) (args : List Text) : Except Usage Action := do
  let options : List Text × List Text ←
    if name = "compile" then .ok (["--compress".toList], [])
    else if name = "render" then .ok (["--compress".toList], ["--data".toList, "--dir".toList])
    else if name = "tokens" then .ok ([], [])
    else .error .invalid
  let found ← readOptions options.1 options.2 .none args
  let compress := found.flags.contains "--compress"
  match found.others with
  | [file] =>
    if !found.isComplete then .error .invalid
    else if name = "compile" then .ok (.compile file compress)
    else if name = "render" then
      .ok (.render file (found.value? "--data") (found.value? "--dir") compress)
    else .ok (.tokens file)
  | _ => .error .invalid

/-- What asking for help about the given topics leads to: help there is about the command, about
an action and about help. -/
def helpAbout : List Text → Usage
  | [] => .help
  | [topic] => if topic = "help" || actionNames.contains topic then .help else .invalid
  | _ => .invalid

/-- Reads all arguments; `found` holds the options of the command read so far. -/
def readArguments (found : Found) : List Text → Except Usage Arguments
  | [] => .error .invalid
  | arg :: args =>
    if isHelp arg then .error .help
    else if arg = "--verbose" ∨ arg = "--time" then readArguments (found.addFlag arg) args
    else if arg = "help" then .error (helpAbout args)
    else do
      let action ← readAction arg args
      if found.isComplete then
        .ok ⟨found.flags.contains "--verbose", found.flags.contains "--time", action⟩
      else .error .invalid

end HtmlTemplate.Command
