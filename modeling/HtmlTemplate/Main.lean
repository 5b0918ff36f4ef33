import HtmlTemplate.Command.Run

/-! The command line program. -/

namespace HtmlTemplate.Command

/-- The number of a system error, which may have been reported with a minus sign. -/
def errorNumber (code : UInt32) : UInt32 := min code (0 - code)

/-- The cause that a failed access reports, by the number of the system's error. -/
def causeOf (error : IO.Error) : FileError :=
  match error with
  | .noFileOrDirectory .. => .notFound
  | .inappropriateType _ code _ | .invalidArgument _ code _ =>
    match errorNumber code with
    | 20 => .notDirectory
    | 21 => .isDirectory
    | 36 => .nameTooLong
    | _ => .other (toString error)
  | _ => .other (toString error)

def attempt {α : Type} (action : IO α) : IO (Except FileError α) := do
  try
    return .ok (← action)
  catch error =>
    return .error (causeOf error)

def machineFiles : Files IO where
  read path := attempt do
    let bytes ← IO.FS.readBinFile (String.ofList path)
    return bytes.toList
  list path := attempt do
    let directory ← IO.FS.realPath (String.ofList path)
    let entries ← directory.readDir
    return entries.toList.map (·.fileName.toList)

def machineEnvironment : IO Environment := do
  let names := ["GAIKAN_COMPRESS", "GAIKAN_CACHE", "GAIKAN_LAYOUT", "GAIKAN_PARTIAL",
    "GAIKAN_WARN", "GAIKAN_TIME_GUARD"]
  let found ← names.filterMapM fun name => do
    let value ← IO.getEnv name
    return value.map fun v => (name.toList, EnvValue.text v.toList)
  return found

def usage : List String :=
  ["usage: [--verbose] [--time] compile FILE [--compress]",
    "       [--verbose] [--time] render FILE [--data FILE] [--dir DIR] [--compress]",
    "       [--verbose] [--time] tokens FILE"]

end HtmlTemplate.Command

open HtmlTemplate.Command in
def main (args : List String) : IO UInt32 := do
  let outcome ← run machineFiles (← machineEnvironment) (args.map String.toList)
  if outcome.exitCode = 2 then usage.forM (IO.eprintln ·)
  outcome.errors.forM fun line => IO.eprintln (String.ofList line)
  IO.print (String.ofList outcome.output)
  return outcome.exitCode.toUInt32
