import HtmlTemplate.Text.Utf8

/-!
Files as the command line sees them: reading a file, listing a directory, and the parts of a path.
A file tree holds files by path and answers as a directory that contains just them.
-/

namespace HtmlTemplate.Command

inductive FileError
  | notFound
  | isDirectory
  | notDirectory
  | nameTooLong
  | malformedText
  | other (message : Text)

namespace FileError

def message : FileError → Text
  | notFound => "No such file or directory (os error 2)"
  | isDirectory => "Is a directory (os error 21)"
  | notDirectory => "Not a directory (os error 20)"
  | nameTooLong => "File name too long (os error 36)"
  | malformedText => "stream did not contain valid UTF-8"
  | other message => message

end FileError

structure Files (m : Type → Type) where
  read : Text → m (Except FileError (List UInt8))
  /-- The names in a directory. -/
  list : Text → m (Except FileError (List Text))

namespace Path

/-- The steps of a path: names, and dots for the same directory and the one above. -/
def steps (path : Text) : List Text := (Text.splitWhere (· == '/') path).filter (!·.isEmpty)

/-- The steps of a path that lead elsewhere. -/
def parts (path : Text) : List Text := (steps path).filter (· != ['.'])

def fileName? (path : Text) : Option Text := (parts path).getLast?.filter (· != ['.', '.'])

/-- A file name cut at its last dot. A dot at the start does not count. -/
def cutSuffix (name : Text) : Text × Option Text :=
  let suffix := (name.reverse.takeWhile (· != '.')).reverse
  let stem := name.take (name.length - suffix.length - 1)
  if stem.isEmpty then (name, none) else (stem, some suffix)

def stem? (path : Text) : Option Text := (fileName? path).map fun name => (cutSuffix name).1

def suffix? (path : Text) : Option Text := (fileName? path).bind fun name => (cutSuffix name).2

def join (directory name : Text) : Text :=
  if directory.isEmpty || directory.getLast? == some '/' then directory ++ name
  else directory ++ '/' :: name

end Path

abbrev FileTree := List (Text × List UInt8)

/-- Where a path leads to: a place in the tree, given by its parts, or a directory above it, in
which nothing is found. -/
inductive Place
  | inside (parts : List Text)
  | above
deriving DecidableEq

namespace FileTree

/-- The longest name of a file, in bytes. -/
def longestName : Nat := 255

/-- The longest path, in bytes. -/
def longestPath : Nat := 4095

def content? (tree : FileTree) : Place → Option (List UInt8)
  | .inside parts => (tree.find? fun (path, _) => Path.parts path == parts).map (·.2)
  | .above => none

def enter (tree : FileTree) (place : Place) (step : Text) : Except FileError Place :=
  if step = "." then .ok place
  else if step = ".." then
    match place with
    | .inside (part :: parts) => .ok (.inside (part :: parts).dropLast)
    | _ => .ok .above
  else if Text.byteSize step > longestName then .error .nameTooLong
  else
    match place with
    | .inside parts =>
      if tree.any fun (path, _) => (parts ++ [step]).isPrefixOf (Path.parts path) then
        .ok (.inside (parts ++ [step]))
      else .error .notFound
    | .above => .error .notFound

/-- Follows the steps of a path from a place. No step leads on from a file. -/
def resolve (tree : FileTree) : Place → List Text → Except FileError Place
  | place, [] => .ok place
  | place, step :: steps => do
    if (tree.content? place).isSome then .error .notDirectory
    else resolve tree (← tree.enter place step) steps

/-- The place that a path leads to. A slash at the end asks for a directory. -/
def locate (tree : FileTree) (path : Text) : Except FileError Place := do
  if path.isEmpty then .error .notFound
  else if Text.byteSize path > longestPath then .error .nameTooLong
  else
    let start := if path.head? == some '/' then .above else .inside []
    let place ← resolve tree start (Path.steps path)
    if path.getLast? == some '/' && (tree.content? place).isSome then .error .notDirectory
    else .ok place

def read (tree : FileTree) (path : Text) : Except FileError (List UInt8) := do
  match tree.content? (← tree.locate path) with
  | some bytes => .ok bytes
  | none => .error .isDirectory

def list (tree : FileTree) (path : Text) : Except FileError (List Text) := do
  let place ← tree.locate path
  if (tree.content? place).isSome then .error .notDirectory
  else
    match place with
    | .inside parts =>
      let inside := (tree.map fun (p, _) => Path.parts p).filter parts.isPrefixOf
      .ok (inside.filterMap fun ps => ps[parts.length]?).eraseDups
    | .above => .ok []

def files (tree : FileTree) : Files Id := ⟨fun path => tree.read path, fun path => tree.list path⟩

end FileTree

end HtmlTemplate.Command
