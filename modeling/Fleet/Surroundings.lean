import Fleet.Fault
import Fleet.Parameters

/-! What a program reads from and writes to: its standard input, and files by their paths. -/

namespace Fleet

/-- A place with a standard input and files. A file that cannot be used gives the reason. -/
class Surroundings (m : Type → Type) where
  readInput : m String
  readFile : String → m (Except String String)
  writeFile : String → String → m (Except String Unit)

/-! ### A desk: one directory, held in memory

    There are no directories on the desk. What lies outside of it is not known, but a path may lead there. -/

structure Desk where
  /-- What is left of the standard input. -/
  input : String := ""
  files : List (String × String) := []
  /-- The files that were written. -/
  written : List (String × String) := []

namespace Desk

/-- Why a file cannot be used that is not there. -/
def missing : String := "No such file or directory (os error 2)"

/-- Why a directory cannot be used as a file. -/
def directory : String := "Is a directory (os error 21)"

/-- Why a file cannot be used as a directory. -/
def notDirectory : String := "Not a directory (os error 20)"

/-- Why a name of more than 255 bytes, or a path of more than 4095, cannot be used. -/
def tooLong : String := "File name too long (os error 36)"

/-- Why a path with a null character cannot be used. -/
def nullCharacter : String := "file name contained an unexpected NUL byte"

/-- Where a path leads. -/
inductive Place where
  | file (name : String)
  /-- A file outside of the desk. -/
  | elsewhere

/-- Why a path leads no further behind a name. -/
def beyond (desk : Desk) (outside : Bool) (name : String) : String :=
  if !outside && (desk.files.lookup name).isSome then notDirectory else missing

/-- Follows the steps of a path from the desk or from outside of it; `slash` tells that the path ends in one. A
    dot stays, two dots lead to the directory above, and any other step but the last would need a directory of
    that name. -/
def follow (desk : Desk) (slash : Bool) : Bool → List String → Except String Place
  | _, [] => .error directory
  | outside, step :: steps =>
    if step = "." then follow desk slash outside steps
    else if step = ".." then follow desk slash true steps
    else if 255 < step.utf8ByteSize then .error tooLong
    else if !steps.isEmpty then .error (desk.beyond outside step)
    else if slash then .error directory
    else .ok (if outside then .elsewhere else .file step)

/-- Where a path leads, or why it leads nowhere. -/
def locate (desk : Desk) (path : String) : Except String Place :=
  if '\x00' ∈ path.toList then .error nullCharacter
  else if path.isEmpty then .error missing
  else if 4095 < path.utf8ByteSize then .error tooLong
  else if path = "/dev/null" then .ok .elsewhere
  else desk.follow (path.endsWith "/") (path.startsWith "/") ((path.splitOn "/").filter (· ≠ ""))

def put (name text : String) (files : List (String × String)) : List (String × String) :=
  (files.filter fun file => file.1 ≠ name) ++ [(name, text)]

/-- The text of a file. Outside of the desk nothing is found. -/
def read (desk : Desk) (path : String) : Except String String :=
  match desk.locate path with
  | .error reason => .error reason
  | .ok .elsewhere => .error missing
  | .ok (.file name) =>
    match desk.files.lookup name with
    | some text => .ok text
    | none => .error missing

/-- The desk with a file written, or why it cannot be. What is written outside of the desk leaves it as it is. -/
def write (desk : Desk) (path text : String) : Except String Desk :=
  match desk.locate path with
  | .error reason => .error reason
  | .ok .elsewhere => .ok desk
  | .ok (.file name) =>
    .ok { desk with files := put name text desk.files, written := put name text desk.written }

end Desk

/-- Standard input is read once to its end; after that there is nothing left. -/
instance : Surroundings (StateM Desk) where
  readInput := modifyGet fun desk => (desk.input, { desk with input := "" })
  readFile path := return (← get).read path
  writeFile path text := do
    match (← get).write path text with
    | .ok desk => do
      set desk
      return .ok ()
    | .error reason => return .error reason

/-! ### Arguments -/

namespace Argument

variable {m : Type → Type} [Monad m] [Surroundings m]

/-- The text that an argument stands for: the standard input for a dash, a file for a name that ends in
    `.json`, and otherwise the argument itself. -/
def read (argument : String) : m (Except Refusal String) := do
  if argument = "-" then return .ok (← Surroundings.readInput)
  else if argument.endsWith ".json" then
    return (← Surroundings.readFile argument).mapError (Refusal.unreadable argument)
  else return .ok argument

/-- The overrides that an argument stands for, if it is given. -/
def overrides (argument : Option String) : m (Except Refusal (Option Overrides)) := do
  match argument with
  | none => return .ok none
  | some argument =>
    match ← read argument with
    | .ok text => return (Overrides.parse text).map some
    | .error why => return .error why

end Argument

end Fleet
