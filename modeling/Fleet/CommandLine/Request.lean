/-! What the arguments of the program ask for.

    The first argument names a task. Behind it stand texts in a fixed order and, anywhere between them, options
    with two dashes. An option takes its value from behind an equals sign or from the next argument, unless that
    begins with a dash; without a value it counts as not given. Two dashes alone end the options. -/

namespace Fleet.CommandLine

/-- A task with its texts and options. -/
inductive Request where
  | neighbours (problem : String) (params output : Option String)
  | improve (problem plan : String) (neighbourhood search output : Option String)
  | check (problem plan : String)
  | help
  deriving DecidableEq

structure Task where
  name : String
  texts : Nat
  options : List String

def neighboursTask : Task := ⟨"compute_neighbours", 1, ["params", "output"]⟩

def improveTask : Task := ⟨"improve", 2, ["neighbourhood", "search", "output"]⟩

def checkTask : Task := ⟨"verify_solution", 2, []⟩

def tasks : List Task := [neighboursTask, improveTask, checkTask]

/-- What was read of the arguments of a task. -/
structure Progress where
  texts : List String := []
  /-- The options that occurred, with their values. -/
  options : List (String × Option String) := []
  /-- The option that the next argument may give a value to. -/
  waiting : Option String := none

/-- How reading the arguments ends before its time. -/
inductive Stop where
  | help
  | usage
  deriving DecidableEq

namespace Progress

/-- Takes an option with its value. An option may occur once, and the name of an output file is not empty. -/
def take (name : String) (value : Option String) (progress : Progress) : Except Stop Progress :=
  if (progress.options.lookup name).isSome then .error .usage
  else if name = "output" ∧ value = some "" then .error .usage
  else .ok { progress with options := progress.options ++ [(name, value)], waiting := none }

/-- Leaves the option that waits for a value without one. -/
def settle (progress : Progress) : Except Stop Progress :=
  match progress.waiting with
  | none => .ok progress
  | some name => progress.take name none

/-- Takes a text, of which there must not be too many. -/
def takeText (task : Task) (text : String) (progress : Progress) : Except Stop Progress :=
  if progress.texts.length < task.texts then .ok { progress with texts := progress.texts ++ [text] }
  else .error .usage

/-- Takes an argument that begins with two dashes, given without them. -/
def takeLong (task : Task) (argument : String) (progress : Progress) : Except Stop Progress := do
  let progress ← progress.settle
  match argument.splitOn "=" with
  | [name] =>
    if name = "help" then throw .help
    else if name ∈ task.options then return { progress with waiting := some name }
    else throw .usage
  | name :: value =>
    if name ∈ task.options then progress.take name (some (String.intercalate "=" value)) else throw .usage
  | [] => throw .usage

/-- Takes an argument that begins with one dash, given without it. -/
def takeShort (argument : String) (progress : Progress) : Except Stop Progress := do
  let _ ← progress.settle
  throw (if argument.startsWith "h" then .help else .usage)

end Progress

/-- Reads the arguments behind two dashes. -/
def readTexts (task : Task) : List String → Progress → Except Stop Progress
  | [], progress => .ok progress
  | argument :: arguments, progress => do
    let progress ← progress.takeText task argument
    readTexts task arguments progress

def readArguments (task : Task) : List String → Progress → Except Stop Progress
  | [], progress => progress.settle
  | argument :: arguments, progress =>
    if argument = "--" then do
      let progress ← progress.settle
      readTexts task arguments progress
    else if argument.startsWith "--" then do
      let progress ← progress.takeLong task (argument.drop 2).toString
      readArguments task arguments progress
    else if argument.startsWith "-" && argument ≠ "-" then do
      let progress ← progress.takeShort (argument.drop 1).toString
      readArguments task arguments progress
    else do
      let progress ← match progress.waiting with
        | some name => progress.take name (some argument)
        | none => progress.takeText task argument
      readArguments task arguments progress

def Progress.option? (progress : Progress) (name : String) : Option String :=
  (progress.options.lookup name).join

def Task.request (task : Task) (progress : Progress) : Except Stop Request :=
  match task.name, progress.texts with
  | "compute_neighbours", [problem] =>
    .ok (.neighbours problem (progress.option? "params") (progress.option? "output"))
  | "improve", [problem, plan] =>
    .ok (.improve problem plan (progress.option? "neighbourhood") (progress.option? "search")
      (progress.option? "output"))
  | "verify_solution", [problem, plan] => .ok (.check problem plan)
  | _, _ => .error .usage

def Request.parse (arguments : List String) : Except Stop Request :=
  match arguments with
  | [] => .error .usage
  | ["help"] => .error .help
  | ["help", name] => if name = "help" ∨ name ∈ tasks.map Task.name then .error .help else .error .usage
  | name :: arguments =>
    if name = "--help" ∨ name.startsWith "-h" then .error .help
    else
      match tasks.find? fun task => task.name = name with
      | none => .error .usage
      | some task => do
        let progress ← readArguments task arguments {}
        task.request progress

end Fleet.CommandLine
