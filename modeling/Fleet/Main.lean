import Fleet.CommandLine.Run

/-! The program. -/

namespace Fleet

def systemReason (e : IO.Error) : String :=
  match e with
  | .noFileOrDirectory _ code details => s!"{details} (os error {code})"
  | .invalidArgument _ code details => s!"{details} (os error {code})"
  | .inappropriateType _ code details => s!"{details} (os error {code})"
  | .permissionDenied _ code details => s!"{details} (os error {code})"
  | e => toString e

/-- Standard input and the files of the system. -/
instance : Surroundings IO where
  readInput := do (← IO.getStdin).readToEnd
  readFile path := do
    try
      return .ok (← IO.FS.readFile path)
    catch e => return .error (systemReason e)
  writeFile path text := do
    try
      IO.FS.writeFile path text
      return .ok ()
    catch e => return .error (systemReason e)

end Fleet

open Fleet

/-- Runs the program and turns its outcome into output and an exit code. -/
def main (arguments : List String) : IO UInt32 := do
  match ← (CommandLine.run arguments : IO CommandLine.Outcome) with
  | .success output => do
    IO.print output
    return 0
  | .failure message => do
    IO.eprintln ("Error: " ++ message)
    return 1
  | .usage => do
    IO.eprintln "Tasks: compute_neighbours, improve, verify_solution"
    return 2
  | .help => do
    IO.println "Tasks: compute_neighbours, improve, verify_solution"
    return 0
  | .crash _ => return 101
