import Fleet.CommandLine.Request
import Fleet.Improvement
import Fleet.Problem.Format
import Fleet.Surroundings

/-! Carrying out what the arguments of the program ask for. -/

namespace Fleet.CommandLine

open Json

inductive Outcome where
  | success (output : String)
  | failure (message : String)
  | usage
  | help
  | crash (fault : Fault)

def Outcome.ofFault : Fault → Outcome
  | .refused why => .failure why.message
  | fault => .crash fault

variable {m : Type → Type} [Monad m] [Surroundings m]

/-- Computations that may end the program. -/
abbrev Run (m : Type → Type) := ExceptT Outcome m

/-- A result, or the end of the program. -/
def orEnd {α : Type} : Except Fault α → Run m α
  | .ok a => pure a
  | .error fault => throw (.ofFault fault)

def orFail {α : Type} (result : Except Refusal α) : Run m α := orEnd (result.mapError Fault.refused)

/-- Reads what an argument stands for. When the text is refused, the message says what it was to be. -/
def read {α : Type} (what argument : String) (parse : String → Except Refusal α) : Run m α := do
  let text ← orFail (← (Argument.read argument : m _))
  match parse text with
  | .ok a => return a
  | .error why => throw (.failure s!"Failed to parse {what}: {why.message}")

def readProblem (argument : String) : Run m Problem := read "problem" argument Problem.parse

def readPlan (argument : String) : Run m Plan := read "solution" argument Plan.parse

/-- Reads the overrides of an option; none are given without it. -/
def readOverrides (argument : Option String) : Run m Overrides := do
  let overrides ← orFail (← (Argument.overrides argument : m _))
  return overrides.getD []

/-- Writes data to a file, or, without one, as a line of output. -/
def writeOutput (value : Value) (output : Option String) : Run m String := do
  match output with
  | none => return value.canonical ++ "\n"
  | some path =>
    match ← (Surroundings.writeFile path value.canonical : m _) with
    | .ok () => return ""
    | .error reason => throw (.failure (Refusal.unwritable reason).message)

def listsToValue (lists : Array (List Nat)) : Value :=
  .array (lists.toList.map fun list => .array (list.map fun l => .ofUInt64 (UInt64.ofNat l)))

def reportToValue (report : Descent.Report) : Value :=
  .object [
    ("passes", .ofUInt64 (UInt64.ofNat report.passes)),
    ("moves", .ofUInt64 (UInt64.ofNat report.moves)),
    ("initial_cost", .ofInt64 (Int64.ofInt report.initialCost)),
    ("final_cost", .ofInt64 (Int64.ofInt report.finalCost))]

def Request.carryOut : Request → Run m String
  | .neighbours problem params output => do
    let p ← readProblem problem
    let params ← orFail (NeighbourhoodParameters.ofOverrides (← readOverrides params))
    let lists ← orEnd (Neighbourhood.lists p params)
    writeOutput (listsToValue lists) output
  | .improve problem plan neighbourhood search output => do
    let p ← readProblem problem
    let plan ← readPlan plan
    let neighbourhood ← orFail (NeighbourhoodParameters.ofOverrides (← readOverrides neighbourhood))
    let search ← orFail (SearchParameters.ofOverrides (← readOverrides search))
    let improvement ← orEnd (Improvement.ofPlan p plan neighbourhood search)
    writeOutput (.object [("solution", improvement.plan.toValue), ("stats", reportToValue improvement.report)])
      output
  | .check problem plan => do
    let p ← readProblem problem
    let plan ← readPlan plan
    orFail ((plan.check p).mapError Refusal.plan)
    return "Solution is valid\n"
  | .help => throw .help

def run (arguments : List String) : m Outcome := do
  match Request.parse arguments with
  | .error .usage => return .usage
  | .error .help => return .help
  | .ok request =>
    match ← ExceptT.run (request.carryOut : Run m String) with
    | .ok output => return .success output
    | .error outcome => return outcome

end Fleet.CommandLine
