import Fleet.Descent
import Fleet.Shuffle

/-! Improving a plan: its routes are made, the search runs, and what the routes visit then is the new plan. -/

namespace Fleet

structure Improvement where
  plan : Plan
  report : Descent.Report

namespace Improvement

open DispatchM

def releaseRoutes : List RouteId → DispatchM Unit
  | [] => pure ()
  | route :: routes => do
    Dispatch.releaseRoute route
    releaseRoutes routes

/-- Improves a plan, going through the clients in the orders that `shuffle` gives. -/
def improve {σ : Type} (p : Problem) (plan : Plan) (neighbourhood : NeighbourhoodParameters)
    (search : SearchParameters) (shuffle : List NodeId → σ → List NodeId × σ) (s : σ) :
    DispatchM Improvement := do
  let routes ← Dispatch.load p plan
  let descent ← ofResult (Descent.ofParameters p neighbourhood search)
  let (report, _) ← descent.run p shuffle s
  let improved ← ofResult ((← get).plan routes)
  releaseRoutes routes
  match improved.check p with
  | .ok () => return ⟨improved, report⟩
  | .error flaw => refuse (.plan flaw)

/-- Improves a plan with the shuffles of the seed in the parameters, starting from nothing. -/
def ofPlan (p : Problem) (plan : Plan) (neighbourhood : NeighbourhoodParameters) (search : SearchParameters) :
    Except Fault Improvement :=
  match improve p plan neighbourhood search Generator.shuffle (Generator.ofSeed search.seed) Dispatch.empty with
  | .ok improvement _ => .ok improvement
  | .error fault _ => .error fault

/-! ### Several runs of one search -/

structure Round where
  report : Descent.Report
  plan : Plan
  cost : Int
  valid : Bool

/-- Runs a search and looks at the routes. -/
def round (p : Problem) (descent : Descent) (routes : List RouteId) (g : Generator) :
    DispatchM (Round × Generator) := do
  let (report, g) ← descent.run p Generator.shuffle g
  let plan ← ofResult ((← get).plan routes)
  let cost ← ofResult (Descent.totalCost p descent.penalties (← get).layout)
  return (⟨report, plan, cost, (plan.check p).toOption.isSome⟩, g)

/-- Runs a search several times, each time going on with its shuffles; a fault ends the runs. -/
def rounds (p : Problem) (descent : Descent) (routes : List RouteId) :
    Nat → Generator → Dispatch → List (Except Fault Round)
  | 0, _, _ => []
  | runs + 1, g, d =>
    match round p descent routes g d with
    | .ok (round, g) d => .ok round :: rounds p descent routes runs g d
    | .error fault _ => [.error fault]

end Improvement

end Fleet
