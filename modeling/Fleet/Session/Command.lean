import Fleet.Improvement
import Fleet.MoveRequest
import Fleet.Session.Basic

/-! What a host can ask for, and the answers it gets. -/

namespace Fleet

/-- A command. Routes are named by the numbers of their handles. -/
inductive Command where
  | addRoute (vehicleType : UInt64) (idx : Nat)
  | shareRoute (route : Nat)
  | releaseRoute (route : Nat)
  | addNode (location : UInt64)
  | addRouteNode (route : Nat) (location : UInt64)
  | shareNode (node : Nat)
  | releaseNode (node : Nat)
  | nodeAt (route position : Nat)
  | append (route : Nat) (node : NodeRef)
  | insert (route position : Nat) (node : NodeRef)
  | remove (route position : Nat)
  | reconcile (a b : Nat)
  | load (plan : Plan)
  /-- Makes a move and leaves the books alone. -/
  | move (request : MoveRequest) (u v : NodeRef)
  /-- The raw commands change the visits of a route and leave the books alone. -/
  | rawAppend (route : Nat) (node : NodeRef)
  | rawInsert (route position : Nat) (node : NodeRef)
  | rawRemove (route position : Nat)
  | rawClear (route : Nat)
  | rawRefresh (route : Nat)
  | search (neighbourhood : NeighbourhoodParameters) (search : SearchParameters)
      (moves : Option (List MoveRequest)) (runs : Nat)
  | owner (node : NodeRef)
  | holder (node : NodeRef)
  | owned (route : Nat)
  | scan (route : Nat)
  | route (route : Nat)
  | isReconciled (route : Nat)
  | isConsistent
  | plan (routes : List Nat)
  | costs (penalties : Penalties)
  | costChange (penalties : Penalties) (request : MoveRequest) (u v : NodeRef)
  | costChanges (penalties : Penalties) (request : MoveRequest)

def Command.isQuery : Command → Bool
  | .owner _ | .holder _ | .owned _ | .scan _ | .route _ | .isReconciled _ | .isConsistent | .plan _ | .costs _
  | .costChange _ _ _ _ | .costChanges _ _ => true
  | _ => false

inductive Answer where
  | done
  | routeHandle (number : Nat) (id : RouteId)
  | nodeHandle (number : Nat) (id : NodeId)
  | routeHandles (handles : List (Nat × RouteId))
  | node (id : NodeId)
  | count (n : Nat)
  | routes (u v : RouteId)
  | reports (reports : List Descent.Report)
  | owner (owner : Option Owner)
  | holder (route : Option RouteId)
  | nodes (nodes : List NodeId)
  | route (id : RouteId) (r : Route)
  | truth (b : Bool)
  | plan (plan : Plan)
  | costs (costs : List (RouteId × Int))
  | costChange (change : Int)
  | costChanges (name : String) (table : List (List (Except Fault Int)))

namespace Session

open Dispatch

def answerRoute (id : RouteId) : SessionM Answer := do
  let number ← keepRoute id
  return .routeHandle number id

def answerNode (id : NodeId) : SessionM Answer := do
  let number ← keepNode id
  return .nodeHandle number id

/-- New handles to routes, in order. -/
def keepRoutes : List RouteId → SessionM (List (Nat × RouteId))
  | [] => return []
  | id :: ids => do
    let number ← keepRoute id
    let handles ← keepRoutes ids
    return (number, id) :: handles

/-- A change of the visits of a route that has not been released. -/
def raw {α : Type} (id : RouteId) (m : LayoutM α) : SessionM α := do
  if ((← get).dispatch.layout.route? id).isNone then throw .noRoute
  onDispatch (DispatchM.onLayout m)

def moveOf (request : MoveRequest) : SessionM Move :=
  match request.make with
  | .ok move => return move
  | .error what => throw (.fault (.broken what))

/-- Runs a search several times, each time going on with its shuffles. -/
def runs (p : Problem) (descent : Descent) : Nat → Generator → SessionM (List Descent.Report)
  | 0, _ => return []
  | n + 1, g => do
    let (report, g) ← onDispatch (descent.run p Generator.shuffle g)
    let reports ← runs p descent n g
    return report :: reports

/-- The routes of those handles that the host still has. -/
def liveRoutes : List Nat → SessionM (List RouteId)
  | [] => return []
  | number :: numbers => do
    match (← get).routeHandles[number]? with
    | some (id, live) => do
      let ids ← liveRoutes numbers
      return if live then id :: ids else ids
    | none => throw .unknownNumber

/-- All nodes of all routes, depots included, in the order of the routes' slots. -/
def allVisits (l : Layout) : List NodeId := l.routeList.flatMap fun (_, r) => r.visits

def carryOut (p : Problem) : Command → SessionM Answer
  | .addRoute vehicleType idx => do
    answerRoute (← onDispatch (addRoute p vehicleType idx))
  | .shareRoute route => do
    let id ← liveRoute route
    answerRoute (← onDispatch (shareRoute id))
  | .releaseRoute route => do
    let id ← liveRoute route
    giveUpRoute route
    onDispatch (releaseRoute id)
    return .done
  | .addNode location => do
    answerNode (← onDispatch (addNode p location))
  | .addRouteNode route location => do
    let id ← liveRoute route
    answerNode (← onDispatch (addRouteNode p id location))
  | .shareNode node => do
    let id ← liveNode node
    answerNode (← onDispatch (shareNode id))
  | .releaseNode node => do
    let id ← liveNode node
    giveUpNode node
    onDispatch (releaseNode id)
    return .done
  | .nodeAt route position => do
    let id ← routeOf route
    answerNode (← onDispatch (nodeAt id position))
  | .append route node => do
    let id ← routeOf route
    let node ← nodeOf node
    onDispatch (append p id node)
    return .done
  | .insert route position node => do
    let id ← routeOf route
    let node ← nodeOf node
    onDispatch (insert p id position node)
    return .done
  | .remove route position => do
    let id ← routeOf route
    answerNode (← onDispatch (remove p id position))
  | .reconcile a b => do
    let a ← routeOf a
    let b ← routeOf b
    return .count (← onDispatch (reconcile a b))
  | .load plan => do
    let ids ← onDispatch (load p plan)
    return .routeHandles (← keepRoutes ids)
  | .move request u v => do
    let move ← moveOf request
    let u ← nodeOf u
    let v ← nodeOf v
    let (a, b) ← onDispatch (DispatchM.onLayout (move.perform p u v))
    return .routes a b
  | .rawAppend route node => do
    let id ← routeOf route
    let node ← nodeOf node
    raw id (Layout.append id node)
    return .done
  | .rawInsert route position node => do
    let id ← routeOf route
    let node ← nodeOf node
    raw id (Layout.insertAt id position node)
    return .done
  | .rawRemove route position => do
    let id ← routeOf route
    return .node (← raw id (Layout.removeAt id position))
  | .rawClear route => do
    let id ← routeOf route
    raw id (Layout.clear id)
    return .done
  | .rawRefresh route => do
    let id ← routeOf route
    raw id (Layout.refresh p id)
    return .done
  | .search neighbourhood search moves n => do
    let descent ← ofResult (Descent.ofParameters p neighbourhood search)
    match MoveRequest.makeAll moves with
    | .error what => throw (.fault (.broken what))
    | .ok moves => return .reports (← runs p { descent with moves } n (Generator.ofSeed search.seed))
  | .owner node => do
    let node ← nodeOf node
    return .owner ((← get).dispatch.owner? node)
  | .holder node => do
    let node ← nodeOf node
    return .holder ((← get).dispatch.holder? node)
  | .owned route => do
    let id ← routeOf route
    return .nodes (← ofResult ((← get).dispatch.owned id))
  | .scan route => do
    let id ← routeOf route
    return .nodes (← ofResult ((← get).dispatch.scan id))
  | .route route => do
    let id ← routeOf route
    return .route id (← ofResult ((← get).dispatch.route id))
  | .isReconciled route => do
    let id ← routeOf route
    return .truth (← ofResult ((← get).dispatch.isReconciled id))
  | .isConsistent => return .truth (← get).dispatch.isConsistent
  | .plan routes => do
    let ids ← liveRoutes routes
    return .plan (← ofResult ((← get).dispatch.plan ids))
  | .costs penalties => do
    return .costs (← ofResult (Descent.costs p penalties (← get).dispatch.layout))
  | .costChange penalties request u v => do
    let move ← moveOf request
    let u ← nodeOf u
    let v ← nodeOf v
    return .costChange (← ofResult (move.costChange p penalties (← get).dispatch.layout u v))
  | .costChanges penalties request => do
    let move ← moveOf request
    let l := (← get).dispatch.layout
    let nodes := allVisits l
    return .costChanges move.name (nodes.map fun u => nodes.map fun v => move.costChange p penalties l u v)

end Session

end Fleet
