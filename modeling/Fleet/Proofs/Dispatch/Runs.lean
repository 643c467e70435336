import Fleet.Proofs.Descent.Run
import Fleet.Proofs.Dispatch.Loading

/-! Clean runs: a host that only uses handles it has, and reconciles the two routes of every move at once.

    Routes, nodes and positions are otherwise arbitrary; they may have been released or be out of range. A
    request that is refused counts as a step too. A run ends where a limit of the machine is met. -/

namespace Fleet
namespace Dispatch

open DispatchM

/-- What a host can ask for in a clean run. -/
inductive Request where
  | addRoute (vehicleType : UInt64) (idx : Nat)
  | shareRoute (route : RouteId)
  | releaseRoute (route : RouteId)
  | addNode (location : UInt64)
  | addRouteNode (route : RouteId) (location : UInt64)
  | shareNode (node : NodeId)
  | nodeAt (route : RouteId) (position : Nat)
  | releaseNode (node : NodeId)
  | append (route : RouteId) (node : NodeId)
  | insert (route : RouteId) (position : Nat) (node : NodeId)
  | remove (route : RouteId) (position : Nat)
  | reconcile (a b : RouteId)
  | load (plan : Plan)
  /-- A search with any moves and penalties, in any orders. -/
  | search {σ : Type} (descent : Descent) (shuffle : List NodeId → σ → List NodeId × σ) (s : σ)
  /-- A move, after which its two routes are reconciled. -/
  | move (rule : Move) (u v : NodeId)

namespace Request

/-- The handles that are given up or lent are there, and a search has the neighbours of the problem. -/
def Permitted (p : Problem) (h : Handles) : Request → Prop
  | .shareRoute route | .releaseRoute route | .addRouteNode route _ => route ∈ h.routes
  | .shareNode node | .releaseNode node => node ∈ h.nodes
  | .search descent _ _ => ∃ params, Neighbourhood.lists p params = .ok descent.neighbours
  | _ => True

/-- Does what is asked for; gives the handles that the host has afterwards. -/
def carryOut (p : Problem) (h : Handles) : Request → DispatchM Handles
  | .addRoute vehicleType idx => do
    let route ← Dispatch.addRoute p vehicleType idx
    return h.withRoute route
  | .shareRoute route => do
    let route ← Dispatch.shareRoute route
    return h.withRoute route
  | .releaseRoute route => do
    Dispatch.releaseRoute route
    return h.withoutRoute route
  | .addNode location => do
    let node ← Dispatch.addNode p location
    return h.withNode node
  | .addRouteNode route location => do
    let node ← Dispatch.addRouteNode p route location
    return h.withNode node
  | .shareNode node => do
    let node ← Dispatch.shareNode node
    return h.withNode node
  | .nodeAt route position => do
    let node ← Dispatch.nodeAt route position
    return h.withNode node
  | .releaseNode node => do
    Dispatch.releaseNode node
    return h.withoutNode node
  | .append route node => do
    Dispatch.append p route node
    return h
  | .insert route position node => do
    Dispatch.insert p route position node
    return h
  | .remove route position => do
    let node ← Dispatch.remove p route position
    return h.withNode node
  | .reconcile a b => do
    let _ ← Dispatch.reconcile a b
    return h
  | .load plan => do
    let routes ← Dispatch.load p plan
    return h.withRoutes routes
  | .search descent shuffle s => do
    let _ ← descent.run p shuffle s
    return h
  | .move rule u v => do
    let (a, b) ← onLayout (rule.perform p u v)
    let _ ← Dispatch.reconcile a b
    return h

/-- All slots are taken that a request asks for to make something new. -/
def Fills (fault : Fault) (l : Layout) : Request → Prop
  | .addNode .. | .addRouteNode .. => l.nodes.FullAt fault
  | .addRoute .. | .load .. => l.nodes.FullAt fault ∨ l.routes.FullAt fault
  | _ => False

theorem Fills.isLimit {fault : Fault} {l : Layout} {request : Request} (h : request.Fills fault l) : fault.IsLimit := by
  cases request with
  | addNode | addRouteNode => exact Layout.FullAt.isLimit h
  | addRoute | load => exact h.elim Layout.FullAt.isLimit Layout.FullAt.isLimit
  | _ => exact h.elim

end Request

theorem Stops.fills {cause : Layout → Prop} {fault : Fault} {d : Dispatch} (h : Stops cause fault d) :
    fault = .overflow ∨ d.layout.nodes.FullAt fault ∨ d.layout.routes.FullAt fault := by
  rcases h with ⟨hover, -⟩ | hfull | hfull
  · exact .inl hover
  · exact .inr (.inl hfull)
  · exact .inr (.inr hfull)

/-- What a clean run leads to: the handles that the host has, and the dispatch. -/
inductive Reachable (p : Problem) : Handles → Dispatch → Prop
  | empty : Reachable p {} Dispatch.empty
  | done {h h' : Handles} {d d' : Dispatch} (request : Request) (reached : Reachable p h d)
      (permitted : request.Permitted p h) (hrun : request.carryOut p h d = .ok h' d') : Reachable p h' d'
  | failed {h : Handles} {d d' : Dispatch} {fault : Fault} (request : Request) (reached : Reachable p h d)
      (permitted : request.Permitted p h) (hrun : request.carryOut p h d = .error fault d') (hfault : ¬fault.IsLimit) :
      Reachable p h d'

variable {p : Problem} {h h' : Handles} {d d' : Dispatch}

/-! ### Everything is in order all the time -/

theorem coherent_empty (p : Problem) : Coherent p {} Dispatch.empty where
  seated := Layout.seated_empty
  sited := Layout.sited_empty
  current := Layout.current_empty
  entered := {
    store := fun _ => rfl
    nodup := fun hs => by cases hs
    owned := fun hs => by cases hs
    owner := fun hm => by cases hm
    host := fun m => by
      show false = true ↔ none = _
      simp
    live := fun m => by
      refine iff_of_false Bool.false_ne_true ?_
      rintro (hm | ⟨id, r, hr, -⟩)
      · cases hm
      · cases hr
    depot := fun _ => rfl }
  reconciled hr := by cases hr
  counted := {
    handle := fun hk => by cases hk
    counted := fun hs => by cases hs }
  kept hm := by cases hm
  held := ⟨fun _ => rfl, fun _ => rfl⟩
  busy hs := by cases hs

theorem move_answers (hd : Coherent p h d) (move : Move) (u v : NodeId) :
    Answers d (fun h' d' => Coherent p h' d') ((Request.move move u v).carryOut p h d) := by
  simp only [Request.carryOut]
  by_cases hm : Move.Applies move d.layout u v
  · obtain ⟨a, ra, i, b, rb, j, hm⟩ := hm
    refine .of_fares ((perform_moved hd hm).bind fun routes d₁ ⟨hroutes, hmoved⟩ => ?_)
    subst hroutes
    obtain ⟨n, d', hrun, hd', -⟩ := hmoved.reconcile_run hd.sited hm.ne
    simp only
    rw [bind_ok hrun]
    exact .ok hd'
  · rcases Move.perform_of_not_applies hd.seated hm with hrefused | ⟨-, hover⟩
    · rw [bind_error (onLayout_error hrefused)]
      exact .refused
    · rw [bind_error (onLayout_error hover)]
      exact .overflow

/-- A request that is permitted is done and leaves everything in order, or it is refused and nothing changes, or a
    quantity overflows, or all slots that it asks for are taken. -/
theorem carryOut_replies (hd : Coherent p h d) {request : Request} (hpermitted : request.Permitted p h) :
    Replies d (fun fault d' => fault = .overflow ∨ request.Fills fault d'.layout) (fun h' d' => Coherent p h' d')
      (request.carryOut p h d) := by
  have hanswers : ∀ {α : Type} {post : α → Dispatch → Prop} {r : EStateM.Result Fault Dispatch α}, Answers d post r →
      Replies d (fun fault d' => fault = .overflow ∨ request.Fills fault d'.layout) post r :=
    fun hr => .of_answers hr fun _ => .inl rfl
  cases request with
  | addRoute vehicleType idx =>
    exact ((addRoute_replies hd vehicleType idx).mono (fun _ _ => Stops.fills) fun _ _ hd' => hd').returning
      fun _ _ hd' => hd'
  | shareRoute route =>
    obtain ⟨d', hrun, hd'⟩ := shareRoute_run hd hpermitted
    exact (Replies.of_ok hrun hd').returning fun id d' (hd' : Coherent p (h.withRoute id) d') => hd'
  | releaseRoute route =>
    obtain ⟨d', -, hrun, hd', -⟩ := releaseRoute_run hd hpermitted
    exact (Replies.of_ok hrun hd').returning fun _ d' (hd' : Coherent p (h.withoutRoute route) d') => hd'
  | addNode location =>
    refine Replies.returning ((addNode_replies hd location).mono ?_ fun _ _ hd' => hd') fun _ _ hd' => hd'
    exact fun _ _ => .inr
  | addRouteNode route location => exact (addRouteNode_replies hd route location).returning fun _ _ hd' => hd'
  | shareNode node =>
    obtain ⟨d', hrun, hd', -⟩ := shareNode_coherent (hd.mono (fun _ hx => hx) (List.nil_subset _))
      (hd.counted.live (hd.pos_of_held hpermitted))
    exact (Replies.of_ok hrun hd').returning fun m d' (hd' : Coherent p (h.withNode m) d') => hd'
  | nodeAt route position => exact (hanswers (nodeAt_answers hd route position)).returning fun _ _ hd' => hd'.1
  | releaseNode node =>
    obtain ⟨d', hrun, hd', -⟩ := releaseNode_coherent hd hpermitted
    exact (Replies.of_ok hrun hd').returning fun _ d' (hd' : Coherent p (h.withoutNode node) d') => hd'
  | append route node => exact (hanswers (put_answers hd route .last node)).returning fun _ _ hd' => hd'
  | insert route position node =>
    exact (hanswers (put_answers hd route (.position position) node)).returning fun _ _ hd' => hd'
  | remove route position => exact (hanswers (remove_answers hd route position)).returning fun _ _ hd' => hd'
  | reconcile a b => exact (hanswers (reconcile_answers hd a b)).returning fun _ _ hd' => hd'
  | load plan =>
    exact ((load_replies hd plan).mono (fun _ _ => Stops.fills) fun _ _ hd' => hd').returning fun _ _ hd' => hd'
  | search descent shuffle s =>
    obtain ⟨params, hlists⟩ := hpermitted
    obtain ⟨lists, hlists', hwithin⟩ := Neighbourhood.lists_succeed p params
    rw [hlists] at hlists'
    cases hlists'
    exact (hanswers (.of_fares (Descent.run_fares hwithin shuffle s hd))).returning fun _ _ hd' => hd'.1
  | move move u v => exact hanswers (move_answers hd move u v)

/-- What fails otherwise than at a limit of the machine has changed nothing. -/
theorem carryOut_traceless (hd : Coherent p h d) {request : Request} (hpermitted : request.Permitted p h) {fault : Fault}
    (hrun : request.carryOut p h d = .error fault d') (hfault : ¬fault.IsLimit) : d' = d := by
  have hreplies := carryOut_replies hd hpermitted
  rw [hrun] at hreplies
  cases hreplies with
  | fault hlimit =>
    rcases hlimit with rfl | hfills
    · exact absurd .overflow hfault
    · exact absurd hfills.isLimit hfault
  | refused => rfl

theorem Reachable.coherent (hr : Reachable p h d) : Coherent p h d := by
  induction hr with
  | empty => exact coherent_empty p
  | done request _ permitted hrun ih =>
    have h := carryOut_replies ih permitted
    rw [hrun] at h
    cases h with
    | ok h => exact h
  | failed request _ permitted hrun hfault ih =>
    rw [carryOut_traceless ih permitted hrun hfault]
    exact ih

/-! ### A run

    Two routes with a client each, and a handle to the first of the two clients. -/

namespace Sample

def result? {α : Type} : EStateM.Result Fault Dispatch α → Option α
  | .ok a _ => some a
  | .error _ _ => none

def after {α : Type} : EStateM.Result Fault Dispatch α → Dispatch
  | .ok _ d => d
  | .error _ d => d

theorem eq_ok {α : Type} {r : EStateM.Result Fault Dispatch α} {a : α} (h : result? r = some a) : r = .ok a (after r) := by
  cases r with
  | ok b d =>
    cases h
    rfl
  | error fault d => cases h

theorem eq_ok_of_toOption {α ε : Type} {r : Except ε α} {a : α} (h : r.toOption = some a) : r = .ok a := by
  cases r with
  | ok b =>
    cases h
    rfl
  | error fault => cases h

def ways : Matrix := ⟨#[#[0, 10, 12], #[10, 0, 3], #[12, 3, 0]], by decide⟩

def problem : Problem where
  depots := #[{ x := 0, y := 0 }]
  clients := #[{ x := 10, y := 0, delivery := 5 }, { x := 12, y := 0, delivery := 5 }]
  vehicleTypes := #[{ numAvailable := 2, capacity := 8 }]
  distances := #[ways]
  durations := #[ways]
  groups := #[]
  flawless := by decide +kernel

def plan : Plan := ⟨[{ visits := [1] }, { visits := [2] }]⟩

def loaded : Dispatch := after (load problem plan Dispatch.empty)

def dispatch : Dispatch := after (nodeAt ⟨⟨0, 0⟩⟩ 1 loaded)

def handles : Handles where
  routes := [⟨⟨0, 0⟩⟩, ⟨⟨1, 0⟩⟩]
  nodes := [⟨⟨2, 0⟩⟩]

theorem reachable : Reachable problem handles dispatch := by
  have hload : load problem plan Dispatch.empty = .ok [⟨⟨0, 0⟩⟩, ⟨⟨1, 0⟩⟩] loaded := eq_ok (by decide +kernel)
  have hnode : nodeAt ⟨⟨0, 0⟩⟩ 1 loaded = .ok ⟨⟨2, 0⟩⟩ dispatch := eq_ok (by decide +kernel)
  have h₁ : Reachable problem { routes := [⟨⟨0, 0⟩⟩, ⟨⟨1, 0⟩⟩] } loaded :=
    .done (.load plan) .empty trivial (bind_ok hload)
  exact .done (.nodeAt ⟨⟨0, 0⟩⟩ 1) h₁ trivial (bind_ok hnode)

/-- The first route has lost its own handle, and only the one to its client keeps it alive. -/
def lent : Dispatch := after (releaseRoute ⟨⟨0, 0⟩⟩ dispatch)

theorem releaseRoute_run : releaseRoute ⟨⟨0, 0⟩⟩ dispatch = .ok () lent := eq_ok (by decide +kernel)

theorem reachable_lent : Reachable problem (handles.withoutRoute ⟨⟨0, 0⟩⟩) lent :=
  .done (.releaseRoute ⟨⟨0, 0⟩⟩) reachable List.mem_cons_self (bind_ok releaseRoute_run)

end Sample

end Dispatch
end Fleet
