import Fleet.Descent
import Fleet.Proofs.Frame.Layout

/-! What single operations on the books and the layout leave alone, whatever is asked for.

    Only making routes and nodes takes slots; no other operation does. None gives a route other depots or a node
    another location. That a count of handles suffices for what is
    taken from it needs the invariant: of operations that take from one, nothing is said about overflows. -/

namespace Fleet
namespace Dispatch

open DispatchM

/-! ### Slots of dispatches -/

/-- The same slots are taken, and the same keys come next; nodes keep their locations and routes their depots. -/
def SameSlots (d d' : Dispatch) : Prop := d.layout.SameSlots d'.layout

/-- In layouts in order slots may be taken, and nothing else happens to the slots; routes keep their depots. -/
def Grows (d d' : Dispatch) : Prop := d.layout.Grows d'.layout

/-- Some slots are vacated, and nothing else happens to the slots; what is left keeps its location or its depots. -/
structure Sheds (d d' : Dispatch) : Prop where
  nodes : Pool.Sheds d.layout.nodes d'.layout.nodes
  routes : Pool.Sheds d.layout.routes d'.layout.routes
  inherits : d.layout.Inherits d'.layout

instance : IsPreorder Dispatch SameSlots where
  refl d := refl d.layout
  trans _ _ _ h h' := IsTrans.trans _ _ _ (r := Layout.SameSlots) h h'

instance : IsPreorder Dispatch Grows where
  refl d := refl d.layout
  trans _ _ _ h h' := IsTrans.trans _ _ _ (r := Layout.Grows) h h'

instance : IsPreorder Dispatch Sheds where
  refl d := ⟨.refl d.layout.nodes, .refl d.layout.routes, .refl d.layout⟩
  trans _ _ _ h h' := ⟨h.nodes.trans h'.nodes, h.routes.trans h'.routes, h.inherits.trans h'.inherits⟩

theorem SameSlots.sheds {d d' : Dispatch} (h : SameSlots d d') : Sheds d d' :=
  ⟨.of_outline h.nodes, .of_outline h.routes, h.inherits⟩

end Dispatch

theorem Ends.onLayout {α : Type} {post : α → Layout → Prop} {cause : Layout → Prop} {m : LayoutM α} {d : Dispatch}
    (h : Ends post cause (m d.layout)) :
    Ends (fun a d' => post a d'.layout) (fun d' => cause d'.layout) (DispatchM.onLayout m d) := by
  unfold DispatchM.onLayout
  generalize m d.layout = r at h
  cases h with
  | ok h => exact .ok h
  | overflow h => exact .overflow h
  | fault h => exact .fault h

namespace Keeps

open Dispatch DispatchM

variable {α : Type} {R : Dispatch → Dispatch → Prop} {cause : Dispatch → Prop} {m : DispatchM α} {e : Except Fault α}

theorem sheds (h : Keeps SameSlots cause m) : Keeps Sheds cause m := h.mono (fun _ _ => SameSlots.sheds) fun _ h => h

theorem grows (h : Keeps SameSlots cause m) : Keeps Grows cause m :=
  h.mono (fun _ _ => Layout.SameSlots.grows) fun _ h => h

/-- Operations that leave the layout as it is. -/
theorem modify_books {g : Dispatch → Dispatch} (h : ∀ d, (g d).layout = d.layout) :
    Keeps SameSlots cause (modify g : DispatchM PUnit) :=
  .modify fun d => by
    unfold SameSlots
    rw [h d]
    exact refl d.layout

protected theorem onLayout {R : Layout → Layout → Prop} {cause : Layout → Prop} {m : LayoutM α} (h : Keeps R cause m) :
    Keeps (fun d d' => R d.layout d'.layout) (fun d => cause d.layout) (onLayout m) :=
  fun d => (h d.layout).onLayout

theorem onLayout_of_never {R : Layout → Layout → Prop} {m : LayoutM α} (h : Keeps R (fun _ => False) m) :
    Keeps (fun d d' => R d.layout d'.layout) cause (onLayout m) :=
  h.onLayout.mono (fun _ _ h => h) fun _ h => h.elim

protected theorem refuse (why : Refusal) : Keeps R cause (refuse why : DispatchM α) := .throw (by simp)

protected theorem breach (what : Breach) : Keeps R cause (breach what : DispatchM α) := .throw (by simp)

variable [IsPreorder Dispatch R]

protected theorem ofResult (h : e ≠ .error .overflow) : Keeps R cause (ofResult e) := by
  cases e with
  | ok a => exact .pure a
  | error fault => exact .throw fun heq => h (congrArg Except.error heq)

/-- An overflow whose cause does not matter. -/
theorem ofResult_any (e : Except Fault α) : Keeps R (fun _ => True) (ofResult e) := by
  intro d
  cases e with
  | ok a => exact .ok (refl d)
  | error fault =>
    by_cases hfault : fault = .overflow
    · rw [hfault]
      exact .overflow trivial
    · exact .fault hfault

end Keeps

namespace Dispatch

open DispatchM

variable {cause : Dispatch → Prop} {p : Problem}

/-! ### Books -/

theorem enter_keeps (node : NodeId) : Keeps SameSlots cause (enter node) :=
  .get_bind fun d => by
    split
    · exact .modify_books fun _ => rfl
    · exact .breach _

theorem assign_keeps (node : NodeId) (route : RouteId) : Keeps SameSlots cause (assign node route) :=
  .get_bind fun d => by
    split
    · exact .modify_books fun _ => rfl
    · exact .breach _

theorem strike_keeps (node : NodeId) : Keeps SameSlots cause (strike node) :=
  .get_bind fun d => by
    split
    · exact .bind (.modify_books fun _ => rfl) fun _ => .pure _
    · exact .breach _

theorem hostIn_keeps (node : NodeId) : Keeps SameSlots cause (hostIn node) := .modify_books fun _ => rfl

theorem hostOut_keeps (node : NodeId) : Keeps SameSlots cause (hostOut node) :=
  .get_bind fun d => by
    split
    · exact .modify_books fun _ => rfl
    · exact .breach _

theorem store_keeps (route : RouteId) : Keeps SameSlots cause (store route) :=
  .get_bind fun d => by
    split
    · exact .pure _
    · exact .breach _

theorem setStore_keeps (route : RouteId) (s : Store) : Keeps SameSlots cause (setStore route s) :=
  .modify_books fun _ => rfl

theorem storeOut_keeps (route : RouteId) (node : NodeId) : Keeps SameSlots cause (storeOut route node) :=
  (store_keeps route).bind fun s => by
    split
    · exact setStore_keeps route _
    · exact .breach _

theorem storeIn_keeps (route : RouteId) (node : NodeId) : Keeps SameSlots cause (storeIn route node) :=
  (store_keeps route).bind fun _ => setStore_keeps route _

theorem countOne_keeps (route : RouteId) : Keeps SameSlots cause (countOne route) :=
  (store_keeps route).bind fun _ => setStore_keeps route _

theorem uncountOne_keeps (route : RouteId) : Keeps SameSlots (fun _ => True) (uncountOne route) :=
  (store_keeps route).bind fun _ => (Keeps.ofResult_any _).bind fun _ => setStore_keeps route _

theorem uncountAll_keeps (node : NodeId) (count : Nat) (route : Option RouteId) :
    Keeps SameSlots cause (uncountAll node count route) := by
  cases route with
  | none => exact .pure ()
  | some route =>
    refine (store_keeps route).bind fun s => ?_
    split
    · exact .breach _
    · exact setStore_keeps route _

theorem countAll_keeps (count : Nat) (route : Option RouteId) : Keeps SameSlots cause (countAll count route) := by
  cases route with
  | none => exact .pure ()
  | some route => exact (store_keeps route).bind fun _ => setStore_keeps route _

theorem recount_keeps (node : NodeId) (source target : Option RouteId) :
    Keeps SameSlots cause (recount node source target) := by
  refine .get_bind fun d => ?_
  simp only
  split
  · exact .pure ()
  · exact (uncountAll_keeps node _ source).bind fun _ => countAll_keeps _ target

/-! ### Destroying nodes and routes -/

theorem destroyNode_keeps (node : NodeId) : Keeps Sheds cause (destroyNode node) := by
  refine .modify fun d => ⟨.erase d.layout.nodes node.key, .refl d.layout.routes, fun m n hn => ?_,
    fun id r hr => ⟨r, hr, .refl r⟩⟩
  change (d.layout.nodes.erase node.key).get? m.key = some n at hn
  rw [Pool.get?_erase] at hn
  split at hn
  · cases hn
  · exact ⟨n, hn, rfl⟩

theorem destroyRoute_keeps (route : RouteId) : Keeps Sheds cause (destroyRoute route) := by
  refine .modify fun d => ⟨.refl d.layout.nodes, .erase d.layout.routes route.key, fun m n hn => ⟨n, hn, rfl⟩,
    fun id r hr => ?_⟩
  change (d.layout.routes.erase route.key).get? id.key = some r at hr
  rw [Pool.get?_erase] at hr
  split at hr
  · cases hr
  · exact ⟨r, hr, .refl r⟩

theorem destroyOwned_keeps (route : RouteId) (nodes : List NodeId) : Keeps Sheds cause (destroyOwned route nodes) := by
  induction nodes with
  | nil => exact .pure ()
  | cons node nodes ih =>
    refine (strike_keeps node).sheds.bind fun owner => ?_
    split
    · exact (destroyNode_keeps node).bind fun _ => ih
    · exact .breach _

theorem dissolve_keeps (route : RouteId) : Keeps Sheds cause (dissolve route) := by
  have herase : Keeps SameSlots cause (modify fun d : Dispatch => { d with stores := d.stores.erase route }) :=
    .modify_books fun _ => rfl
  have hclear : Keeps SameSlots cause (onLayout (Layout.clear route)) := .onLayout_of_never (Layout.clear_keeps route)
  refine (store_keeps route).sheds.bind fun s => herase.sheds.bind fun _ => .get_bind fun d => ?_
  split
  · exact .breach _
  · exact hclear.sheds.bind fun _ => (destroyRoute_keeps route).bind fun _ => (destroyNode_keeps _).bind fun _ =>
      (destroyNode_keeps _).bind fun _ => destroyOwned_keeps route s.nodes

theorem retire_keeps (route : RouteId) : Keeps Sheds cause (retire route) :=
  .get_bind fun d => by
    split
    · split
      · exact dissolve_keeps route
      · exact .pure ()
    · exact .pure ()

/-! ### Handles -/

theorem shareRoute_keeps (route : RouteId) : Keeps SameSlots cause (shareRoute route) :=
  (store_keeps route).bind fun _ => (setStore_keeps route _).bind fun _ => .pure route

theorem releaseRoute_keeps (route : RouteId) : Keeps Sheds (fun _ => True) (releaseRoute route) :=
  (store_keeps route).sheds.bind fun _ => (Keeps.ofResult_any _).bind fun _ =>
    (setStore_keeps route _).sheds.bind fun _ => retire_keeps route

theorem shareNode_keeps (node : NodeId) : Keeps SameSlots cause (shareNode node) :=
  .bind (.modify_books fun _ => rfl) fun _ => .get_bind fun d => by
    split
    · exact (countOne_keeps _).bind fun _ => .pure node
    · exact .pure node

theorem route_ne_overflow (d : Dispatch) (id : RouteId) : d.route id ≠ .error .overflow := by
  unfold Dispatch.route
  split <;> simp

theorem scan_ne_overflow (d : Dispatch) (id : RouteId) : d.scan id ≠ .error .overflow := by
  unfold Dispatch.scan Dispatch.route
  split <;> simp [Bind.bind, Except.bind, Pure.pure, Except.pure]

theorem nodeAt_keeps (route : RouteId) (position : Nat) : Keeps SameSlots cause (nodeAt route position) :=
  .get_bind fun d => (Keeps.ofResult (route_ne_overflow d route)).bind fun r => by
    split
    · exact .refuse _
    · exact shareNode_keeps _

theorem dropHandle_keeps (node : NodeId) : Keeps SameSlots (fun _ => True) (dropHandle node) :=
  .get_bind fun d => by
    split
    · exact .breach _
    · refine (Keeps.ofResult_any _).bind fun count => ?_
      split
      · exact .bind (.modify_books fun _ => rfl) fun _ => .pure count
      · exact .bind (.modify_books fun _ => rfl) fun _ => .pure count

theorem destroyStandalone_keeps (node : NodeId) : Keeps Sheds cause (destroyStandalone node) :=
  (hostOut_keeps node).sheds.bind fun _ => (strike_keeps node).sheds.bind fun owner => by
    split
    · exact destroyNode_keeps node
    · exact .breach _

theorem releaseNode_keeps (node : NodeId) : Keeps Sheds (fun _ => True) (releaseNode node) :=
  (dropHandle_keeps node).sheds.bind fun left => .get_bind fun d => by
    split
    · exact (uncountOne_keeps _).sheds.bind fun _ => retire_keeps _
    · split
      · exact destroyStandalone_keeps node
      · exact .pure ()

/-! ### New routes and nodes -/

/-- The totals of some route overflow. -/
def Strained (p : Problem) (d : Dispatch) : Prop := d.layout.Strained p

theorem addRoute_keeps (p : Problem) (vehicleType : UInt64) (idx : Nat) :
    Keeps Grows (Strained p) (addRoute p vehicleType idx) := by
  unfold addRoute
  split
  · exact .refuse _
  · rename_i vehicle _
    have hlayout : Keeps Layout.Grows (Layout.Strained p) (do
        let start ← Layout.addNode vehicle.startDepot
        let finish ← Layout.addNode vehicle.endDepot
        let id ← Layout.addRoute idx vehicleType start finish
        Layout.refresh p id
        return id) :=
      (Layout.addNode_keeps _).bind fun start => (Layout.addNode_keeps _).bind fun finish =>
        (Layout.addRoute_keeps idx vehicleType start finish).bind fun id =>
          ((Layout.refresh_keeps p id).mono (fun _ _ => Layout.SameSlots.grows) fun _ h => h).bind fun _ => .pure id
    exact hlayout.onLayout.bind fun id => (setStore_keeps id _).grows.bind fun _ => .pure id

theorem addNode_keeps (p : Problem) (location : UInt64) : Keeps Grows cause (addNode p location) := by
  unfold addNode
  split
  · have hnode : Keeps Grows cause (onLayout (Layout.addNode location)) :=
      .onLayout_of_never (Layout.addNode_keeps location)
    refine hnode.bind fun node => ?_
    have hhandle : Keeps SameSlots cause (modify fun d : Dispatch => { d with handles := d.handles.insert node 1 }) :=
      .modify_books fun _ => rfl
    exact (enter_keeps node).grows.bind fun _ => (hostIn_keeps node).grows.bind fun _ => hhandle.grows.bind fun _ =>
      .pure node
  · exact .refuse _

/-! ### Single nodes -/

theorem leave_keeps (p : Problem) (old target : RouteId) (node : NodeId) :
    Keeps SameSlots (Strained p) (leave p old target node) :=
  .get_bind fun d => (Keeps.ofResult (route_ne_overflow d old)).bind fun r => .get_bind fun d => by
    split
    · exact .breach _
    · split
      · refine Keeps.onLayout ((Layout.removeAt_keeps old _).bind fun _ => ?_)
        split
        · exact .pure ()
        · exact Layout.refresh_keeps p old
      · exact .breach _

theorem arrive_keeps (p : Problem) (target : RouteId) (position : Nat) (node : NodeId) :
    Keeps SameSlots (Strained p) (arrive p target position node) :=
  Keeps.onLayout ((Layout.insertAt_keeps target position node).bind fun _ => Layout.refresh_keeps p target)

theorem handOver_keeps (node : NodeId) (source target : RouteId) : Keeps SameSlots cause (handOver node source target) :=
  (storeOut_keeps source node).bind fun _ => (storeIn_keeps target node).bind fun _ =>
    (assign_keeps node target).bind fun _ => recount_keeps node _ _

theorem takeIn_keeps (node : NodeId) (target : RouteId) : Keeps SameSlots cause (takeIn node target) :=
  (hostOut_keeps node).bind fun _ => (storeIn_keeps target node).bind fun _ =>
    (assign_keeps node target).bind fun _ => recount_keeps node _ _

theorem resolve_ne_overflow (spot : Spot) (highest clients : Nat) : spot.resolve highest clients ≠ .error .overflow := by
  unfold Spot.resolve
  split
  · simp
  · split <;> simp

theorem put_keeps (p : Problem) (route : RouteId) (spot : Spot) (node : NodeId) :
    Keeps Sheds (Strained p) (put p route spot node) := by
  refine .get_bind fun d => (Keeps.ofResult (route_ne_overflow d route)).bind fun r => ?_
  refine Keeps.bind (.get_bind fun d => ?_) fun _ => .get_bind fun d => ?_
  · split
    · exact .pure ()
    · exact .refuse _
  · split
    · exact .refuse _
    · refine (Keeps.ofResult (resolve_ne_overflow spot _ _)).bind fun position => ?_
      split
      · exact ((arrive_keeps p route position node).bind fun _ => takeIn_keeps node route).sheds
      · rename_i old _
        refine (leave_keeps p old route node).sheds.bind fun _ => (arrive_keeps p route position node).sheds.bind fun _ => ?_
        split
        · exact .pure ()
        · exact (handOver_keeps node old route).sheds.bind fun _ => retire_keeps old

theorem remove_keeps (p : Problem) (route : RouteId) (position : Nat) :
    Keeps Sheds (Strained p) (remove p route position) := by
  have htaken : Keeps SameSlots (Strained p) (onLayout do
      let node ← Layout.removeAt route position
      Layout.refresh p route
      return node) :=
    Keeps.onLayout ((Layout.removeAt_keeps route position).bind fun node =>
      (Layout.refresh_keeps p route).bind fun _ => .pure node)
  refine htaken.sheds.bind fun node => (strike_keeps node).sheds.bind fun owner => ?_
  split
  · refine (storeOut_keeps route node).sheds.bind fun _ => (enter_keeps node).sheds.bind fun _ => ?_
    exact (hostIn_keeps node).sheds.bind fun _ => (recount_keeps node _ _).sheds.bind fun _ =>
      (shareNode_keeps node).sheds.bind fun node => (retire_keeps route).bind fun _ => .pure node
  · exact .breach _

/-! ### Reconciling -/

theorem handOverAll_keeps (source target : RouteId) (nodes : List NodeId) :
    Keeps SameSlots cause (handOverAll source target nodes) := by
  induction nodes with
  | nil => exact .pure ()
  | cons node nodes ih => exact (handOver_keeps node source target).bind fun _ => ih

theorem exchangeOwned_keeps (a b : RouteId) (toB toA : List NodeId) :
    Keeps Sheds cause (exchangeOwned a b toB toA) := by
  refine (handOverAll_keeps a b toB).sheds.bind fun _ => (handOverAll_keeps b a toA).sheds.bind fun _ => ?_
  split
  · exact (retire_keeps a).bind fun _ => (retire_keeps b).bind fun _ => .pure _
  · exact .pure 0

theorem reconcile_keeps (a b : RouteId) : Keeps Sheds cause (reconcile a b) := by
  refine .get_bind fun d => (Keeps.ofResult (scan_ne_overflow d a)).bind fun visitedByA => ?_
  split
  · exact .pure 0
  · refine .get_bind fun d => (Keeps.ofResult (scan_ne_overflow d b)).bind fun visitedByB => ?_
    refine .get_bind fun d₁ => .get_bind fun d₂ => ?_
    split
    · exact exchangeOwned_keeps a b _ _
    · exact .refuse _

end Dispatch

/-! ### The search -/

namespace Descent

open Dispatch DispatchM

variable {σ : Type} {p : Problem}

theorem make_keeps (p : Problem) (visitors : Visitors) (u v : NodeId) (move : Move) :
    Keeps Sheds (fun _ => True) (make p visitors u v move) := by
  refine ((Move.perform_keeps p move u v).onLayout.mono (fun _ _ => SameSlots.sheds) fun _ _ => trivial).bind
    fun routes => ?_
  refine (reconcile_keeps _ _).bind fun _ => .get_bind fun d => (Keeps.ofResult_any _).bind fun visitors => ?_
  exact .get_bind fun _ => Keeps.ofResult_any _

theorem improveAll_keeps (p : Problem) (descent : Descent) (us : List NodeId) (visitors : Visitors) (made : Nat) :
    Keeps Sheds (fun _ => True) (improveAll p descent us visitors made) := by
  induction us generalizing visitors made with
  | nil => exact .pure made
  | cons u us ih =>
    refine .get_bind fun d => (Keeps.ofResult_any _).bind fun found => ?_
    cases found with
    | none => exact ih visitors made
    | some trial => exact (make_keeps p visitors u trial.1 trial.2).bind fun visitors => ih visitors (made + 1)

theorem pass_keeps (p : Problem) (descent : Descent) (shuffle : List NodeId → σ → List NodeId × σ) (s : σ) :
    Keeps Sheds (fun _ => True) (pass p descent shuffle s) :=
  .get_bind fun _ => (Keeps.ofResult_any _).bind fun visitors =>
    (improveAll_keeps p descent _ visitors 0).bind fun _ => .pure _

theorem passes_keeps (p : Problem) (descent : Descent) (shuffle : List NodeId → σ → List NodeId × σ) (remaining : Nat)
    (counts : Nat × Nat) (s : σ) : Keeps Sheds (fun _ => True) (passes p descent shuffle remaining counts s) := by
  induction remaining generalizing counts s with
  | zero => exact .pure _
  | succ remaining ih =>
    refine (pass_keeps p descent shuffle s).bind fun (made, s) => ?_
    simp only
    split
    · exact .pure _
    · exact ih _ _

theorem run_keeps (p : Problem) (descent : Descent) (shuffle : List NodeId → σ → List NodeId × σ) (s : σ) :
    Keeps Sheds (fun _ => True) (run p descent shuffle s) :=
  .get_bind fun _ => (Keeps.ofResult_any _).bind fun _ =>
    (passes_keeps p descent shuffle descent.maxPasses (0, 0) s).bind fun _ => .get_bind fun _ =>
      (Keeps.ofResult_any _).bind fun _ => .pure _

end Descent
end Fleet
