import Fleet.Proofs.Dispatch.Released

/-! Routes and nodes agree on who stands where, along clean runs and however routes are changed afterwards.

    A run is told together with the depots with which its routes came (`Recorded`), so that it can be said that a route
    still runs between them. After a run, routes may be changed behind the back of the books (`Edit`): the totals of
    some of them fall behind then, but visits and seats go on to agree. -/

namespace Fleet

namespace Layout

variable {p : Problem} {l l' : Layout} {id : RouteId} {r : Route} {m : NodeId}

/-! ### Changes behind the back of the books -/

/-- A change of routes that the books do not hear of. -/
inductive Edit where
  | append (route : RouteId) (node : NodeId)
  | insert (route : RouteId) (position : Nat) (node : NodeId)
  | remove (route : RouteId) (position : Nat)
  | clear (route : RouteId)
  | refresh (route : RouteId)
  /-- A move whose two routes are not reconciled. -/
  | move (rule : Move) (u v : NodeId)

namespace Edit

/-- The route is there, and so is a node that is put in, which stands in no route. -/
def Permitted (l : Layout) : Edit → Prop
  | .append route node | .insert route _ node => (l.route? route).isSome ∧ l.isLoose node = true
  | .remove route _ | .clear route | .refresh route => (l.route? route).isSome
  | .move .. => True

/-- Makes the change; gives the routes whose totals have been computed again. -/
def carryOut (p : Problem) : Edit → LayoutM (List RouteId)
  | .append route node => do
    Layout.append route node
    return []
  | .insert route position node => do
    Layout.insertAt route position node
    return []
  | .remove route position => do
    let _ ← Layout.removeAt route position
    return []
  | .clear route => do
    Layout.clear route
    return []
  | .refresh route => do
    Layout.refresh p route
    return [route]
  | .move rule u v => do
    let routes ← rule.perform p u v
    return [routes.1, routes.2]

end Edit

/-- Any number of changes one after the other, some of which may have been refused. -/
inductive Edited (p : Problem) (l : Layout) : Layout → Prop
  | start : Edited p l l
  | done {l₁ l₂ : Layout} {computed : List RouteId} (edit : Edit) (edited : Edited p l l₁)
      (permitted : edit.Permitted l₁) (hrun : edit.carryOut p l₁ = .ok computed l₂) : Edited p l l₂
  | failed {l₁ l₂ : Layout} {fault : Fault} (edit : Edit) (edited : Edited p l l₁) (permitted : edit.Permitted l₁)
      (hrun : edit.carryOut p l₁ = .error fault l₂) (hfault : fault ≠ .overflow) : Edited p l l₂

/-- The totals kept with the route, if it is there, are those of its tour. -/
def Fresh (p : Problem) (l : Layout) (id : RouteId) : Prop :=
  ∀ r, l.route? id = some r → Totals.ofTour p r.vehicleType.toNat (l.locations r) = .ok r.totals

/-- Nodes stay at their locations and routes between their depots, and the totals of some routes are fresh. -/
def Faithful (p : Problem) (l : Layout) (computed : List RouteId) (l' : Layout) : Prop :=
  KeepsRuns l l' ∧ ∀ id ∈ computed, Fresh p l' id

theorem Reroutes.faithful {r' : Route} (h : Reroutes l id r' l') (hr : l.route? id = some r) (hs : SameRun r r') :
    Faithful p l [] l' := by
  refine ⟨h.keepsRuns hr hs, ?_⟩
  simp

theorem refresh_answers (hl : Seated l) (hs : Sited p l) (hr : l.route? id = some r) :
    Answers l (fun _ l' => Faithful p l [id] l') (refresh p id l) := by
  refine .of_fares ((refresh_fares hl hr (hs.ofTour_computes hl hr)).mono fun _ l' ⟨totals, htotals, hre⟩ => ?_)
  refine ⟨hre.keepsRuns hr ⟨rfl, rfl, rfl, rfl⟩, ?_⟩
  simp only [List.mem_singleton, forall_eq]
  intro s hroute
  rw [hre.route_self] at hroute
  cases hroute
  rw [hre.locations]
  exact htotals

theorem perform_answers (hl : Seated l) (hs : Sited p l) (move : Move) (u v : NodeId) :
    Answers l (fun routes l' => Faithful p l [routes.1, routes.2] l') (move.perform p u v l) := by
  refine (Move.perform_answers hl hs move u v).mono fun routes l' hdone => ?_
  obtain ⟨a, ra, i, b, rb, j, totalsU, totalsV, hm, rfl, hU, hV, hre⟩ := hdone
  refine ⟨hre.keepsRuns hm.left hm.right ⟨rfl, rfl, rfl, rfl⟩ ⟨rfl, rfl, rfl, rfl⟩, ?_⟩
  simp only [List.mem_cons, List.not_mem_nil, or_false, forall_eq_or_imp, forall_eq]
  constructor
  · intro s hroute
    rw [hre.route_left] at hroute
    cases hroute
    rw [hre.locations]
    exact hU
  · intro s hroute
    rw [hre.route_right hm.ne] at hroute
    cases hroute
    rw [hre.locations]
    exact hV

theorem insertAt_answers (hl : Seated l) (hr : l.route? id = some r) (hloose : l.isLoose m = true) (position : Nat) :
    Answers l (fun _ l' => Faithful p l [] l') (insertAt id position m l) := by
  by_cases hposition : position = 0 ∨ r.clients.length + 1 < position
  · rw [insertAt_refused hr hposition]
    exact .refused
  · obtain ⟨i, rfl⟩ := Nat.exists_eq_add_one_of_ne_zero fun h => hposition (.inl h)
    obtain ⟨hlive, hun⟩ := hl.isLoose_iff.mp hloose
    have hi : i ≤ r.clients.length := by omega
    obtain ⟨l', hrun, hre⟩ := insertAt_run hl hr hi hlive hun
    exact .of_ok hrun (hre.faithful hr (.of_clients _ _))

theorem removeAt_answers (hl : Seated l) (hr : l.route? id = some r) (position : Nat) :
    Answers l (fun _ l' => Faithful p l [] l') (removeAt id position l) := by
  cases hclient : r.client? position with
  | none =>
    have hnone : ∀ s, l.route? id = some s → s.client? position = none := by
      intro s hs
      rw [hr] at hs
      cases hs
      exact hclient
    obtain ⟨why, hrefused⟩ := removeAt_refused hnone
    rw [hrefused]
    exact .refused
  | some m =>
    obtain ⟨i, rfl, hm⟩ := Route.client?_eq_some_iff.mp hclient
    obtain ⟨l', hrun, hre⟩ := removeAt_run hl hr hm
    exact .of_ok hrun (hre.faithful hr (.of_clients _ _))

/-- A change that is permitted is made or refused, unless a total overflows. -/
theorem Edit.carryOut_answers {edit : Edit} (hl : Seated l) (hs : Sited p l) (hpermitted : edit.Permitted l) :
    Answers l (Faithful p l) (edit.carryOut p l) := by
  cases edit with
  | append route node =>
    obtain ⟨hroute, hloose⟩ := hpermitted
    obtain ⟨r, hr⟩ := Option.isSome_iff_exists.mp hroute
    obtain ⟨hlive, hun⟩ := hl.isLoose_iff.mp hloose
    obtain ⟨l', hrun, hre⟩ := append_run hl hr hlive hun
    exact (Answers.of_ok hrun (hre.faithful hr (.of_clients _ _))).returning fun _ _ h => h
  | insert route position node =>
    obtain ⟨hroute, hloose⟩ := hpermitted
    obtain ⟨r, hr⟩ := Option.isSome_iff_exists.mp hroute
    exact (insertAt_answers hl hr hloose position).returning fun _ _ h => h
  | remove route position =>
    obtain ⟨r, hr⟩ := Option.isSome_iff_exists.mp hpermitted
    exact (removeAt_answers hl hr position).returning fun _ _ h => h
  | clear route =>
    obtain ⟨r, hr⟩ := Option.isSome_iff_exists.mp hpermitted
    obtain ⟨l', hrun, hre⟩ := clear_run hl hr
    exact (Answers.of_ok hrun (hre.faithful hr (.of_clients _ _))).returning fun _ _ h => h
  | refresh route =>
    obtain ⟨r, hr⟩ := Option.isSome_iff_exists.mp hpermitted
    exact (refresh_answers hl hs hr).returning fun _ _ h => h
  | move rule u v => exact (perform_answers hl hs rule u v).returning fun _ _ h => h

/-- Whatever is changed, nodes stay at their locations and routes between their depots. -/
theorem Edited.keepsRuns (hedited : Edited p l l') (hl : Seated l) (hs : Sited p l) : KeepsRuns l l' := by
  induction hedited with
  | start => exact .refl hl
  | done edit _ permitted hrun ih =>
    have hanswers := edit.carryOut_answers ih.seated (ih.sited hs) permitted
    rw [hrun] at hanswers
    cases hanswers with
    | ok h => exact ih.trans h.1
  | failed edit _ permitted hrun hfault ih =>
    have hanswers := edit.carryOut_answers ih.seated (ih.sited hs) permitted
    rw [hrun] at hanswers
    cases hanswers with
    | overflow => exact absurd rfl hfault
    | refused => exact ih

/-! ### Visits and seats in order -/

/-- Every route runs between the depots with which it came, and visits and seats agree. -/
structure Orderly (came : RouteId → Option (NodeId × NodeId)) (l : Layout) : Prop where
  depots : ∀ id r, l.route? id = some r → 2 ≤ r.visits.length ∧
    ∃ start finish, came id = some (start, finish) ∧ r.visits.head? = some start ∧ r.visits.getLast? = some finish
  live : ∀ id r, l.route? id = some r → ∀ m ∈ r.visits, (l.node? m).isSome
  nodup : ∀ id r, l.route? id = some r → r.visits.Nodup
  disjoint : ∀ id r id' r', l.route? id = some r → l.route? id' = some r' → id ≠ id' → r.visits.Disjoint r'.visits
  seat : ∀ id r i m, l.route? id = some r → r.visits[i]? = some m →
    ∃ n, l.node? m = some n ∧ n.route = some id ∧ n.position = i
  loose : ∀ m n, l.node? m = some n → Unvisited l m → n.route = none ∧ n.position = 0

theorem Seated.orderly {came : RouteId → Option (NodeId × NodeId)} (h : Seated l)
    (hcame : ∀ id r, l.route? id = some r → came id = some (r.start, r.finish)) : Orderly came l where
  depots id r hr := by
    refine ⟨by simp, r.start, r.finish, hcame id r hr, rfl, ?_⟩
    unfold Route.visits
    rw [List.getLast?_append, List.getLast?_singleton]
    rfl
  live id r hr m hm := h.isSome_of_visit hr hm
  nodup id r hr := h.nodup_visits hr
  disjoint id r id' r' hr hr' hne m hm hm' := hne (h.route_unique hr' hr hm' hm)
  seat id r i m hr hm := h.seat hr hm
  loose m n hn hun := by
    have hroute := (h.unvisited_iff hn).mp hun
    exact ⟨hroute, h.loose hn hroute⟩

end Layout

namespace Dispatch

open Layout DispatchM

variable {p : Problem} {h h' : Handles} {d d' : Dispatch} {l : Layout} {id : RouteId} {r r' : Route}
  {came : RouteId → Option (NodeId × NodeId)}

/-! ### Runs with a record of the depots -/

/-- The depots with which routes came, after one more request: those of the routes that are new are added. -/
def record (came : RouteId → Option (NodeId × NodeId)) (l l' : Layout) (id : RouteId) : Option (NodeId × NodeId) :=
  if (l.route? id).isSome then came id else (l'.route? id).map fun r => (r.start, r.finish)

/-- A clean run, and for each route the depots that it had in the first state in which it was there. -/
inductive Recorded (p : Problem) : Handles → Dispatch → (RouteId → Option (NodeId × NodeId)) → Prop
  | empty : Recorded p {} Dispatch.empty fun _ => none
  | done {h h' : Handles} {d d' : Dispatch} {came : RouteId → Option (NodeId × NodeId)} (request : Request)
      (recorded : Recorded p h d came) (permitted : request.Permitted p h)
      (hrun : request.carryOut p h d = .ok h' d') : Recorded p h' d' (record came d.layout d'.layout)
  | failed {h : Handles} {d d' : Dispatch} {came : RouteId → Option (NodeId × NodeId)} {fault : Fault}
      (request : Request) (recorded : Recorded p h d came) (permitted : request.Permitted p h)
      (hrun : request.carryOut p h d = .error fault d') (hfault : ¬fault.IsLimit) :
      Recorded p h d' (record came d.layout d'.layout)

theorem Recorded.reachable (hrec : Recorded p h d came) : Reachable p h d := by
  induction hrec with
  | empty => exact .empty
  | done request _ permitted hrun ih => exact .done request ih permitted hrun
  | failed request _ permitted hrun hfault ih => exact .failed request ih permitted hrun hfault

theorem Reachable.recorded (hr : Reachable p h d) : ∃ came, Recorded p h d came := by
  induction hr with
  | empty => exact ⟨_, .empty⟩
  | done request _ permitted hrun ih =>
    obtain ⟨came, hrec⟩ := ih
    exact ⟨_, .done request hrec permitted hrun⟩
  | failed request _ permitted hrun hfault ih =>
    obtain ⟨came, hrec⟩ := ih
    exact ⟨_, .failed request hrec permitted hrun hfault⟩

/-- A route that is there before a request and after it has kept its depots. -/
theorem Steps.sameRun (hsteps : Steps d d') (hl : Seated d.layout) (hr : d.layout.route? id = some r)
    (hr' : d'.layout.route? id = some r') : SameRun r r' := by
  rcases hsteps with hsheds | hgrows
  · obtain ⟨s, hs, hrun⟩ := hsheds.inherits.route id r' hr'
    rw [hr] at hs
    cases hs
    exact hrun
  · obtain ⟨s, hs, hrun⟩ := Layout.Grows.runs hgrows hl.routes id r hr
    rw [hr'] at hs
    cases hs
    exact hrun

theorem Recorded.depots (hrec : Recorded p h d came) (hr : d.layout.route? id = some r) :
    came id = some (r.start, r.finish) := by
  induction hrec generalizing r with
  | empty => cases hr
  | @done h h' d d' came request hrec permitted hrun ih =>
    have hd := hrec.reachable.coherent
    unfold record
    cases hold : d.layout.route? id with
    | none => simp [hr]
    | some s =>
      have hsame := (steps_of_ok hd permitted hrun).sameRun hd.seated hold hr
      simp [ih hold, hsame.start, hsame.finish]
  | failed request hrec permitted hrun hfault ih =>
    obtain rfl := carryOut_traceless hrec.reachable.coherent permitted hrun hfault
    unfold record
    rw [hr]
    exact ih hr

/-- In every state of a clean run, and whatever is changed by hand afterwards, visits and seats agree and every route runs
    between the depots with which it came. The totals of all routes are those of their tours as long as nothing is
    changed by hand, and a change by hand that computes totals leaves them so. -/
theorem orderly_along_runs (hr : Reachable p h d) :
    (∃ came, Recorded p h d came) ∧ ∀ came, Recorded p h d came →
      (∀ id, Fresh p d.layout id) ∧
      ∀ l, Edited p d.layout l → Orderly came l ∧
        ∀ (edit : Edit) computed l', edit.Permitted l → edit.carryOut p l = .ok computed l' →
          ∀ id ∈ computed, Fresh p l' id := by
  have hd := hr.coherent
  refine ⟨hr.recorded, fun came hrec => ⟨fun id r hroute => hd.current.totals hroute, fun l hedited => ?_⟩⟩
  have hkeeps := hedited.keepsRuns hd.seated hd.sited
  refine ⟨hkeeps.seated.orderly fun id r' hr' => ?_, fun edit computed l' hpermitted hrun => ?_⟩
  · obtain ⟨r, hroute, hsame⟩ := hkeeps.back hr'
    rw [hrec.depots hroute, hsame.start, hsame.finish]
  · have hanswers := edit.carryOut_answers hkeeps.seated (hkeeps.sited hd.sited) hpermitted
    rw [hrun] at hanswers
    cases hanswers with
    | ok h => exact h.2

namespace Sample

/-- The client of the first route has been taken out by hand. -/
def stripped : Dispatch := after (onLayout (Edit.carryOut problem (.remove ⟨⟨0, 0⟩⟩ 1)) dispatch)

/-- The totals of the first route have been computed again. -/
def refreshed : Dispatch := after (onLayout (Edit.carryOut problem (.refresh ⟨⟨0, 0⟩⟩)) stripped)

theorem edited : Edited problem dispatch.layout stripped.layout := by
  have hrun : onLayout (Edit.carryOut problem (.remove ⟨⟨0, 0⟩⟩ 1)) dispatch = .ok [] stripped := eq_ok (by decide +kernel)
  exact .done (.remove ⟨⟨0, 0⟩⟩ 1) .start (by decide +kernel : (dispatch.layout.route? ⟨⟨0, 0⟩⟩).isSome)
    (onLayout_eq_ok hrun).1

end Sample

theorem orderly_in_sample :
    (Reachable Sample.problem Sample.handles Sample.dispatch ∧
      Edited Sample.problem Sample.dispatch.layout Sample.stripped.layout) ∧
    (∃ came, Recorded Sample.problem Sample.handles Sample.dispatch came ∧ Orderly came Sample.stripped.layout) ∧
    Fresh Sample.problem Sample.refreshed.layout ⟨⟨0, 0⟩⟩ := by
  have hpermitted : (Edit.refresh ⟨⟨0, 0⟩⟩).Permitted Sample.stripped.layout :=
    (by decide +kernel : (Sample.stripped.layout.route? ⟨⟨0, 0⟩⟩).isSome)
  have hrun : onLayout (Edit.carryOut Sample.problem (.refresh ⟨⟨0, 0⟩⟩)) Sample.stripped =
      .ok [⟨⟨0, 0⟩⟩] Sample.refreshed := Sample.eq_ok (by decide +kernel)
  obtain ⟨⟨came, hrec⟩, hall⟩ := orderly_along_runs Sample.reachable
  obtain ⟨-, hedits⟩ := hall came hrec
  obtain ⟨horderly, hfresh⟩ := hedits _ Sample.edited
  exact ⟨⟨Sample.reachable, Sample.edited⟩, ⟨came, hrec, horderly⟩,
    hfresh _ _ _ hpermitted (onLayout_eq_ok hrun).1 _ List.mem_cons_self⟩

end Dispatch
end Fleet
