import Fleet.Improvement
import Fleet.Proofs.Descent.Run
import Fleet.Proofs.Dispatch.Census
import Fleet.Proofs.Dispatch.Growing

/-! An improved plan is a plan of the same vehicles for the same clients, at the cost that is reported. -/

namespace Fleet

/-- The locations where a vehicle stops on its tour, its depots included. -/
def Tour.stops (p : Problem) (t : Tour) : List Nat :=
  match p.vehicleTypes[t.vehicleType.toNat]? with
  | some v => v.startDepot.toNat :: (t.visits.map (·.toNat) ++ [v.endDepot.toNat])
  | none => []

/-- The costs of the tours, each computed from scratch, add up to `c`. -/
def Plan.Costs (p : Problem) (penalties : Penalties) (plan : Plan) (c : Int) : Prop :=
  ∃ costs, List.Forall₂ (fun t c => penalties.costOfTour p t.vehicleType.toNat (t.stops p) = .ok c) plan.routes costs ∧
    c = costs.sum

namespace Layout

variable {p : Problem} {penalties : Penalties} {l l' : Layout} {id : RouteId} {ids : List RouteId} {r : Route} {t : Tour}
  {tours tours' : List Tour}

/-! ### The tours of the routes -/

theorem Sited.locations_eq_stops (hs : Sited p l) (hl : Seated l) (hr : l.route? id = some r) (ht : l.tour? id = some t) :
    l.locations r = t.stops p := by
  obtain ⟨v, hv, hstart, hfinish⟩ := hs.vehicle hr
  have hplace : ∀ {m location}, (l.node? m).map (·.location) = some location → l.locationOf m = location.toNat :=
    fun hm => by
      rw [locationOf_eq_place]
      unfold place
      rw [hm]
      rfl
  rw [tour?_of_route hr] at ht
  cases ht
  unfold Tour.stops
  rw [hl.locations_eq hr, hv, Route.visits_eq, List.map_cons, List.map_append, List.map_map, List.map_singleton,
    hplace hstart, hplace hfinish]
  refine congrArg (List.cons _) (congrArg (· ++ _) (List.map_congr_left fun m _ => ?_))
  rw [locationOf_eq_place]
  rfl

/-- Routes that keep their vehicles have tours of the same vehicle types. -/
theorem KeepsRuns.hasTours (hk : KeepsRuns l l') (ht : HasTours l ids tours) :
    ∃ tours', HasTours l' ids tours' ∧ tours'.map (·.vehicleType) = tours.map (·.vehicleType) := by
  induction ht with
  | nil => exact ⟨[], .nil, rfl⟩
  | cons ht _ ih =>
    obtain ⟨tours', htours', htypes⟩ := ih
    obtain ⟨r, hr, rfl⟩ := Option.map_eq_some_iff.mp ht
    obtain ⟨r', hr', hsame⟩ := hk.onward hr
    refine ⟨_, .cons (tour?_of_route hr') htours', ?_⟩
    rw [List.map_cons, List.map_cons, htypes, hsame.vehicleType]

/-- Sharing the clients out anew keeps the visits. -/
theorem Reshuffles.perm_visits (h : Reshuffles l l') (hl : Seated l) (hids : ids.Nodup)
    (hall : ∀ {id}, (l.route? id).isSome → id ∈ ids) (ht : HasTours l ids tours) (ht' : HasTours l' ids tours') :
    (tours'.flatMap (·.visits)).Perm (tours.flatMap (·.visits)) := by
  have hplace : l'.place = l.place := funext h.place
  rw [ht.visits, ht'.visits, hplace]
  refine List.Perm.map _ ((List.perm_ext_iff_of_nodup (h.seated.nodup_clientsOf hids) (hl.nodup_clientsOf hids)).mpr
    fun m => ?_)
  have hserves : ∀ {l₁ : Layout}, (∀ {id}, (l₁.route? id).isSome → id ∈ ids) →
      (m ∈ ids.flatMap l₁.clientsOf ↔ Serves l₁ m) := fun hall => by
    rw [List.mem_flatMap]
    constructor
    · rintro ⟨id, -, hm⟩
      exact ⟨id, mem_clientsOf.mp hm⟩
    · rintro ⟨id, r, hr, hm⟩
      exact ⟨id, hall (Option.isSome_iff_exists.mpr ⟨r, hr⟩), mem_clientsOf.mpr ⟨r, hr, hm⟩⟩
  rw [hserves hall, hserves fun hid => hall (by rwa [← h.sameDepots.isSome]), h.serves]

/-- The cost of the layout is that of the tours of its routes, each computed from scratch. -/
theorem HasTours.costs {c : Int} (ht : HasTours l ids tours) (hl : Seated l) (hs : Sited p l) (hc : Current p l)
    (hids : ids.Nodup) (hall : ∀ {id}, (l.route? id).isSome → id ∈ ids)
    (hcost : Descent.totalCost p penalties l = .ok c) : (Plan.mk tours).Costs p penalties c := by
  obtain ⟨f, hf, rfl⟩ := Descent.totalCost_eq_ok hcost
  refine ⟨ids.map f, ?_, ?_⟩
  · clear hids hall hcost
    induction ht with
    | nil => exact .nil
    | cons ht _ ih =>
      obtain ⟨r, hr, hrt⟩ := Option.map_eq_some_iff.mp ht
      refine .cons ?_ ih
      rw [← hs.locations_eq_stops hl hr ht, ← hrt]
      exact Priced.costOfTour hf hc hr
  · have hperm : l.routeIds.Perm ids := (List.perm_ext_iff_of_nodup (nodup_routeIds l) hids).mpr fun id =>
      mem_routeIds.trans ⟨fun h => hall h, fun h => ht.isSome h⟩
    exact (hperm.map f).sum_eq

end Layout

namespace Improvement

open Layout DispatchM
open Dispatch (Coherent)

variable {p : Problem} {h : Handles} {d : Dispatch} {plan : Plan} {σ : Type}

theorem releaseRoutes_run {ids : List RouteId} : ∀ {d : Dispatch}, Coherent p (h.withRoutes ids) d →
    ∃ d', releaseRoutes ids d = .ok () d' ∧ Coherent p h d' := by
  induction ids with
  | nil => exact fun {d} hd => ⟨d, rfl, hd⟩
  | cons id ids ih =>
    intro d hd
    have hid : id ∈ (h.withRoutes (id :: ids)).routes := List.mem_cons_self
    obtain ⟨d₁, -, hrun₁, hd₁, -⟩ := Dispatch.releaseRoute_run hd hid
    rw [Handles.withoutRoute_withRoutes] at hd₁
    obtain ⟨d', hrun', hd'⟩ := ih hd₁
    refine ⟨d', ?_, hd'⟩
    unfold releaseRoutes
    rw [bind_ok hrun₁, hrun']

/-- A plan of the same vehicles for the same clients, and the report of a search between the two. -/
structure Improves (p : Problem) (search : SearchParameters) (plan : Plan) (result : Improvement) : Prop where
  vehicles : result.plan.routes.map (·.vehicleType) = plan.routes.map (·.vehicleType)
  visits : (result.plan.routes.flatMap (·.visits)).Perm (plan.routes.flatMap (·.visits))
  once : (result.plan.routes.flatMap (·.visits)).Nodup
  accepted : result.plan.check p = .ok ()
  initialCost : plan.Costs p search.penalties result.report.initialCost
  finalCost : result.plan.Costs p search.penalties result.report.finalCost
  descent : result.report.finalCost + result.report.moves ≤ result.report.initialCost
  still : result.report.moves = 0 → result.plan = plan
  passes : result.report.passes ≤ search.maxPasses.toNat
  moving : result.report.passes ≤ result.report.moves + 1

/-- How improving a plan ends: with a better plan and nothing left behind, or without one because a limit of the
    machine is met or because the plan or the parameters are refused. -/
inductive Ends (p : Problem) (plan : Plan) (neighbourhood : NeighbourhoodParameters) (search : SearchParameters)
    (shuffle : List NodeId → σ → List NodeId × σ) (s : σ) : EStateM.Result Fault Dispatch Improvement → Prop
  | improved {result : Improvement} {d : Dispatch} (hplan : plan.check p = .ok ()) (h : Improves p search plan result)
      (hleft : d.numRoutes = 0 ∧ d.layout.nodes.size = 0 ∧ d.ownership.size = 0) :
      Ends p plan neighbourhood search shuffle s (.ok result d)
  /-- While the plan is loaded the totals of a route overflow, or there is no slot for a new route or node. -/
  | stopped {fault : Fault} {d : Dispatch} (hplan : plan.check p = .ok ())
      (hload : Dispatch.load p plan Dispatch.empty = .error fault d) (hcause : Dispatch.Stops (Layout.Strained p) fault d) :
      Ends p plan neighbourhood search shuffle s (.error fault d)
  /-- From the routes of the plan the search comes to a layout in which totals or costs overflow. -/
  | overflow {descent : Descent} {ids : List RouteId} {d d' : Dispatch} (hplan : plan.check p = .ok ())
      (hload : Dispatch.load p plan Dispatch.empty = .ok ids d)
      (hdescent : Descent.ofParameters p neighbourhood search = .ok descent)
      (hrun : descent.run p shuffle s d = .error .overflow d') (hcause : descent.Strained p d'.layout) :
      Ends p plan neighbourhood search shuffle s (.error .overflow d')
  | rejected {flaw : Plan.Flaw} (hplan : plan.check p = .error flaw) :
      Ends p plan neighbourhood search shuffle s (.error (.refused (.plan flaw)) Dispatch.empty)
  | invalid {why : Refusal} {d : Dispatch} (hplan : plan.check p = .ok ())
      (hwhy : neighbourhood.validate = .error why ∨ search.validate = .error why) :
      Ends p plan neighbourhood search shuffle s (.error (.refused why) d)

variable {neighbourhood : NeighbourhoodParameters} {search : SearchParameters}
  {shuffle : List NodeId → σ → List NodeId × σ} {s : σ}

/-- A part of the work that ends it with its own faults. -/
theorem Ends.bind {α : Type} {cause : Fault → Dispatch → Prop} {post : α → Dispatch → Prop} {m : DispatchM α}
    {f : α → DispatchM Improvement} (h : FaresUnless cause post (m d))
    (stop : ∀ fault t, m d = .error fault t → cause fault t → Ends p plan neighbourhood search shuffle s (.error fault t))
    (next : ∀ a t, m d = .ok a t → post a t → Ends p plan neighbourhood search shuffle s (f a t)) :
    Ends p plan neighbourhood search shuffle s ((m >>= f) d) := by
  generalize hr : m d = r at h
  cases h with
  | ok h =>
    rw [bind_ok hr]
    exact next _ _ hr h
  | fault h =>
    rw [bind_error hr]
    exact stop _ _ hr h

/-- Valid parameters make a search; others are refused. -/
theorem ofParameters_run (p : Problem) (neighbourhood : NeighbourhoodParameters) (search : SearchParameters) :
    (∃ neighbours, Neighbourhood.Within p.numLocations neighbours ∧ Descent.ofParameters p neighbourhood search =
        .ok ⟨neighbours, Move.defaults, search.penalties, search.maxPasses.toNat⟩) ∨
      ∃ why, (neighbourhood.validate = .error why ∨ search.validate = .error why) ∧
        Descent.ofParameters p neighbourhood search = .error (.refused why) := by
  unfold Descent.ofParameters
  cases hn : neighbourhood.validate with
  | error why => exact Or.inr ⟨why, Or.inl rfl, rfl⟩
  | ok _ =>
    cases hs : search.validate with
    | error why => exact Or.inr ⟨why, Or.inr rfl, rfl⟩
    | ok _ =>
      obtain ⟨neighbours, hlists, hwithin⟩ := Neighbourhood.lists_succeed p neighbourhood
      refine Or.inl ⟨neighbours, hwithin, ?_⟩
      rw [hlists]
      rfl

theorem nodup_visits {plan : Plan} (hplan : plan.check p = .ok ()) : (plan.routes.flatMap (·.visits)).Nodup :=
  Plan.nodup_locations_iff.mp (Plan.check_eq_ok_iff.mp hplan).nodup

/-- The plan is accepted because the vehicles and the visits are those of a plan that is. -/
theorem check_of_perm {plan plan' : Plan} (hplan : plan.check p = .ok ())
    (hvehicles : plan'.routes.map (·.vehicleType) = plan.routes.map (·.vehicleType))
    (hvisits : (plan'.routes.flatMap (·.visits)).Perm (plan.routes.flatMap (·.visits))) : plan'.check p = .ok () := by
  have htypes : plan'.types = plan.types := by
    have := congrArg (List.map UInt64.toNat) hvehicles
    rwa [List.map_map, List.map_map] at this
  rw [Plan.check_eq_ok_iff] at hplan ⊢
  rw [htypes]
  refine hplan.perm ?_
  rw [Plan.locations_eq, Plan.locations_eq]
  exact (hvisits.map _).symm

/-- The search between loading the plan and reading the new one off the routes. -/
theorem search_fares {ids : List RouteId} {neighbours : Array (List Nat)} {passes : Nat} {penalties : Penalties}
    (hd : Coherent p (Handles.withRoutes {} ids) d) (hids : ids.Nodup) (hfirm : ∀ {id}, (d.layout.route? id).isSome → id ∈ ids)
    (hn : Neighbourhood.Within p.numLocations neighbours) (htours : HasTours d.layout ids plan.routes)
    (shuffle : List NodeId → σ → List NodeId × σ) (s : σ) :
    FaresUnless (Overflows fun d' => Descent.Strained p ⟨neighbours, Move.defaults, penalties, passes⟩ d'.layout)
      (fun (result : Descent.Report × σ) d' => Coherent p (Handles.withRoutes {} ids) d' ∧ ∃ tours, d'.plan ids = .ok ⟨tours⟩ ∧
        tours.map (·.vehicleType) = plan.routes.map (·.vehicleType) ∧
        (tours.flatMap (·.visits)).Perm (plan.routes.flatMap (·.visits)) ∧
        plan.Costs p penalties result.1.initialCost ∧ (Plan.mk tours).Costs p penalties result.1.finalCost ∧
        result.1.finalCost + result.1.moves ≤ result.1.initialCost ∧ (result.1.moves = 0 → tours = plan.routes) ∧
        result.1.passes ≤ passes ∧ result.1.passes ≤ result.1.moves + 1)
      (Descent.run p ⟨neighbours, Move.defaults, penalties, passes⟩ shuffle s d) := by
  have hhandles : (Handles.withRoutes {} ids).routes = ids := List.append_nil ids
  refine (Descent.run_descends hn shuffle s hd).mono (fun _ _ hover => hover)
    fun result d' ⟨hd', hinitial, hfinal, hpasses, hmoving, hdescends⟩ => ?_
  have himproves := hdescends.improves fun hid => by rw [hhandles]; exact hfirm hid
  have hfirm' : ∀ {id}, (d'.layout.route? id).isSome → id ∈ ids := fun hid =>
    hfirm (by rwa [← himproves.sameDepots.isSome])
  obtain ⟨tours, htours', htypes⟩ := himproves.toKeepsRuns.hasTours htours
  refine ⟨hd', tours, htours'.plan_run hd'.seated, htypes,
    himproves.perm_visits hd.seated hids hfirm htours htours',
    htours.costs hd.seated hd.sited hd.current hids hfirm hinitial,
    htours'.costs hd'.seated hd'.sited hd'.current hids hfirm' hfinal, himproves.cost_le hinitial hfinal,
    fun hstill => ?_, hpasses, hmoving⟩
  rw [himproves.still hstill] at htours'
  exact htours'.eq htours

/-- Improving a plan gives a plan of the same vehicles for the same clients, with the costs before and after, unless
    the plan or the parameters are refused or the totals or costs of its tours overflow or its routes are too many. -/
theorem improve_ends (p : Problem) (plan : Plan) (neighbourhood : NeighbourhoodParameters) (search : SearchParameters)
    (shuffle : List NodeId → σ → List NodeId × σ) (s : σ) :
    Ends p plan neighbourhood search shuffle s (improve p plan neighbourhood search shuffle s Dispatch.empty) := by
  unfold improve
  cases hplan : plan.check p with
  | error flaw =>
    rw [bind_error (Dispatch.load_refused hplan)]
    exact .rejected hplan
  | ok _ =>
    refine Ends.bind (Dispatch.load_adds (Dispatch.coherent_empty p) hplan) (fun _ _ => .stopped hplan)
      fun ids d₁ hload ⟨hd₁, hids, _, htours, hadded, _⟩ => ?_
    have hfirm : ∀ {id}, (d₁.layout.route? id).isSome → id ∈ ids := fun {id} hid => by
      by_contra hmem
      have hnone : d₁.layout.route? id = none := hadded.route hmem
      rw [hnone] at hid
      cases hid
    rcases ofParameters_run p neighbourhood search with ⟨neighbours, hwithin, hdescent⟩ | ⟨why, hwhy, hdescent⟩
    · rw [hdescent, ofResult_ok_bind]
      refine Ends.bind (search_fares hd₁ hids hfirm hwithin htours shuffle s) (fun fault t hrun hover => ?_)
        fun result d₂ _ ⟨hd₂, tours, htours₂, hvehicles, hvisits, hinitial, hfinal, hdrop, hstill, hpasses, hmoving⟩ => ?_
      · obtain ⟨rfl, hstrained⟩ := hover
        exact .overflow hplan hload hdescent hrun hstrained
      · obtain ⟨d', hrun', hd'⟩ := releaseRoutes_run hd₂
        have haccepted : (Plan.mk tours).check p = .ok () := check_of_perm hplan hvehicles hvisits
        simp only [get_bind_run]
        rw [htours₂, ofResult_ok_bind, bind_ok hrun', haccepted]
        refine .improved hplan ⟨hvehicles, hvisits, ?_, haccepted, hinitial, hfinal, hdrop, fun hk => ?_, hpasses,
          hmoving⟩ hd'.nothing_left
        · exact hvisits.nodup_iff.mpr (nodup_visits hplan)
        · rw [hstill hk]
    · rw [hdescent]
      exact .invalid hplan hwhy

namespace Sample

/-- Both clients are in one vehicle, which is too small for them, and the other vehicle is empty. -/
def crowded : Plan := ⟨[{ visits := [1, 2] }, { visits := [] }]⟩

/-- The clients backwards in all passes. -/
def backwards (nodes : List NodeId) (n : Nat) : List NodeId × Nat := (nodes.reverse, n + 1)

end Sample

/-- One move gives each of two clients a vehicle of its own, which saves more than the way there costs. -/
theorem improve_ends_in_sample : ∃ result d,
    improve Dispatch.Sample.problem Sample.crowded {} {} Sample.backwards 0 Dispatch.empty = .ok result d ∧
    result.plan = ⟨[{ visits := [1] }, { visits := [2] }]⟩ ∧ result.report = ⟨2, 1, 65, 44⟩ ∧
    Improves Dispatch.Sample.problem {} Sample.crowded result := by
  have hresult : (Dispatch.Sample.result? (improve Dispatch.Sample.problem Sample.crowded {} {} Sample.backwards 0
      Dispatch.empty)).map (fun result => (result.plan, result.report)) =
        some (⟨[{ visits := [1] }, { visits := [2] }]⟩, ⟨2, 1, 65, 44⟩) := by decide +kernel
  obtain ⟨result, hresult, heq⟩ := Option.map_eq_some_iff.mp hresult
  obtain ⟨hplan, hreport⟩ := Prod.mk.inj heq
  have hrun := Dispatch.Sample.eq_ok hresult
  have hends := improve_ends Dispatch.Sample.problem Sample.crowded {} {} Sample.backwards 0
  rw [hrun] at hends
  cases hends with
  | improved _ h _ => exact ⟨result, _, hrun, hplan, hreport, h⟩

end Improvement
end Fleet
