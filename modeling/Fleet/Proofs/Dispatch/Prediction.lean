import Fleet.Proofs.Dispatch.Runs

/-! A move does what was predicted of it.

    The prediction splices locations, and making the move takes nodes out of their routes and puts them into
    others one by one; both come to the clients that the rule of the move gives. -/

namespace Fleet
namespace Dispatch

open Layout Move

variable {p : Problem} {penalties : Penalties} {h : Handles} {d : Dispatch} {l l' : Layout} {move : Move} {u v : NodeId}
  {a b : RouteId} {ra rb : Route} {i j : Nat} {c delta : Int}

/-- A route costs `c`, by the totals kept with it and by its tour computed from scratch. -/
structure Costs (p : Problem) (penalties : Penalties) (l : Layout) (r : Route) (c : Int) : Prop where
  kept : penalties.cost p r.vehicleType.toNat r.totals = .ok c
  afresh : penalties.costOfTour p r.vehicleType.toNat (l.locations r) = .ok c

theorem Costs.of_totals {r : Route} (ht : Totals.ofTour p r.vehicleType.toNat (l.locations r) = .ok r.totals)
    (hc : penalties.cost p r.vehicleType.toNat r.totals = .ok c) : Costs p penalties l r c := by
  refine ⟨hc, ?_⟩
  unfold Penalties.costOfTour
  rw [ht]
  exact hc

/-- The routes `a` and `b` are rerouted by the rule of the move, and the sum of their costs changes by `delta`. -/
structure Fulfils (p : Problem) (penalties : Penalties) (move : Move) (l : Layout) (a : RouteId) (ra : Route) (i : Nat)
    (b : RouteId) (rb : Route) (j : Nat) (delta : Int) (l' : Layout) (ra' rb' : Route) : Prop where
  routes : ReroutesBoth l a ra' b rb' l'
  clients : (ra'.clients, rb'.clients) = move.newClients ra.clients rb.clients i j
  runs : SameRun ra ra' ∧ SameRun rb rb'
  costs : ∃ oldU oldV newU newV, Costs p penalties l ra oldU ∧ Costs p penalties l rb oldV ∧
    Costs p penalties l' ra' newU ∧ Costs p penalties l' rb' newV ∧ delta = newU + newV - (oldU + oldV)

/-- What was predicted comes true, and nothing overflows that did not overflow in the prediction. -/
theorem perform_fulfils (hl : Seated l) (hc : Current p l) (hm : AppliesAt move l u v a ra i b rb j)
    (hdelta : move.costChange p penalties l u v = .ok delta) :
    ∃ l' ra' rb', move.perform p u v l = .ok (a, b) l' ∧ Fulfils p penalties move l a ra i b rb j delta l' ra' rb' := by
  obtain ⟨totalsU, totalsV, oldU, oldV, newU, newV, hU, hV, holdU, holdV, hnewU, hnewV, hsum⟩ :=
    costChange_eq_ok hl hm hdelta
  obtain ⟨l', hrun, hr⟩ := perform_run hl hm hU hV
  refine ⟨l', { (move.newRoutes ra rb i j).1 with totals := totalsU }, { (move.newRoutes ra rb i j).2 with totals := totalsV },
    hrun, hr, rfl, ⟨⟨rfl, rfl, rfl, rfl⟩, ⟨rfl, rfl, rfl, rfl⟩⟩, oldU, oldV, newU, newV, ?_, ?_, ?_, ?_, hsum⟩
  · exact .of_totals (hc.totals hm.left) holdU
  · exact .of_totals (hc.totals hm.right) holdV
  · exact .of_totals ((congrArg _ (hr.locations _)).trans hU) hnewU
  · exact .of_totals ((congrArg _ (hr.locations _)).trans hV) hnewV

/-- A move that is refused does not apply. -/
theorem not_applies_of_refused {why : Refusal} (hl : Seated l) (hs : Sited p l)
    (hrun : move.perform p u v l = .error (.refused why) l') : ¬Applies move l u v := by
  rintro ⟨a, ra, i, b, rb, j, hm⟩
  have h := perform_fares (p := p) hl hs hm
  rw [hrun] at h
  cases h

theorem applies_iff_sites? (hl : Seated l) : Applies move l u v ↔ ∃ sites, move.sites? l u v = .ok (some sites) := by
  constructor
  · rintro ⟨a, ra, i, b, rb, j, hm⟩
    exact ⟨_, sites?_of_appliesAt hl hm⟩
  · rintro ⟨sites, hsites⟩
    by_contra hm
    rcases sites?_of_not_applies hl hm with hnone | ⟨-, hover⟩
    · rw [hnone] at hsites
      cases hsites
    · rw [hover] at hsites
      cases hsites

theorem sites?_of_refused {why : Refusal} (hl : Seated l) (hs : Sited p l)
    (hrun : move.perform p u v l = .error (.refused why) l') : move.sites? l u v = .ok none := by
  rcases sites?_of_not_applies hl (not_applies_of_refused hl hs hrun) with hnone | ⟨-, hover⟩
  · exact hnone
  · rw [perform_of_overflow hover] at hrun
    cases hrun

/-- The test of a move fails only by an overflow, and only for sizes that no route comes near to. -/
theorem sites?_eq_error {fault : Fault} (hl : Seated l) (hsites : move.sites? l u v = .error fault) :
    fault = .overflow ∧ Oversized move l u v := by
  rcases sites?_cases hl move u v with ⟨a, ra, i, b, rb, j, hm⟩ | ⟨-, -, hnone⟩ | ⟨-, hsize, hover⟩
  · rw [sites?_of_appliesAt hl hm] at hsites
    cases hsites
  · rw [hnone] at hsites
    cases hsites
  · rw [hover] at hsites
    cases hsites
    exact ⟨rfl, hsize⟩

/-- In every state of a clean run a move is refused exactly if it does not apply, and then no change is predicted. If
    it applies and the prediction does not overflow, the move is made, its routes have the clients that its rule
    gives, and their cost has changed by what was predicted. Whether it applies cannot be told only of an exchange that is
    huge: then both the prediction and the move overflow. -/
theorem prediction_of_reachable (hr : Reachable p h d) (move : Move) (u v : NodeId) (penalties : Penalties) :
    ((∃ why l', move.perform p u v d.layout = .error (.refused why) l') ↔ move.sites? d.layout u v = .ok none) ∧
    (move.sites? d.layout u v = .ok none → move.costChange p penalties d.layout u v = .ok 0) ∧
    ((∃ sites, move.sites? d.layout u v = .ok (some sites)) ↔ Applies move d.layout u v) ∧
    (∀ fault, move.sites? d.layout u v = .error fault → fault = .overflow ∧ move.IsHuge ∧
      move.perform p u v d.layout = .error .overflow d.layout ∧
      move.costChange p penalties d.layout u v = .error .overflow) ∧
    ∀ a ra i b rb j delta, AppliesAt move d.layout u v a ra i b rb j →
      move.costChange p penalties d.layout u v = .ok delta →
      ∃ l' ra' rb', move.perform p u v d.layout = .ok (a, b) l' ∧
        Fulfils p penalties move d.layout a ra i b rb j delta l' ra' rb' := by
  have hd := hr.coherent
  refine ⟨⟨?_, fun hnone => ⟨_, _, perform_of_none hnone⟩⟩, costChange_of_none, (applies_iff_sites? hd.seated).symm,
    fun fault hsites => ?_, fun a ra i b rb j delta hm hdelta => ?_⟩
  · rintro ⟨why, l', hrun⟩
    exact sites?_of_refused hd.seated hd.sited hrun
  · obtain ⟨rfl, hsize⟩ := sites?_eq_error hd.seated hsites
    exact ⟨rfl, hsize.isHuge hd.seated, perform_of_overflow hsites, costChange_of_overflow hsites⟩
  · exact perform_fulfils hd.seated hd.current hm hdelta

/-- The client of the second route of the sample goes behind the client of the first. -/
theorem prediction_in_sample :
    ∃ l' ra rb ra' rb', Reachable Sample.problem Sample.handles Sample.dispatch ∧
      Move.perform Sample.problem (.exchange 1 0 (by decide) (by decide)) ⟨⟨5, 0⟩⟩ ⟨⟨2, 0⟩⟩ Sample.dispatch.layout =
        .ok (⟨⟨1, 0⟩⟩, ⟨⟨0, 0⟩⟩) l' ∧
      Fulfils Sample.problem ⟨20, 20⟩ (.exchange 1 0 (by decide) (by decide)) Sample.dispatch.layout ⟨⟨1, 0⟩⟩ ra 1
        ⟨⟨0, 0⟩⟩ rb 1 21 l' ra' rb' := by
  have hroute : ∀ (id : RouteId) (visits clients : List NodeId),
      ((Sample.dispatch.layout.route? id).map fun r => (r.visits, r.clients)) = some (visits, clients) →
      ∃ r, Sample.dispatch.layout.route? id = some r ∧ r.visits = visits ∧ r.clients = clients := fun _ _ _ hid => by
    obtain ⟨r, hr, heq⟩ := Option.map_eq_some_iff.mp hid
    exact ⟨r, hr, congrArg Prod.fst heq, congrArg Prod.snd heq⟩
  obtain ⟨ra, hra, hvisitsU, hclientsU⟩ := hroute ⟨⟨1, 0⟩⟩ [⟨⟨3, 0⟩⟩, ⟨⟨5, 0⟩⟩, ⟨⟨4, 0⟩⟩] [⟨⟨5, 0⟩⟩]
    (by decide +kernel)
  obtain ⟨rb, hrb, hvisitsV, hclientsV⟩ := hroute ⟨⟨0, 0⟩⟩ [⟨⟨0, 0⟩⟩, ⟨⟨2, 0⟩⟩, ⟨⟨1, 0⟩⟩] [⟨⟨2, 0⟩⟩]
    (by decide +kernel)
  have hdelta : Move.costChange Sample.problem ⟨20, 20⟩ Sample.dispatch.layout (.exchange 1 0 (by decide) (by decide))
      ⟨⟨5, 0⟩⟩ ⟨⟨2, 0⟩⟩ = .ok 21 := Sample.eq_ok_of_toOption (by decide +kernel)
  have hm : AppliesAt (.exchange 1 0 (by decide) (by decide)) Sample.dispatch.layout ⟨⟨5, 0⟩⟩ ⟨⟨2, 0⟩⟩ ⟨⟨1, 0⟩⟩ ra 1
      ⟨⟨0, 0⟩⟩ rb 1 :=
    ⟨⟨by decide, hra, hrb, by rw [hvisitsU]; rfl, by rw [hvisitsV]; rfl⟩, by rw [hclientsU, hclientsV]; rfl⟩
  obtain ⟨l', ra', rb', hrun, hfulfils⟩ := (prediction_of_reachable Sample.reachable _ _ _ _).2.2.2.2 _ _ _ _ _ _ _ hm hdelta
  exact ⟨l', ra, rb, ra', rb', Sample.reachable, hrun, hfulfils⟩

end Dispatch
end Fleet
