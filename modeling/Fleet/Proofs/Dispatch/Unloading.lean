import Fleet.Proofs.Dispatch.Faults
import Fleet.Proofs.Improvement

/-! A plan that is loaded can be read back, and it goes without a trace.

    Loading only adds routes and nodes that these hold. Each of the new routes has one handle, so that it goes when that
    is given up, in whatever order; after the last one nothing is left that was not there before. -/

namespace Fleet

namespace Pool

variable {α : Type} {s t : Pool α}

/-- Pools that reach the same by all keys have as many values. -/
theorem WellFormed.size_congr (hs : s.WellFormed) (ht : t.WellFormed) (hget : ∀ k, t.get? k = s.get? k) :
    t.size = s.size := by
  rw [hs.size_eq, ht.size_eq]
  refine List.Perm.length_eq ((List.perm_ext_iff_of_nodup (nodup_entries t).of_map (nodup_entries s).of_map).mpr fun e => ?_)
  rw [mem_entries, mem_entries, hget]

end Pool

/-- Tables that bind the same keys have the same size. -/
theorem Table.size_congr {ι α : Type} [Keyed ι] {t t' : Table ι α}
    (h : ∀ k, (t'.find? k).isSome = (t.find? k).isSome) : t'.size = t.size := by
  have hkeys : t'.keys.Perm t.keys := (List.perm_ext_iff_of_nodup t'.nodup_keys t.nodup_keys).mpr fun k => by
    rw [mem_keys, mem_keys, ← Option.isSome_iff_exists, ← Option.isSome_iff_exists, h]
  have hlength := hkeys.length_eq
  unfold keys at hlength
  rwa [List.length_map, List.length_map] at hlength

namespace Dispatch

open Layout DispatchM Improvement

variable {p : Problem} {h : Handles} {d d₁ d₂ d' : Dispatch} {ids : List RouteId} {id : RouteId} {m : NodeId} {plan : Plan}

/-! ### Everything that was there before -/

/-- What was there before has not changed. -/
structure Retains (d d' : Dispatch) : Prop where
  routes : ∀ {id r}, d.layout.route? id = some r → d'.layout.route? id = some r
  nodes : ∀ {m n}, d.layout.node? m = some n → d'.layout.node? m = some n
  owners : ∀ {m}, (d.layout.node? m).isSome → d'.owner? m = d.owner? m

/-- Nothing is there but what was there before, and that has not changed. -/
structure Restores (d d' : Dispatch) : Prop where
  routes : ∀ id, d'.layout.route? id = d.layout.route? id
  nodes : ∀ m, d'.layout.node? m = d.layout.node? m
  numRoutes : d'.numRoutes = d.numRoutes
  numNodes : d'.layout.nodes.size = d.layout.nodes.size
  ownership : d'.ownership = d.ownership
  host : d'.host = d.host
  handles : ∀ m, d'.handleCount m = d.handleCount m
  stores : ∀ id s, d.stores.find? id = some s → ∃ s', d'.stores.find? id = some s' ∧
    s'.routeHandles = s.routeHandles ∧ s'.nodeHandles = s.nodeHandles ∧ ∀ m, m ∈ s'.nodes ↔ m ∈ s.nodes

/-- A new route does not hold what was there before. -/
theorem Enriches.not_held (hadded : Enriches d ids d') (hd : Coherent p h d)
    (hfresh : ∀ id ∈ ids, d.layout.route? id = none) (hid : id ∈ ids) (hm : (d.layout.node? m).isSome) :
    d'.holder? m ≠ some id := by
  intro hholder
  rw [hadded.holder hm] at hholder
  obtain ⟨s, hs⟩ := hd.entered.store_of_holder hd.seated hholder
  obtain ⟨r, hr⟩ := hd.entered.route_of_store hs
  rw [hfresh id hid] at hr
  cases hr

/-- What was there before stands where it stood. -/
theorem Enriches.node? {h' : Handles} (hadded : Enriches d ids d') (hd : Coherent p h d) (hd' : Coherent p h' d')
    (hfresh : ∀ id ∈ ids, d.layout.route? id = none) (hm : (d.layout.node? m).isSome) :
    d'.layout.node? m = d.layout.node? m := by
  refine hd.seated.node?_eq hd'.seated (hadded.location hm) fun id i => ?_
  by_cases hid : id ∈ ids
  · refine iff_of_false ?_ ?_
    · rintro ⟨r', hr', hi⟩
      exact hadded.not_held hd hfresh hid hm ((hd'.holder?_iff hr').mpr (List.mem_of_getElem? hi))
    · rintro ⟨r, hr, -⟩
      rw [hfresh id hid] at hr
      cases hr
  · unfold StandsAt
    rw [hadded.route hid]

theorem Enriches.retains {h' : Handles} (hadded : Enriches d ids d') (hd : Coherent p h d) (hd' : Coherent p h' d')
    (hfresh : ∀ id ∈ ids, d.layout.route? id = none) : Retains d d' where
  routes {id r} hr := by
    rw [hadded.route, hr]
    intro hid
    rw [hfresh id hid] at hr
    cases hr
  nodes {m n} hn := (hadded.node? hd hd' hfresh (by simp [hn])).trans hn
  owners hm := hadded.owner hm

/-- Where nothing has been added, everything is as before. -/
theorem Enriches.restores (hadded : Enriches d [] d') (hd : Coherent p h d) (hd' : Coherent p h d') : Restores d d' := by
  have hroutes : ∀ id, d'.layout.route? id = d.layout.route? id := fun id => hadded.route List.not_mem_nil
  have hnodes : ∀ m, d'.layout.node? m = d.layout.node? m := fun m => by
    cases hm : d.layout.node? m with
    | some n => exact (hadded.node? hd hd' (by simp) (by simp [hm])).trans hm
    | none =>
      by_contra hsome
      obtain ⟨y, hy, -⟩ := hadded.new hm (Option.isSome_iff_ne_none.mpr hsome)
      cases hy
  have howners : ∀ m, d'.owner? m = d.owner? m := fun m => by
    cases hm : d.layout.node? m with
    | some n => exact hadded.owner (by simp [hm])
    | none => rw [hd.entered.owner?_of_fresh hm, hd'.entered.owner?_of_fresh ((hnodes m).trans hm)]
  exact {
    routes := hroutes
    nodes := hnodes
    numRoutes := Table.size_congr fun id => by rw [hd'.entered.store, hd.entered.store, hroutes]
    numNodes := hd.seated.nodes.size_congr hd'.seated.nodes fun k => hnodes ⟨k⟩
    ownership := congrArg Ownership.mk (Table.eq_of_find? howners)
    host := Table.eq_of_find? fun m => Option.ext fun () => by
      have hcontains : d'.host.contains m = true ↔ d.host.contains m = true := by
        rw [hd'.entered.host, hd.entered.host, howners]
      rwa [Table.contains_iff, Table.contains_iff, Unique.exists_iff, Unique.exists_iff] at hcontains
    handles := fun m => by rw [hd'.held.nodes, hd.held.nodes]
    stores := fun id s hs => by
      obtain ⟨r, hr⟩ := hd.entered.route_of_store hs
      obtain ⟨s', hs'⟩ := hd'.entered.store_of_route ((hroutes id).trans hr)
      refine ⟨s', hs', ?_, ?_, fun m => by rw [hd'.entered.owned hs', hd.entered.owned hs, howners]⟩
      · rw [← routeHandles_of_store hs', ← routeHandles_of_store hs, hd'.held.routes, hd.held.routes]
      · rw [hd'.booked.nodeHandles_eq hs', hd.booked.nodeHandles_eq hs]
        exact List.countP_congr fun m hm => by rw [hadded.holder (hd.isSome_node hm)] }

/-! ### Giving the handles up -/

/-- The handles to new routes are the only ones to them, and there are none to the nodes that they hold. -/
theorem Enriches.unheld (hadded : Enriches d ids d₁) (hd : Coherent p h d) (hfresh : ∀ id ∈ ids, d.layout.route? id = none)
    (hid : id ∈ ids) : id ∉ h.routes ∧ ∀ x ∈ h.nodes, d₁.holder? x ≠ some id := by
  constructor
  · intro hheld
    have hsome := hd.isSome_route hheld
    rw [hfresh id hid] at hsome
    cases hsome
  · exact fun x hx => hadded.not_held hd hfresh hid (hd.isSome_node hx)

theorem Enriches.withStore {s : Store} (hadded : Enriches d ids d₁) : Enriches d ids (d₁.withStore id s) :=
  ⟨hadded.route, hadded.runs, hadded.location, hadded.owner, hadded.holder, hadded.new⟩

/-- A new route goes with all that has come with it. -/
theorem Enriches.dissolves {h₁ : Handles} {idle : List RouteId} {s : Store} {r : Route}
    (hadded : Enriches d (id :: ids) d₁) (hd : Coherent p h d) (hfresh : ∀ x ∈ id :: ids, d.layout.route? x = none)
    (hd₁ : CoherentBut p h₁ idle [] d₁) (hs : d₁.stores.find? id = some s) (hr : d₁.layout.route? id = some r)
    (hgone : Dissolves d₁ id r s d₂) (hinherits : Inherits d₁.layout d₂.layout) : Enriches d ids d₂ := by
  have hnode : ∀ {x}, (d₂.layout.node? x).isSome ↔ (d₁.layout.node? x).isSome ∧ d₁.holder? x ≠ some id :=
    Dissolves.isSome_node hd₁.entered hd₁.seated hs hr hgone
  have hholder : ∀ {x}, d₁.holder? x ≠ some id → d₂.holder? x = d₁.holder? x :=
    Dissolves.holder?_of_ne hd₁.entered hd₁.seated hs hr hgone
  have hother : ∀ {x}, (d.layout.node? x).isSome → d₁.holder? x ≠ some id :=
    hadded.not_held hd hfresh List.mem_cons_self
  have hroute : ∀ {x}, x ≠ id → d₂.layout.route? x = d₁.layout.route? x := fun hx =>
    (hgone.route _).trans (if_neg hx)
  exact {
    route := fun {x} hx => by
      by_cases hxid : x = id
      · rw [hgone.route, if_pos hxid, hxid, hfresh id List.mem_cons_self]
      · rw [hroute hxid, hadded.route (by simp [hxid, hx])]
    runs := fun {x r} hx => by
      obtain ⟨r', hr', hs'⟩ := hadded.runs hx
      refine ⟨r', (hroute ?_).trans hr', hs'⟩
      rintro rfl
      rw [hfresh x List.mem_cons_self] at hx
      cases hx
    location := fun {x} hx => by
      obtain ⟨n₂, hn₂⟩ := Option.isSome_iff_exists.mp (hnode.mpr ⟨hadded.isSome hx, hother hx⟩)
      obtain ⟨n₁, hn₁, hlocation⟩ := hinherits.node x n₂ hn₂
      rw [← hadded.location hx, hn₂, hn₁, Option.map_some, Option.map_some, hlocation]
    owner := fun {x} hx => by
      have hfree := mt (Dissolves.held_iff hd₁.entered hd₁.seated hs hr).mp (hother hx)
      rw [hgone.owner, if_neg (not_or.mp hfree).1]
      exact hadded.owner hx
    holder := fun hx => (hholder (hother hx)).trans (hadded.holder hx)
    new := fun {x} hnone hsome => by
      obtain ⟨hlive, hfree⟩ := hnode.mp hsome
      obtain ⟨y, hy, hheld⟩ := hadded.new hnone hlive
      refine ⟨y, (List.mem_cons.mp hy).resolve_left ?_, (hholder hfree).trans hheld⟩
      rintro rfl
      exact hfree hheld }

/-- A new route goes when the handle to it is given up. -/
theorem Enriches.release (hadded : Enriches d (id :: ids) d₁) (hd : Coherent p h d)
    (hd₁ : Coherent p (h.withRoutes (id :: ids)) d₁) (hnodup : (id :: ids).Nodup)
    (hfresh : ∀ x ∈ id :: ids, d.layout.route? x = none) :
    ∃ d₂, releaseRoute id d₁ = .ok () d₂ ∧ Coherent p (h.withRoutes ids) d₂ ∧ Enriches d ids d₂ := by
  have hheld : id ∈ (h.withRoutes (id :: ids)).routes := List.mem_cons_self
  obtain ⟨d₂, s, hrun, hd₂, hbut, hretires⟩ := releaseRoute_run hd₁ hheld
  rw [Handles.withoutRoute_withRoutes] at hd₂ hbut
  refine ⟨d₂, hrun, hd₂, ?_⟩
  cases hretires with
  | stays =>
    -- The route would have to be kept by something else.
    have hunheld := hadded.unheld hd hfresh List.mem_cons_self
    rcases hd₂.isSome_route_iff.mp (hd₁.isSome_route hheld) with hmem | ⟨x, hx, hholder⟩
    · exact absurd hmem (List.not_mem_append (List.nodup_cons.mp hnodup).1 hunheld.1)
    · exact absurd hholder (hunheld.2 x hx)
  | goes hs hr hidle hgone =>
    have hsheds : Sheds d₁ d₂ := (releaseRoute_keeps id).of_ok hrun
    exact hadded.withStore.dissolves hd hfresh hbut hs hr hgone hsheds.inherits

/-- Giving up the handles to all new routes leaves nothing of them. -/
theorem Enriches.release_all (hd : Coherent p h d) {ids : List RouteId} : ∀ {d₁ : Dispatch}, Enriches d ids d₁ →
    Coherent p (h.withRoutes ids) d₁ → ids.Nodup → (∀ id ∈ ids, d.layout.route? id = none) →
    ∃ d₂, releaseRoutes ids d₁ = .ok () d₂ ∧ Restores d d₂ := by
  induction ids with
  | nil => exact fun {d₁} hadded hd₁ _ _ => ⟨d₁, rfl, hadded.restores hd hd₁⟩
  | cons id ids ih =>
    intro d₁ hadded hd₁ hnodup hfresh
    obtain ⟨d₂, hrun, hd₂, hadded₂⟩ := hadded.release hd hd₁ hnodup hfresh
    obtain ⟨d', hrun', hrestores⟩ := ih hadded₂ hd₂ (List.nodup_cons.mp hnodup).2 fun x hx =>
      hfresh x (List.mem_cons_of_mem _ hx)
    refine ⟨d', ?_, hrestores⟩
    unfold releaseRoutes
    rw [bind_ok hrun, hrun']

/-! ### Loading -/

/-- The plan can be read off the new routes `ids`, which are in order and kept by their handles only. What was there before
    is still there, and it is all that is left when these handles have been given up, in whatever order. -/
structure Loads (plan : Plan) (d : Dispatch) (ids : List RouteId) (d' : Dispatch) : Prop where
  length : ids.length = plan.routes.length
  plan : d'.plan ids = .ok plan
  fresh : ids.Nodup ∧ ∀ id ∈ ids, d.layout.route? id = none
  held : ∀ k id, ids[k]? = some id → ∃ r s, d'.layout.route? id = some r ∧ r.idx = k ∧ d'.isReconciled id = .ok true ∧
    d'.stores.find? id = some s ∧ s.routeHandles = 1 ∧ s.nodeHandles = 0
  retains : Retains d d'
  restores : ∀ order : List RouteId, order.Perm ids → ∃ d'', releaseRoutes order d' = .ok () d'' ∧ Restores d d''

/-- In every state of a clean run a plan is loaded if it is accepted, unless a total overflows or there is no slot for a
    route or a node, and refused otherwise. -/
theorem loads_of_reachable (hr : Reachable p h d) (plan : Plan) :
    (∀ flaw, plan.check p = .error flaw → load p plan d = .error (.refused (.plan flaw)) d) ∧
    (plan.check p = .ok () →
      FaresUnless (Stops (Layout.Strained p)) (fun ids d' => Loads plan d ids d') (load p plan d)) := by
  have hd := hr.coherent
  refine ⟨fun flaw hplan => load_refused hplan, fun hplan => ?_⟩
  refine (load_adds hd hplan).mono (fun _ _ hstop => hstop) fun ids d' hadds => ?_
  obtain ⟨hd', hnodup, hfresh, htours, hadded, hidxs⟩ := hadds
  exact {
    length := htours.length_eq
    plan := htours.plan_run hd'.seated
    fresh := ⟨hnodup, hfresh⟩
    held := fun k id hk => by
      obtain ⟨r, hr, hidx⟩ := hidxs k id hk
      rw [Nat.zero_add] at hidx
      have hid := List.mem_of_getElem? hk
      obtain ⟨s, hs⟩ := hd'.entered.store_of_route hr
      obtain ⟨hroute, hnodes⟩ := hadded.unheld hd hfresh hid
      refine ⟨r, s, hr, hidx, hd'.isReconciled hr, hs, ?_, ?_⟩
      · rw [← routeHandles_of_store hs, hd'.held.routes]
        refine (List.count_append).trans ?_
        rw [List.count_eq_one_of_mem hnodup hid, List.count_eq_zero_of_not_mem hroute]
      · rw [hd'.booked.nodeHandles_eq hs, List.countP_eq_zero]
        exact fun x hx => by simpa using hnodes x hx
    retains := hadded.retains hd hd' hfresh
    restores := fun order hperm => by
      have hd'' : Coherent p (h.withRoutes order) d' := hd'.perm (hperm.symm.append_right _) (.refl _)
      exact (hadded.mono hperm.symm.subset).release_all hd hd'' (hperm.nodup_iff.mpr hnodup) fun id hid =>
        hfresh id (hperm.subset hid) }

/-- The plan of the sample is loaded once more, next to the routes that it has already. -/
theorem loads_in_sample : Reachable Sample.problem Sample.handles Sample.dispatch ∧ ∃ d',
    load Sample.problem Sample.plan Sample.dispatch = .ok [⟨⟨2, 0⟩⟩, ⟨⟨3, 0⟩⟩] d' ∧
    Loads Sample.plan Sample.dispatch [⟨⟨2, 0⟩⟩, ⟨⟨3, 0⟩⟩] d' ∧
    ∃ d'', releaseRoutes [⟨⟨3, 0⟩⟩, ⟨⟨2, 0⟩⟩] d' = .ok () d'' ∧ Restores Sample.dispatch d'' := by
  obtain ⟨d', hrun⟩ : ∃ d', load Sample.problem Sample.plan Sample.dispatch = .ok [⟨⟨2, 0⟩⟩, ⟨⟨3, 0⟩⟩] d' :=
    ⟨_, Sample.eq_ok (by decide +kernel)⟩
  have hplan : Sample.plan.check Sample.problem = .ok () := Sample.eq_ok_of_toOption (by decide +kernel)
  have hloads := (loads_of_reachable Sample.reachable Sample.plan).2 hplan
  rw [hrun] at hloads
  cases hloads with
  | ok hloads => exact ⟨Sample.reachable, d', hrun, hloads, hloads.restores _ (.swap _ _ _)⟩

end Dispatch
end Fleet
