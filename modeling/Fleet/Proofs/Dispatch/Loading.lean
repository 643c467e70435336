import Fleet.Proofs.Dispatch.Placing
import Fleet.Proofs.Layout.Tours
import Fleet.Proofs.Plan

/-! Loading a plan makes its tours.

    Nodes come into a route one by one at its end, each with a handle that is given up at once. While its route
    has a handle, giving up the one to a node changes no tour. -/

namespace Fleet
namespace Dispatch

open Layout DispatchM

variable {p : Problem} {h : Handles} {d d' : Dispatch} {id : RouteId} {m : NodeId} {r : Route} {location : UInt64}
  {t : Tour} {h' : Handles} {d'' : Dispatch} {ids : List RouteId} {x : NodeId}

/-! ### What is added -/

/-- `d'` has all routes and nodes of `d`, the nodes with their owners. What is new are the routes `ids`, or some of them,
    and nodes that these hold; their visits may be others than before. -/
structure Enriches (d : Dispatch) (ids : List RouteId) (d' : Dispatch) : Prop where
  route : ∀ {x}, x ∉ ids → d'.layout.route? x = d.layout.route? x
  runs : ∀ {x r}, d.layout.route? x = some r → ∃ r', d'.layout.route? x = some r' ∧ SameRun r r'
  location : ∀ {x}, (d.layout.node? x).isSome →
    (d'.layout.node? x).map (·.location) = (d.layout.node? x).map (·.location)
  owner : ∀ {x}, (d.layout.node? x).isSome → d'.owner? x = d.owner? x
  holder : ∀ {x}, (d.layout.node? x).isSome → d'.holder? x = d.holder? x
  new : ∀ {x}, d.layout.node? x = none → (d'.layout.node? x).isSome → ∃ y ∈ ids, d'.holder? x = some y

namespace Enriches

theorem refl (d : Dispatch) (ids : List RouteId) : Enriches d ids d where
  route _ := rfl
  runs {_ r} hr := ⟨r, hr, .refl r⟩
  location _ := rfl
  owner _ := rfl
  holder _ := rfl
  new hnone hsome := by
    rw [hnone] at hsome
    cases hsome

theorem isSome (h : Enriches d ids d') (hx : (d.layout.node? x).isSome) : (d'.layout.node? x).isSome := by
  have hlocation := congrArg Option.isSome (h.location hx)
  rwa [Option.isSome_map, Option.isSome_map, hx] at hlocation

theorem trans (h : Enriches d ids d') (h' : Enriches d' ids d'') : Enriches d ids d'' where
  route hx := (h'.route hx).trans (h.route hx)
  runs hr := by
    obtain ⟨r', hr', hs⟩ := h.runs hr
    obtain ⟨r'', hr'', hs'⟩ := h'.runs hr'
    exact ⟨r'', hr'', hs.trans hs'⟩
  location hx := (h'.location (h.isSome hx)).trans (h.location hx)
  owner hx := (h'.owner (h.isSome hx)).trans (h.owner hx)
  holder hx := (h'.holder (h.isSome hx)).trans (h.holder hx)
  new {x} hnone hsome := by
    cases hx : (d'.layout.node? x).isSome with
    | true =>
      rw [h'.holder hx]
      exact h.new hnone hx
    | false => exact h'.new (Option.not_isSome_iff_eq_none.mp (by simp [hx])) hsome

theorem mono {ids' : List RouteId} (h : Enriches d ids d') (hids : ids ⊆ ids') : Enriches d ids' d' where
  route hx := h.route fun hmem => hx (hids hmem)
  runs := h.runs
  location := h.location
  owner := h.owner
  holder := h.holder
  new hnone hsome := by
    obtain ⟨y, hy, hholder⟩ := h.new hnone hsome
    exact ⟨y, hids hy, hholder⟩

/-- Routes of which nothing is new have their tours. -/
theorem tour? {x : RouteId} (h : Enriches d ids d') (hl : Seated d.layout) (hx : x ∉ ids) : d'.layout.tour? x = d.layout.tour? x := by
  unfold Layout.tour?
  rw [h.route hx]
  cases hr : d.layout.route? x with
  | none => rfl
  | some r =>
    have hvisits : r.clients.map d'.layout.place = r.clients.map d.layout.place := List.map_congr_left fun m hm =>
      congrArg (Option.getD · 0) (h.location (hl.isSome_of_client hr hm))
    simp only [Option.map_some, hvisits]

end Enriches

theorem Rehandles.enriches {count : Nat} (h : Rehandles d m count d') : Enriches d ids d' where
  route _ := by rw [h.layout]
  runs {_ r} hr := ⟨r, h.layout ▸ hr, .refl r⟩
  location _ := by rw [h.layout]
  owner _ := h.owner? _
  holder _ := h.holder? _
  new hnone hsome := by
    rw [h.layout, hnone] at hsome
    cases hsome

/-- A new route comes with its two depots. -/
theorem enriches_withRoute {a b : UInt64} {l' : Layout} (hd : Entered d) (hl : Seated d.layout)
    (ho : Opens d.layout id r a b l') : Enriches d [id] (d.withRoute id l') where
  route {x} hx := (ho.route x).trans (if_neg (by simpa using hx))
  runs {x s} hs := by
    have hx : x ≠ id := fun heq => by
      rw [heq, ho.fresh] at hs
      cases hs
    exact ⟨s, (ho.route x).trans ((if_neg hx).trans hs), .refl s⟩
  location {x} hx := by
    refine (ho.location x).trans ?_
    split
    · simp_all [ho.start]
    · split
      · simp_all [ho.finish]
      · rfl
  owner _ := rfl
  holder hx := holder?_withRoute hd hl ho hx
  new {x} hnone hsome := by
    have hdepot := ho.isSome.mp hsome
    rw [hnone] at hdepot
    refine ⟨id, List.mem_singleton_self id, ?_⟩
    rw [(hd.withRoute ho).holder?_eq_some_iff ho.seated, depotOf_withRoute ho]
    exact .inr (.inr ⟨rfl, hdepot.resolve_left (by simp)⟩)

/-- A new node comes into a route. -/
theorem enriches_of_moved {d₁ : Dispatch} (hd : Coherent p h d) (hd' : Coherent p h' d')
    (hg : Gains d.layout m location d₁.layout)
    (howner : ∀ x, d₁.owner? x = if x = m then some .standalone else d.owner? x) (hm : Relocates d₁ m (.route id) d') :
    Enriches d [id] d' := by
  have hne : ∀ {x}, (d.layout.node? x).isSome → x ≠ m := fun {x} hx heq => by
    rw [heq, hg.fresh] at hx
    cases hx
  have hkept : ∀ {x}, (d.layout.node? x).isSome → d'.owner? x = d.owner? x := fun {x} hx => by
    rw [hm.owner, if_neg (hne hx), howner, if_neg (hne hx)]
  exact {
    route := fun {x} hx => by
      have hid : Owner.route id ≠ .route x := fun heq => hx (by simp_all)
      rw [hm.others (by rw [howner, if_pos rfl]; simp) hid, hg.route?]
    runs := fun {x s} hs => hm.runs.onward ((hg.route? x).trans hs)
    location := fun {x} hx => by rw [hm.runs.location, hg.node_of_ne (hne hx)]
    owner := hkept
    holder := fun {x} hx => hd.entered.holder?_congr hd.seated hd'.entered hd'.seated (hkept hx)
      fun y => (hm.runs.sameDepots y x).trans (hg.sameDepots y x)
    new := fun {x} hnone hsome => by
      have hx : x = m := by
        by_contra hx
        rw [hm.runs.isSome, hg.node_of_ne hx, hnone] at hsome
        cases hsome
      refine ⟨id, List.mem_singleton_self id, ?_⟩
      rw [hd'.entered.holder?_eq_some_iff hd'.seated, hm.owner, if_pos hx]
      exact .inl rfl }

/-! ### Nodes -/

theorem append_fares (hd : Coherent p h d) (hr : d.layout.route? id = some r) (ho : d.owner? m = some .standalone) :
    Fares (fun _ d' => Coherent p h d' ∧ Relocates d m (.route id) d' ∧ ∃ totals,
        Reroutes d.layout id { r with clients := r.clients ++ [m], totals } d'.layout)
      (append p id m d) := by
  have hlast : Spot.last.resolve (highestPosition id r.clients.length .standalone) r.clients.length =
      .ok (r.clients.length + 1) := rfl
  unfold append
  rw [put_of_resolve hr hd.entered ho hlast]
  refine (putHosted_fares hd hr ho le_rfl).mono fun _ d' ⟨hd', hm, totals, h'⟩ => ?_
  rw [List.insertIdx_length_self] at h'
  exact ⟨hd', hm, totals, h'⟩

theorem addRouteNode_fares (hd : Coherent p h d) (ht : d.layout.tour? id = some t)
    (hclient : p.isClient location.toNat = true) :
    FaresUnless (fun fault d' => fault = .overflow ∨ d'.layout.nodes.FullAt fault)
      (fun m d' => Coherent p (h.withNode m) d' ∧ Enriches d [id] d' ∧ d'.holder? m = some id ∧
        ∀ x, d'.layout.tour? x = if x = id then some { t with visits := t.visits ++ [location] } else d.layout.tour? x)
      (addRouteNode p id location d) := by
  obtain ⟨r, hr, rfl⟩ := Option.map_eq_some_iff.mp ht
  unfold addRouteNode
  rw [get_bind_run, route_eq_ok hr, ofResult_ok_bind]
  refine ((addNode_fares hd hclient).mono (fun _ _ => .inr) fun _ _ hadded => hadded).bind fun m d₁ hadded => ?_
  obtain ⟨hd₁, howner, hg⟩ := hadded
  have ho₁ : d₁.owner? m = some .standalone := (howner m).trans (if_pos rfl)
  have hr₁ : d₁.layout.route? id = some r := (hg.route? id).trans hr
  have htour₁ := (hg.tour? hd.seated id).trans ht
  rw [tour?_of_route hr₁] at htour₁
  have happend : FaresUnless (fun fault d' => fault = .overflow ∨ d'.layout.nodes.FullAt fault) _ (append p id m d₁) :=
    (FaresUnless.of_fares (append_fares hd₁ hr₁ ho₁)).mono (fun _ _ hover => .inl hover.1) fun _ _ hjoined => hjoined
  refine FaresUnless.bind (happend.tryCatch fun _ _ hlimit => ?_) fun _ d' ⟨hd', hm, totals, h'⟩ => ?_
  · rcases hlimit with rfl | ⟨-, rfl⟩ <;> rfl
  have hholder : d'.holder? m = some id := by
    rw [hd'.entered.holder?_eq_some_iff hd'.seated]
    exact .inl ((hd'.reconciled h'.route_self).mp (by simp))
  refine .ok ⟨hd', enriches_of_moved hd hd' hg howner hm, hholder, fun x => ?_⟩
  rw [h'.tour?, hg.tour? hd.seated]
  simp only [List.map_append, List.map_cons, List.map_nil, hg.place_self]
  rw [Tour.mk.inj (Option.some.inj htour₁) |>.2]

/-- Only routes that are there get a node, and only for clients. -/
theorem addRouteNode_replies (hd : Coherent p h d) (id : RouteId) (location : UInt64) :
    Replies d (fun fault d' => fault = .overflow ∨ d'.layout.nodes.FullAt fault)
      (fun m d' => Coherent p (h.withNode m) d') (addRouteNode p id location d) := by
  cases hr : d.layout.route? id with
  | none =>
    unfold addRouteNode
    rw [get_bind_run, route_eq_refused hr]
    exact .refused
  | some r =>
    by_cases hclient : p.isClient location.toNat = true
    · have hadd := addRouteNode_fares hd (tour?_of_route hr) hclient
      exact .of_fares (hadd.mono (fun _ _ hlimit => hlimit) fun _ _ h' => h'.1)
    · have hrefused : addNode p location d = .error (.refused (.notClient location.toNat)) d := by
        unfold addNode
        rw [if_neg hclient]
        rfl
      unfold addRouteNode
      rw [get_bind_run, route_eq_ok hr, ofResult_ok_bind, bind_error hrefused]
      exact .refused

/-! ### Tours -/

theorem Handles.withoutNode_withNode (h : Handles) (m : NodeId) : (h.withNode m).withoutNode m = h := by
  unfold Handles.withNode Handles.withoutNode
  rw [List.erase_cons_head]

/-- The visits of a tour come into a route that has a handle, behind those that it has. -/
theorem addVisits_fares (hid : id ∈ h.routes) {locations : List UInt64}
    (hclients : ∀ location ∈ locations, p.isClient location.toNat = true) :
    ∀ {d t}, Coherent p h d → d.layout.tour? id = some t →
      FaresUnless (Stops fun _ => True) (fun _ d' => Coherent p h d' ∧ Enriches d [id] d' ∧
          ∀ x, d'.layout.tour? x = if x = id then some { t with visits := t.visits ++ locations } else d.layout.tour? x)
        (addVisits p id locations d) := by
  induction locations with
  | nil =>
    intro d t hd ht
    refine .ok ⟨hd, .refl d [id], fun x => ?_⟩
    rw [List.append_nil]
    split
    · rename_i hx
      rw [hx, ht]
    · rfl
  | cons location locations ih =>
    intro d t hd ht
    unfold addVisits
    have hadd := addRouteNode_fares hd ht (hclients location List.mem_cons_self)
    refine (hadd.mono (fun _ _ hlimit => hlimit.elim (.overflow · trivial) .nodes) fun _ _ hadded => hadded).bind
      fun m d₁ ⟨hd₁, hadded, hholder, htour₁⟩ => ?_
    obtain ⟨d₂, hrun₂, hd₂, hdropped⟩ := releaseNode_coherent hd₁ (m := m) (List.mem_cons_self)
    rw [Handles.withoutNode_withNode] at hd₂
    have hdropped := hdropped id hholder hid
    have hlayout : d₂.layout = d₁.layout := hdropped.layout
    rw [bind_ok hrun₂]
    have ht₂ : d₂.layout.tour? id = some { t with visits := t.visits ++ [location] } := by
      rw [hlayout, htour₁, if_pos rfl]
    refine (ih (fun x hx => hclients x (List.mem_cons_of_mem _ hx)) hd₂ ht₂).mono (fun _ _ hstop => hstop)
      fun _ d' ⟨hd', hadded', htour'⟩ => ⟨hd', (hadded.trans hdropped.enriches).trans hadded', fun x => ?_⟩
    rw [htour', hlayout, htour₁]
    split
    · rw [List.append_assoc, List.singleton_append]
    · rfl

/-- The new routes `ids` have been made for the tours, one after the other, with indices from `i` on. -/
structure Adds (p : Problem) (h : Handles) (ids : List RouteId) (tours : List Tour) (i : Nat) (d d' : Dispatch) : Prop where
  coherent : Coherent p (h.withRoutes ids) d'
  nodup : ids.Nodup
  fresh : ∀ id ∈ ids, d.layout.route? id = none
  tours : HasTours d'.layout ids tours
  enriches : Enriches d ids d'
  idx : ∀ k id, ids[k]? = some id → ∃ r, d'.layout.route? id = some r ∧ r.idx = i + k

/-- One more route, made before the others. -/
theorem Adds.cons {id : RouteId} {ids : List RouteId} {r : Route} {t : Tour} {tours : List Tour} {i : Nat} {d₁ : Dispatch}
    (hadds : Adds p (h.withRoute id) ids tours (i + 1) d₁ d') (hl : Seated d₁.layout) (hadded : Enriches d [id] d₁)
    (hfresh : d.layout.route? id = none) (hr : d₁.layout.route? id = some r) (hidx : r.idx = i)
    (htour : d₁.layout.tour? id = some t) : Adds p h (id :: ids) (t :: tours) i d d' := by
  have hid : id ∉ ids := fun hmem => by
    rw [hadds.fresh id hmem] at hr
    cases hr
  exact {
    coherent := hadds.coherent.perm List.perm_middle (.refl _)
    nodup := hadds.nodup.cons hid
    fresh := fun x hx => by
      rcases List.mem_cons.mp hx with rfl | hx
      · exact hfresh
      · have hne : x ∉ [id] := fun hmem => hid (List.mem_singleton.mp hmem ▸ hx)
        rw [← hadded.route hne]
        exact hadds.fresh x hx
    tours := .cons (by rw [hadds.enriches.tour? hl hid, htour]) hadds.tours
    enriches := (hadded.mono (by simp)).trans (hadds.enriches.mono fun _ => List.mem_cons_of_mem _)
    idx := fun k x hk => by
      cases k with
      | zero =>
        cases hk
        obtain ⟨r', hr', hs'⟩ := hadds.enriches.runs hr
        exact ⟨r', hr', by rw [hs'.idx, hidx, Nat.add_zero]⟩
      | succ k =>
        obtain ⟨r', hr', hidx'⟩ := hadds.idx k x hk
        exact ⟨r', hr', by omega⟩ }

/-- Each tour gets a route of its own, and nothing else changes. -/
theorem addTours_fares {tours : List Tour} (hpossible : ∀ t ∈ tours, t.Possible p) :
    ∀ {i : Nat} {h : Handles} {d : Dispatch}, Coherent p h d →
      FaresUnless (Stops fun _ => True) (fun ids d' => Adds p h ids tours i d d') (addTours p (tours.zipIdx i) d) := by
  induction tours with
  | nil =>
    intro i h d hd
    exact .ok ⟨hd, List.nodup_nil, by simp, .nil, .refl d [], by simp⟩
  | cons t tours ih =>
    intro i h d hd
    obtain ⟨⟨v, hv⟩, hclients⟩ := hpossible t List.mem_cons_self
    rw [List.zipIdx_cons]
    unfold addTours
    refine (addRoute_fares hd hv i).bind fun id d₁ ⟨hd₁, l₁, r, heq, hidx, hvehicle, ho⟩ => ?_
    have hadded₁ : Enriches d [id] d₁ := heq ▸ enriches_withRoute hd.entered hd.seated ho
    have hr₁ : d₁.layout.route? id = some r := by
      rw [heq]
      exact (ho.route id).trans (if_pos rfl)
    have htour₁ : d₁.layout.tour? id = some ⟨t.vehicleType, []⟩ := by
      rw [heq]
      exact (ho.tour? hd.seated id).trans (by rw [if_pos rfl, hvehicle])
    refine (addVisits_fares (List.mem_cons_self) hclients hd₁ htour₁).bind fun _ d₂ ⟨hd₂, hadded₂, htour₂⟩ => ?_
    rw [List.nil_append] at htour₂
    have htour : d₂.layout.tour? id = some t := (htour₂ id).trans (if_pos rfl)
    obtain ⟨r₂, hr₂, hs₂⟩ := hadded₂.runs hr₁
    refine (ih (fun t' ht' => hpossible t' (List.mem_cons_of_mem _ ht')) hd₂).bind fun ids d' hadds => ?_
    exact .ok (hadds.cons hd₂.seated (hadded₁.trans hadded₂) ho.fresh hr₂ (hs₂.idx.trans hidx) htour)

/-! ### Plans -/

/-- A plan that is accepted is loaded: each of its tours gets a route of its own. -/
theorem load_fares {plan : Plan} (hd : Coherent p h d) (hplan : plan.check p = .ok ()) :
    FaresUnless (Stops fun _ => True) (fun ids d' => Adds p h ids plan.routes 0 d d') (load p plan d) := by
  unfold load
  rw [hplan]
  exact addTours_fares (Plan.check_eq_ok_iff.mp hplan).possible hd

/-- A plan that is not accepted is refused, with its flaw. -/
theorem load_refused {plan : Plan} {flaw : Plan.Flaw} (hplan : plan.check p = .error flaw) :
    load p plan d = .error (.refused (.plan flaw)) d := by
  unfold load
  rw [hplan]
  rfl

theorem load_replies (hd : Coherent p h d) (plan : Plan) :
    Replies d (Stops fun _ => True) (fun ids d' => Coherent p (h.withRoutes ids) d') (load p plan d) := by
  cases hplan : plan.check p with
  | error flaw =>
    rw [load_refused hplan]
    exact .refused
  | ok _ => exact .of_fares ((load_fares hd hplan).mono (fun _ _ hstop => hstop) fun _ _ h' => h'.coherent)

end Dispatch
end Fleet
