import Fleet.Proofs.Dispatch.Teardown

/-! Making routes and nodes and giving up the handles to them keeps everything in order. -/

namespace Fleet
namespace Dispatch

open Layout DispatchM

variable {p : Problem} {h h' : Handles} {idle idle' : List RouteId} {d d' : Dispatch} {id : RouteId} {m x : NodeId}
  {s s' : Store} {r : Route}

/-! ### Handles to routes -/

theorem Entered.withStore (hd : Entered d) (hs : d.stores.find? id = some s) (hnodes : s'.nodes = s.nodes) :
    Entered (d.withStore id s') where
  store y := by
    rw [find?_withStore, ← show (d.stores.find? y).isSome = ((d.withStore id s').layout.route? y).isSome from hd.store y]
    split
    · rename_i hy
      rw [hy, hs]
      rfl
    · rfl
  nodup {y t} ht := by
    rw [find?_withStore] at ht
    split at ht
    · cases ht
      exact hnodes ▸ hd.nodup hs
    · exact hd.nodup ht
  owned {y t x} ht := by
    rw [find?_withStore] at ht
    split at ht
    · rename_i hy
      cases ht
      rw [hnodes, hy]
      exact hd.owned hs
    · exact hd.owned ht
  owner {y x} hx := by
    rw [find?_withStore]
    split
    · rfl
    · exact hd.owner hx
  host := hd.host
  live := hd.live
  depot := hd.depot

/-- Another number of handles to a route. -/
theorem coherent_routeHandles {count : Nat} (hd : CoherentBut p h idle [] d) (hs : d.stores.find? id = some s)
    (hnodes : h'.nodes = h.nodes) (hroutes : ∀ y, h'.routes.count y = if y = id then count else h.routes.count y)
    (hidle : idle ⊆ idle') (hcount : count = 0 → id ∈ idle') :
    CoherentBut p h' idle' [] (d.withStore id { s with routeHandles := count }) where
  seated := hd.seated
  sited := hd.sited
  current := hd.current
  entered := hd.entered.withStore hs rfl
  reconciled := hd.reconciled
  counted := {
    handle := hd.counted.handle
    counted := fun {y t} ht => by
      rw [find?_withStore] at ht
      split at ht
      · rename_i hy
        cases ht
        rw [hy]
        show s.nodeHandles = d.countHandles id
        exact hd.counted.counted hs
      · exact hd.counted.counted ht }
  kept := hd.kept
  held := {
    routes := fun y => by
      rw [hroutes, ← hd.held.routes]
      unfold routeHandles
      rw [find?_withStore]
      split <;> rfl
    nodes := fun x => by
      rw [hnodes]
      exact hd.held.nodes x }
  busy {y t} ht hy := by
    rw [find?_withStore] at ht
    split at ht
    · rename_i heq
      cases ht
      have hne : count ≠ 0 := fun hzero => hy (heq ▸ hcount hzero)
      simp [Store.isIdle, hne]
    · exact hd.busy ht fun hmem => hy (hidle hmem)

theorem shareRoute_run (hd : Coherent p h d) (hid : id ∈ h.routes) :
    ∃ d', shareRoute id d = .ok id d' ∧ Coherent p (h.withRoute id) d' := by
  obtain ⟨s, hs, -⟩ := hd.store_of_held hid
  refine ⟨d.withStore id { s with routeHandles := s.routeHandles + 1 }, ?_, ?_⟩
  · unfold shareRoute
    rw [bind_ok (store_run hs)]
    rfl
  · refine coherent_routeHandles hd hs rfl (fun y => ?_) (fun _ hy => hy) (fun hzero => by omega)
    rw [← routeHandles_of_store hs, hd.held.routes]
    exact Handles.count_cons id y h.routes

theorem releaseRoute_run (hd : Coherent p h d) (hid : id ∈ h.routes) :
    ∃ d' s, releaseRoute id d = .ok () d' ∧ Coherent p (h.withoutRoute id) d' ∧
      CoherentBut p (h.withoutRoute id) [id] [] (d.withStore id s) ∧ Retires (d.withStore id s) id d' := by
  obtain ⟨s, hs, hpos⟩ := hd.store_of_held hid
  have hd₁ : CoherentBut p (h.withoutRoute id) [id] [] (d.withStore id { s with routeHandles := s.routeHandles - 1 }) := by
    refine coherent_routeHandles hd hs rfl (fun y => ?_) (fun _ hy => List.mem_cons_of_mem _ hy) (fun _ => by simp)
    rw [← routeHandles_of_store hs, hd.held.routes]
    exact Handles.count_erase id y h.routes
  obtain ⟨d', hrun, hd', hretires⟩ := retire_run hd₁
  refine ⟨d', _, ?_, hd', hd₁, hretires⟩
  unfold releaseRoute
  rw [bind_ok (store_run hs)]
  have hless : Quantity.less s.routeHandles 1 = .ok (s.routeHandles - 1) := less_run hpos
  rw [hless, ofResult_ok_bind, bind_ok setStore_run, hrun]

/-! ### New routes -/

section
variable {a b : UInt64} {l' : Layout}

theorem Entered.store_of_fresh (hd : Entered d) (hr : d.layout.route? id = none) : d.stores.find? id = none := by
  rw [← Option.not_isSome_iff_eq_none, hd.store, hr]
  simp

theorem Entered.unowned_of_fresh (hd : Entered d) (hr : d.layout.route? id = none) (x : NodeId) :
    d.owner? x ≠ some (.route id) := fun hx => by
  have := hd.owner hx
  rw [hd.store_of_fresh hr] at this
  cases this

theorem Entered.owner?_of_fresh (hd : Entered d) (hx : d.layout.node? x = none) : d.owner? x = none := by
  cases ho : d.owner? x with
  | none => rfl
  | some o =>
    obtain ⟨n, hn⟩ := hd.live_of_owner ho
    rw [hx] at hn
    cases hn

/-- The dispatch with a new route in its layout, and a store for it with a single handle. -/
def withRoute (d : Dispatch) (id : RouteId) (l' : Layout) : Dispatch :=
  ({ d with layout := l' } : Dispatch).withStore id { routeHandles := 1 }

theorem find?_withRoute {y : RouteId} :
    (d.withRoute id l').stores.find? y = if y = id then some { routeHandles := 1 } else d.stores.find? y :=
  find?_withStore

theorem depotOf_withRoute (ho : Opens d.layout id r a b l') {y : RouteId} :
    DepotOf (d.withRoute id l').layout y x ↔ DepotOf d.layout y x ∨ y = id ∧ (x = r.start ∨ x = r.finish) := by
  show DepotOf l' y x ↔ _
  unfold DepotOf
  rw [ho.route]
  by_cases hy : y = id
  · rw [hy, if_pos rfl, ho.fresh]
    simp
  · simp [hy]

theorem Entered.withRoute (hd : Entered d) (ho : Opens d.layout id r a b l') : Entered (d.withRoute id l') where
  store y := by
    rw [find?_withRoute]
    show _ = (l'.route? y).isSome
    rw [ho.route]
    split
    · rfl
    · exact hd.store y
  nodup {y t} ht := by
    rw [find?_withRoute] at ht
    split at ht
    · cases ht
      exact List.nodup_nil
    · exact hd.nodup ht
  owned {y t x} ht := by
    rw [find?_withRoute] at ht
    split at ht
    · rename_i hy
      cases ht
      rw [hy]
      exact iff_of_false List.not_mem_nil (hd.unowned_of_fresh ho.fresh x)
    · exact hd.owned ht
  owner {y x} hx := by
    rw [find?_withRoute]
    split
    · rfl
    · exact hd.owner hx
  host := hd.host
  live x := by
    show (l'.node? x).isSome ↔ (d.owner? x).isSome ∨ IsDepot l' x
    rw [ho.isSome, hd.live, ho.isDepot, or_assoc]
  depot {x} hx := by
    rcases ho.isDepot.mp hx with hx | rfl | rfl
    · exact hd.depot hx
    · exact hd.owner?_of_fresh ho.start
    · exact hd.owner?_of_fresh ho.finish

/-- Who holds a node is the same after a new route has come. -/
theorem holder?_withRoute (hd : Entered d) (hl : Seated d.layout) (ho : Opens d.layout id r a b l')
    (hlive : (d.layout.node? x).isSome) : (d.withRoute id l').holder? x = d.holder? x := by
  refine hd.holder?_congr hl (hd.withRoute ho) ho.seated rfl fun y => (depotOf_withRoute ho).trans (or_iff_left ?_)
  rintro ⟨-, rfl | rfl⟩
  · rw [ho.start] at hlive
    cases hlive
  · rw [ho.finish] at hlive
    cases hlive

theorem Coherent.withRoute (hd : Coherent p h d) (ho : Opens d.layout id r a b l') (hs' : Sited p l')
    (hc' : Current p l') : Coherent p (h.withRoute id) (d.withRoute id l') := by
  have hnone := hd.entered.store_of_fresh ho.fresh
  have hcount : ∀ y, (d.withRoute id l').countHandles y = d.countHandles y :=
    countHandles_congr (fun _ => rfl) fun _ hx =>
      holder?_withRoute hd.entered hd.seated ho (hd.counted.live (Nat.pos_of_ne_zero hx))
  have hzero : d.countHandles id = 0 := by
    refine Nat.eq_zero_of_not_pos fun hpos => ?_
    obtain ⟨x, hx, -⟩ := countHandles_pos_iff.mp hpos
    obtain ⟨s, hs⟩ := hd.entered.store_of_holder hd.seated hx
    rw [hnone] at hs
    cases hs
  refine ⟨ho.seated, hs', hc', hd.entered.withRoute ho, fun {y t x} ht => ?_, ⟨fun {x k} hk => ?_, fun {y t} ht => ?_⟩,
    hd.kept, ⟨fun y => ?_, hd.held.nodes⟩, fun {y t} ht _ => ?_⟩
  · have ht : l'.route? y = some t := ht
    rw [ho.route] at ht
    split at ht
    · rename_i hy
      cases ht
      rw [ho.clients, hy]
      exact iff_of_false List.not_mem_nil (hd.entered.unowned_of_fresh ho.fresh x)
    · exact hd.reconciled ht
  · obtain ⟨hpos, hlive⟩ := hd.counted.handle hk
    exact ⟨hpos, ho.isSome.mpr (Or.inl hlive)⟩
  · rw [hcount]
    rw [find?_withRoute] at ht
    split at ht
    · rename_i hy
      cases ht
      rw [hy, hzero]
    · exact hd.counted.counted ht
  · refine Eq.trans ?_ (Handles.count_cons id y h.routes).symm
    rw [← hd.held.routes, ← hd.held.routes]
    unfold routeHandles
    rw [find?_withRoute, hnone]
    split <;> rfl
  · rw [find?_withRoute] at ht
    split at ht
    · cases ht
      rfl
    · exact hd.busy ht List.not_mem_nil

end

/-- What keeps something new out of a dispatch: a quantity overflows as `cause` says, or all slots are taken. -/
def Stops (cause : Layout → Prop) (fault : Fault) (d : Dispatch) : Prop := Layout.Stops cause fault d.layout

theorem addRoute_fares (hd : Coherent p h d) {vehicleType : UInt64} {v : VehicleType}
    (hv : p.vehicleTypes[vehicleType.toNat]? = some v) (idx : Nat) :
    FaresUnless (Stops fun _ => True) (fun id d' => Coherent p (h.withRoute id) d' ∧ ∃ l' r, d' = d.withRoute id l' ∧
        r.idx = idx ∧ r.vehicleType = vehicleType ∧ Opens d.layout id r v.startDepot v.endDepot l')
      (addRoute p vehicleType idx d) := by
  unfold addRoute
  simp only [hv]
  refine (FaresUnless.onLayout (openRoute_fares hd.seated hd.sited hd.current hv)).bind fun id d₁ hopen => ?_
  obtain ⟨l', rfl, hs', hc', r, hidx, hvehicle, ho⟩ := hopen
  rw [bind_ok setStore_run]
  exact .ok ⟨hd.withRoute ho hs' hc', l', r, rfl, hidx, hvehicle, ho⟩

/-- Routes are made for vehicles of the problem only; others are refused. -/
theorem addRoute_replies (hd : Coherent p h d) (vehicleType : UInt64) (idx : Nat) :
    Replies d (Stops fun _ => True) (fun id d' => Coherent p (h.withRoute id) d') (addRoute p vehicleType idx d) := by
  cases hv : p.vehicleTypes[vehicleType.toNat]? with
  | none =>
    unfold addRoute
    rw [hv]
    exact .refused
  | some v => exact .of_fares ((addRoute_fares hd hv idx).mono (fun _ _ hstop => hstop) fun _ _ h' => h'.1)

/-! ### Nodes of the host -/

theorem unvisited_of_standalone (hd : Entered d) (hrec : Reconciled d) (ho : d.owner? m = some .standalone) :
    Unvisited d.layout m := by
  intro id r hr hm
  have hdepot := hd.not_isDepot ho
  rcases Route.mem_visits.mp hm with rfl | hm | rfl
  · exact hdepot ⟨id, r, hr, Or.inl rfl⟩
  · rw [hrec hr, ho] at hm
    cases hm
  · exact hdepot ⟨id, r, hr, Or.inr rfl⟩

/-- A node that no route holds is the host's. -/
theorem owner?_of_holder?_eq_none (hd : Entered d) (hl : Seated d.layout) (hlive : (d.layout.node? m).isSome)
    (hm : d.holder? m = none) : d.owner? m = some .standalone := by
  have hunheld : ∀ id, ¬(d.owner? m = some (.route id) ∨ DepotOf d.layout id m) := fun id hheld => by
    rw [(hd.holder?_eq_some_iff hl).mpr hheld] at hm
    cases hm
  cases ho : d.owner? m with
  | none =>
    have hdepot := (hd.live m).mp hlive
    rw [ho] at hdepot
    obtain ⟨id, hid⟩ := hdepot.resolve_left (by simp)
    exact absurd (Or.inr hid) (hunheld id)
  | some o =>
    cases o with
    | standalone => rfl
    | route id => exact absurd (Or.inl ho) (hunheld id)

section
variable {location : UInt64} {l' : Layout}

/-- The dispatch with a new node in its layout, which is the host's and has no handle yet. -/
def withHosted (d : Dispatch) (m : NodeId) (l' : Layout) : Dispatch :=
  { d.withOwner m .standalone with layout := l', host := d.host.insert m () }

theorem coherent_withHosted (hd : Coherent p h d) (hg : Gains d.layout m location l')
    (hclient : p.isClient location.toNat = true) : CoherentBut p h [] [m] (d.withHosted m l') := by
  have hnone := hd.entered.owner?_of_fresh hg.fresh
  have hr := reassigns_hostIn hd.entered hnone
  have hr' : Reassigns d m (some .standalone) (d.withHosted m l') := ⟨hr.owner, hr.host, hr.handles, hr.gone, hr.store⟩
  have hdepot : ¬IsDepot d.layout m := fun hm => by
    have := (hd.entered.live m).mpr (Or.inr hm)
    rw [hg.fresh] at this
    cases this
  have hlive : ∀ x, (l'.node? x).isSome = if x = m then true else (d.layout.node? x).isSome := fun x => by
    rw [hg.node]
    split <;> rfl
  have hrec : Reconciled (d.withHosted m l') := hr'.reconciled hd.reconciled fun {id r} hroute => by
    have hm : m ∉ r.clients := fun hm => hg.unvisited hd.seated id r hroute (Route.mem_visits_of_client hm)
    have hroute : d.layout.route? id = some r := hg.route? id ▸ hroute
    exact ⟨iff_of_false hm (by simp), r, hroute, fun _ _ => Iff.rfl⟩
  exact hr'.coherent hdepot hg.sameDepots hlive (by simp) hd (hg.seated hd.seated)
    (hg.sited hd.seated hd.sited hclient) (hg.current hd.seated hd.current) hrec (by simp) (hr'.kept hd.kept)
    (by simp [hnone])

/-- The host gets a handle to its new node. -/
theorem coherent_withHosted_handle (hd : Coherent p h d) (hg : Gains d.layout m location l')
    (hclient : p.isClient location.toNat = true) :
    Coherent p (h.withNode m) { d.withHosted m l' with handles := d.handles.insert m 1 } := by
  have hd₁ := coherent_withHosted hd hg hclient
  have hunheld : (d.withHosted m l').holder? m = none := by
    unfold holder?
    rw [show (d.withHosted m l').owner? m = some .standalone from owner?_withOwner.trans (if_pos rfl)]
  have hh : Rehandles (d.withHosted m l') m 1 { d.withHosted m l' with handles := d.handles.insert m 1 } :=
    ⟨rfl, rfl, rfl, fun x => Table.find?_insert _ _ _ _, fun hid => hid,
      fun {id s} hs => ⟨s, hs, rfl, rfl, by simp [hunheld]⟩⟩
  have hlive : ((d.withHosted m l').layout.node? m).isSome := by
    show (l'.node? m).isSome
    rw [hg.node_self]
    rfl
  have hcount : ∀ x, (h.withNode m).nodes.count x = if x = m then 1 else h.nodes.count x := fun x => by
    have hzero : d.handleCount m = 0 := Nat.eq_zero_of_not_pos fun hpos => by
      have := hd.counted.live hpos
      rw [hg.fresh] at this
      cases this
    refine (Handles.count_cons m x h.nodes).trans ?_
    rw [← hd.held.nodes, hzero]
  exact hh.coherent hd₁ hlive rfl hcount (hh.kept hd₁.kept (Or.inl Nat.one_pos)) (by simp [hunheld])

theorem addNode_fares (hd : Coherent p h d) (hclient : p.isClient location.toNat = true) :
    FaresUnless (fun fault d' => d'.layout.nodes.FullAt fault) (fun m d' => Coherent p (h.withNode m) d' ∧
        (∀ x, d'.owner? x = if x = m then some .standalone else d.owner? x) ∧ Gains d.layout m location d'.layout)
      (addNode p location d) := by
  unfold addNode
  rw [if_pos hclient]
  refine (FaresUnless.onLayout (addNode_gains hd.seated.nodes location)).bind fun m d₁ hgains => ?_
  obtain ⟨l', rfl, hg⟩ := hgains
  rw [bind_ok (enter_run (d := { d with layout := l' }) (hd.entered.owner?_of_fresh hg.fresh))]
  exact .ok ⟨coherent_withHosted_handle (d := d) hd hg hclient, fun x => owner?_withOwner, hg⟩

/-- Nodes are made for clients only; other locations are refused. -/
theorem addNode_replies (hd : Coherent p h d) (location : UInt64) :
    Replies d (fun fault d' => d'.layout.nodes.FullAt fault) (fun m d' => Coherent p (h.withNode m) d')
      (addNode p location d) := by
  by_cases hclient : p.isClient location.toNat = true
  · exact .of_fares ((addNode_fares hd hclient).mono (fun _ _ hfull => hfull) fun _ _ hadded => hadded.1)
  · unfold addNode
    rw [if_neg hclient]
    exact .refused

end

/-! ### Handles to nodes -/

theorem shareNode_coherent (hd : CoherentBut p h idle [m] d) (hlive : (d.layout.node? m).isSome) :
    ∃ d', shareNode m d = .ok m d' ∧ CoherentBut p (h.withNode m) idle [] d' ∧ Rehandles d m (d.handleCount m + 1) d' := by
  obtain ⟨d', hrun, hh⟩ := shareNode_run hd.entered hd.seated
  refine ⟨d', hrun, ?_, hh⟩
  refine hh.coherent hd hlive rfl (fun x => ?_) (hh.kept hd.kept (Or.inl (Nat.succ_pos _)))
    fun id _ => Or.inr (Nat.le_succ _)
  rw [hd.held.nodes]
  exact Handles.count_cons m x h.nodes

/-- A handle to the node at a position of a route; routes and positions that are not there are refused. -/
theorem nodeAt_answers (hd : Coherent p h d) (id : RouteId) (position : Nat) :
    Answers d (fun m d' => Coherent p (h.withNode m) d' ∧ ∃ r, d.layout.route? id = some r ∧ r.visits[position]? = some m)
      (nodeAt id position d) := by
  unfold nodeAt
  rw [get_bind_run]
  unfold Dispatch.route
  cases hr : d.layout.route? id with
  | none => exact .refused
  | some r =>
    rw [ofResult_ok_bind]
    cases hm : r.visits[position]? with
    | none => exact .refused
    | some m =>
      obtain ⟨d', hrun, hd', -⟩ := shareNode_coherent (hd.mono (fun _ hx => hx) (List.nil_subset _))
        (hd.seated.isSome_of_visit hr (List.mem_of_getElem? hm))
      simp only
      rw [hrun]
      exact .ok ⟨hd', r, rfl, hm⟩

theorem destroyStandalone_run (hd : CoherentBut p h [] [m] d) (ho : d.owner? m = some .standalone)
    (hzero : d.handleCount m = 0) : ∃ d', destroyStandalone m d = .ok () d' ∧ Coherent p h d' := by
  have hun := unvisited_of_standalone hd.entered hd.reconciled ho
  have hr := reassigns_hostOut hd.entered ho
  let d₁ : Dispatch := { d with host := d.host.erase m }
  let d' : Dispatch := { d₁.withoutOwner m with layout := d.layout.withoutNode m }
  have hr' : Reassigns d m none d' := ⟨hr.owner, hr.host, hr.handles, hr.gone, hr.store⟩
  have hlive : ∀ x, ((d.layout.withoutNode m).node? x).isSome = if x = m then false else (d.layout.node? x).isSome :=
    fun x => by
      rw [node?_withoutNode]
      split <;> rfl
  have hrec : Reconciled d' := hr'.reconciled hd.reconciled fun {id r} hroute => by
    have hroute : d.layout.route? id = some r := hroute
    have hm : m ∉ r.clients := fun hm => hun id r hroute (Route.mem_visits_of_client hm)
    exact ⟨iff_of_false hm (by simp), r, hroute, fun _ _ => Iff.rfl⟩
  refine ⟨d', ?_, hr'.coherent (hd.entered.not_isDepot ho) (sameDepots_withoutNode _ _) hlive (by simp) hd
    (hd.seated.withoutNode hun) (hd.sited.withoutNode hun) (CurrentBut.withoutNode hd.current hun) hrec
    (fun _ => hzero) (hr'.kept_of_ne (by simp) hd.kept) (by simp [ho])⟩
  unfold destroyStandalone
  rw [bind_ok (hostOut_run ((hd.entered.host m).mpr ho)), bind_ok (strike_run (d := d₁) ho), if_pos rfl]
  rfl

/-- Giving up a handle to a node. While its route has a handle, nothing goes. -/
theorem releaseNode_coherent (hd : Coherent p h d) (hm : m ∈ h.nodes) :
    ∃ d', releaseNode m d = .ok () d' ∧ Coherent p (h.withoutNode m) d' ∧
      ∀ id, d.holder? m = some id → id ∈ h.routes → Rehandles d m (d.handleCount m - 1) d' := by
  have hpos := hd.pos_of_held hm
  have hlive := hd.counted.live hpos
  obtain ⟨d₁, hh, hrun⟩ := releaseNode_run hd.entered hd.seated hd.counted hpos
  rw [hrun]
  have hcount : ∀ x, (h.withoutNode m).nodes.count x = if x = m then d.handleCount m - 1 else h.nodes.count x := fun x => by
    rw [hd.held.nodes]
    exact Handles.count_erase m x h.nodes
  have hkept : KeptBut [m] d := (hd.mono (fun _ hx => hx) (List.nil_subset _)).kept
  cases hholder : d.holder? m with
  | some id =>
    have hne : d.owner? m ≠ some .standalone := fun ho => by
      unfold holder? at hholder
      rw [ho] at hholder
      cases hholder
    have hd₁ : CoherentBut p (h.withoutNode m) [id] [] d₁ := hh.coherent (hd.mono (List.nil_subset [id]) (fun _ hx => hx))
      hlive rfl hcount (hh.kept hkept (Or.inr hne)) fun y hy => Or.inl (by simp_all)
    obtain ⟨d', hrun', hd', hretires⟩ := retire_run hd₁
    refine ⟨d', hrun', hd', fun y hy hid => ?_⟩
    cases hy
    obtain ⟨s, hs, hroute⟩ := hd.store_of_held hid
    rwa [hretires.eq_of_held (by rwa [hh.routeHandles, routeHandles_of_store hs])]
  | none =>
    have ho := owner?_of_holder?_eq_none hd.entered hd.seated hlive hholder
    simp only [Option.elim_none]
    by_cases hzero : d.handleCount m - 1 = 0
    · have hkept₁ : KeptBut [m] d₁ := fun {x} hx hne => by
        rw [hh.owner?] at hx
        rw [hh.handleCount, if_neg (by simpa using hne)]
        exact hd.kept hx List.not_mem_nil
      have hd₁ : CoherentBut p (h.withoutNode m) [] [m] d₁ := hh.coherent hd hlive rfl hcount hkept₁ (by simp [hholder])
      obtain ⟨d', hrun', hd'⟩ := destroyStandalone_run hd₁ ((hh.owner? m).trans ho)
        (by rw [hh.handleCount, if_pos rfl, hzero])
      exact ⟨d', by rw [if_pos hzero, hrun'], hd', by simp⟩
    · have hd₁ : Coherent p (h.withoutNode m) d₁ := hh.coherent hd hlive rfl hcount
        (hh.kept hkept (Or.inl (Nat.pos_of_ne_zero hzero))) (by simp [hholder])
      exact ⟨d₁, by rw [if_neg hzero]; rfl, hd₁, by simp⟩

end Dispatch
end Fleet
