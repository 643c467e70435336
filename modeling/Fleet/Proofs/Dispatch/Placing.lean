import Fleet.Proofs.Dispatch.Lifetime

/-! Moving single nodes keeps everything in order. -/

namespace Fleet
namespace Dispatch

open Layout DispatchM

variable {p : Problem} {h : Handles} {idle : List RouteId} {loose : List NodeId} {d d' : Dispatch} {l' : Layout}
  {id target old : RouteId} {m x : NodeId} {r ro : Route} {o : Owner} {position : Nat}

/-! ### Changes of the layout alone -/

theorem Entered.onLayout (hd : Entered d) (hk : KeepsRuns d.layout l') : Entered { d with layout := l' } where
  store id := (hd.store id).trans (hk.sameDepots.isSome id).symm
  nodup := hd.nodup
  owned := hd.owned
  owner := hd.owner
  host := hd.host
  live x := by
    show (l'.node? x).isSome ↔ _ ∨ IsDepot l' x
    rw [hk.isSome, hk.sameDepots.isDepot]
    exact hd.live x
  depot {x} hx := hd.depot (hk.sameDepots.isDepot.mp hx)

theorem Counted.onLayout (hc : Counted d) (hd : Entered d) (hl : Seated d.layout) (hk : KeepsRuns d.layout l') :
    Counted { d with layout := l' } where
  handle {x k} hx := by
    obtain ⟨hpos, hlive⟩ := hc.handle hx
    exact ⟨hpos, (hk.isSome x).trans hlive⟩
  counted {id s} hs := by
    have hholder : ∀ x, ({ d with layout := l' } : Dispatch).holder? x = d.holder? x := fun x =>
      hd.holder?_congr hl (hd.onLayout hk) hk.seated rfl fun y => hk.sameDepots y x
    have hcount : ∀ x, ({ d with layout := l' } : Dispatch).handleCount x = d.handleCount x := fun _ => rfl
    exact (hc.counted hs).trans (countHandles_congr hcount (fun x _ => hholder x) id).symm

/-- Where nodes stand may change as long as every route visits the nodes that it owns. -/
theorem CoherentBut.onLayout (hd : CoherentBut p h idle loose d) (hk : KeepsRuns d.layout l') (hc : Current p l')
    (hrec : Reconciled { d with layout := l' }) : CoherentBut p h idle loose { d with layout := l' } where
  seated := hk.seated
  sited := hk.sited hd.sited
  current := hc
  entered := hd.entered.onLayout hk
  reconciled := hrec
  counted := hd.counted.onLayout hd.entered hd.seated hk
  kept := hd.kept
  held := ⟨hd.held.routes, hd.held.nodes⟩
  busy := hd.busy

/-- A change of the books on top of a change of the layout. -/
theorem Reassigns.of_onLayout {o : Option Owner} (hr : Reassigns { d with layout := l' } m o d') : Reassigns d m o d' :=
  ⟨hr.owner, hr.host, hr.handles, hr.gone, hr.store⟩

/-- The node `m` has gone to the owner `o`. All routes are still there, and only the one that it has left and the one
    that it has come to visit others than before. -/
structure Relocates (d : Dispatch) (m : NodeId) (o : Owner) (d' : Dispatch) : Prop where
  owner : ∀ x, d'.owner? x = if x = m then some o else d.owner? x
  runs : KeepsRuns d.layout d'.layout
  source : ∀ {id r}, d.layout.route? id = some r → d.owner? m = some (.route id) → o ≠ .route id →
    ∃ totals, d'.layout.route? id = some { r with clients := r.clients.erase m, totals }
  others : ∀ {id}, d.owner? m ≠ some (.route id) → o ≠ .route id → d'.layout.route? id = d.layout.route? id

/-- After the node `m` has gone to the owner `o` the route that it has left goes, too, if nothing else keeps it. -/
structure Passes (p : Problem) (h : Handles) (d : Dispatch) (m : NodeId) (o : Owner) (d₁ d' : Dispatch) : Prop where
  relocates : Relocates d m o d₁
  coherent : Coherent p h d'
  settles : d' = d₁ ∨ ∃ old, d.owner? m = some (.route old) ∧ o ≠ .route old ∧ CoherentBut p h [old] [] d₁ ∧
    Retires d₁ old d'

/-- A node that has stayed in its route, or has come to one from the host. -/
theorem Relocates.of_reroutes {r' : Route} (howner : ∀ x, d'.owner? x = if x = m then some (.route target) else d.owner? x)
    (hsource : ∀ id, d.owner? m = some (.route id) → id = target) (h : Reroutes d.layout target r' d'.layout)
    (hr : d.layout.route? target = some r) (hs : SameRun r r') : Relocates d m (.route target) d' where
  owner := howner
  runs := h.keepsRuns hr hs
  source _ hid hne := absurd (congrArg Owner.route (hsource _ hid).symm) hne
  others _ hne := h.route_of_ne fun hid => hne (congrArg Owner.route hid.symm)

/-- A node that has left the route that owned it. -/
theorem Relocates.of_erased {i : Nat} {totals : Totals} (hl : Seated d.layout) (ho : d.owner? m = some (.route old))
    (hro : d.layout.route? old = some ro) (hm : ro.clients[i]? = some m)
    (howner : ∀ x, d'.owner? x = if x = m then some o else d.owner? x) (hk : KeepsRuns d.layout d'.layout)
    (hroute : ∀ id, o ≠ .route id → d'.layout.route? id =
      if id = old then some { ro with clients := ro.clients.eraseIdx i, totals } else d.layout.route? id) :
    Relocates d m o d' where
  owner := howner
  runs := hk
  source {id s} hs hid hne := by
    obtain rfl : id = old := by simpa [ho] using hid.symm
    rw [hro] at hs
    cases hs
    exact ⟨totals, by rw [hroute id hne, if_pos rfl, eraseIdx_eq_erase (hl.nodup_clients hro) hm]⟩
  others {id} hid hne := by rw [hroute id hne, if_neg fun hx => hid (by rw [hx, ho])]

/-! ### Leaving and arriving -/

theorem arrive_fares {i : Nat} (hl : Seated d.layout) (hs : Sited p d.layout) (hc : CurrentBut p [target] d.layout)
    (hr : d.layout.route? target = some r) (hi : i ≤ r.clients.length) (hlive : (d.layout.node? m).isSome)
    (hun : Unvisited d.layout m) :
    Fares (fun _ d' => ∃ l' totals, d' = { d with layout := l' } ∧
        Reroutes d.layout target { r with clients := r.clients.insertIdx i m, totals } l' ∧ Current p l')
      (arrive p target (i + 1) m d) := by
  obtain ⟨l₁, hrun₁, h₁⟩ := insertAt_run hl hr hi hlive hun
  have hk₁ := h₁.keepsRuns hr (.of_clients r _)
  have hc₁ : CurrentBut p [target] l₁ := (h₁.currentBut hc).mono (by simp)
  have hlayout : Fares (fun _ l' => ∃ totals, Reroutes d.layout target
      { r with clients := r.clients.insertIdx i m, totals } l' ∧ Current p l')
      ((do
        Layout.insertAt target (i + 1) m
        Layout.refresh p target) d.layout) := by
    rw [bind_ok hrun₁]
    exact (refresh_current h₁.seated (hk₁.sited hs) hc₁ h₁.route_self).mono fun _ _ ⟨totals, h', hc'⟩ =>
      ⟨totals, h₁.trans h', hc'⟩
  exact hlayout.onLayout.mono fun _ _ ⟨l', heq, totals, h'⟩ => ⟨l', totals, heq, h'⟩

/-- Taking a node out of the route that visits it. Its totals are put right unless the node comes back. -/
theorem leave_fares (target : RouteId) {i : Nat} (hl : Seated d.layout) (hs : Sited p d.layout) (hc : Current p d.layout)
    (hr : d.layout.route? old = some ro) (hm : ro.clients[i]? = some m) :
    Fares (fun _ d' => ∃ l' totals, d' = { d with layout := l' } ∧
        Reroutes d.layout old { ro with clients := ro.clients.eraseIdx i, totals } l' ∧
        CurrentBut p (if old = target then [old] else []) l')
      (leave p old target m d) := by
  have hvisit : ro.visits[i + 1]? = some m := by
    obtain ⟨hi, -⟩ := List.getElem?_eq_some_iff.mp hm
    rw [Route.visits_succ hi, hm]
  obtain ⟨n, hn, hroute, hposition⟩ := hl.seat hr hvisit
  obtain ⟨l₁, hrun₁, h₁⟩ := removeAt_run hl hr hm
  have hk₁ := h₁.keepsRuns hr (.of_clients ro _)
  have hc₁ : CurrentBut p [old] l₁ := h₁.currentBut hc
  have hlookup : d.route old = .ok ro := by
    unfold Dispatch.route
    rw [hr]
  unfold leave
  rw [get_bind_run, hlookup, ofResult_ok_bind, get_bind_run, hn]
  simp only [if_pos hroute, hposition]
  have hlayout : Fares (fun _ l' => ∃ totals, Reroutes d.layout old
      { ro with clients := ro.clients.eraseIdx i, totals } l' ∧ CurrentBut p (if old = target then [old] else []) l')
      ((do
        let _ ← Layout.removeAt old (i + 1)
        if old = target then pure () else Layout.refresh p old) d.layout) := by
    rw [bind_ok hrun₁]
    split
    · exact .ok ⟨ro.totals, h₁, hc₁⟩
    · exact (refresh_current h₁.seated (hk₁.sited hs) hc₁ h₁.route_self).mono fun _ _ ⟨totals, h', hc'⟩ =>
        ⟨totals, h₁.trans h', hc'⟩
  exact hlayout.onLayout.mono fun _ _ ⟨l', heq, totals, h'⟩ => ⟨l', totals, heq, h'⟩

/-! ### Putting a node into a route -/

/-- A node that had an owner is a route's now, and the visits agree with that. -/
theorem Reassigns.coherent_joins (hr : Reassigns d m (some (.route target)) d') (hd : CoherentBut p h idle [] d)
    (ho : d.owner? m = some o) (hk : KeepsRuns d.layout d'.layout) (hc : Current p d'.layout) (hrec : Reconciled d')
    (htarget : (d.stores.find? target).isSome) (hsource : ∀ id, o = .route id → id ∈ idle) :
    CoherentBut p h idle [] d' := by
  have hlive := hk.live (Option.isSome_iff_exists.mpr (hd.entered.live_of_owner ho))
  refine hr.coherent (hd.entered.not_isDepot ho) hk.sameDepots hlive (fun id hid => ?_) hd hk.seated
    (hk.sited hd.sited) hc hrec (by simp) (hr.kept_of_ne (by simp) (hd.mono (List.Subset.refl _) (List.nil_subset _)).kept)
    fun id hid => hsource id (by rw [ho] at hid; exact Option.some.inj hid)
  cases hid
  exact htarget

/-- A node that nobody visited has come to a route that now owns it: every route owns what it visits. -/
theorem Reassigns.reconciled_arrival {l₁ : Layout} {i : Nat} {totals : Totals}
    (hd' : Reassigns d m (some (.route target)) d') (hd : Reconciled d) (hr : d.layout.route? target = some r)
    (hi : i ≤ r.clients.length) (h₁ : Reroutes l₁ target { r with clients := r.clients.insertIdx i m, totals } d'.layout)
    (hun : Unvisited l₁ m) (hothers : ∀ id s, l₁.route? id = some s →
      ∃ s₀, d.layout.route? id = some s₀ ∧ ∀ x, x ≠ m → (x ∈ s.clients ↔ x ∈ s₀.clients)) : Reconciled d' :=
  hd'.reconciled hd fun {id s} hs => by
    rw [h₁.route] at hs
    split at hs
    · rename_i hid
      cases hs
      rw [hid]
      exact ⟨by simp [List.mem_insertIdx hi], r, hr, fun x hx => by simp [List.mem_insertIdx hi, hx]⟩
    · rename_i hid
      have hm : m ∉ s.clients := fun hm => hun id s hs (Route.mem_visits_of_client hm)
      exact ⟨iff_of_false hm (by simpa using Ne.symm hid), hothers id s hs⟩

theorem putHosted_fares {i : Nat} (hd : Coherent p h d) (hr : d.layout.route? target = some r)
    (ho : d.owner? m = some .standalone) (hi : i ≤ r.clients.length) :
    Fares (fun _ d' => Coherent p h d' ∧ Relocates d m (.route target) d' ∧ ∃ totals,
        Reroutes d.layout target { r with clients := r.clients.insertIdx i m, totals } d'.layout)
      ((do
        arrive p target (i + 1) m
        takeIn m target) d) := by
  have hun := unvisited_of_standalone hd.entered hd.reconciled ho
  have hlive := Option.isSome_iff_exists.mpr (hd.entered.live_of_owner ho)
  have htarget := Option.isSome_iff_exists.mpr (hd.entered.store_of_route hr)
  refine (arrive_fares hd.seated hd.sited (CurrentBut.mono hd.current (List.nil_subset _)) hr hi hlive hun).bind
    fun _ d₁ h₁ => ?_
  obtain ⟨l', totals, rfl, h₁, hc₁⟩ := h₁
  have hk := h₁.keepsRuns hr ⟨rfl, rfl, rfl, rfl⟩
  obtain ⟨d', hrun, hlayout, hbooks⟩ := takeIn_run (hd.entered.onLayout hk) hk.seated
    (hd.counted.onLayout hd.entered hd.seated hk) ho htarget
  have hr' : Reassigns d m _ d' := hbooks.of_onLayout
  obtain rfl : d'.layout = l' := hlayout
  have hrec : Reconciled d' := hr'.reconciled_arrival hd.reconciled hr hi h₁ hun fun id s hs => ⟨s, hs, fun _ _ => Iff.rfl⟩
  exact .of_ok hrun ⟨hr'.coherent_joins hd ho hk hc₁ hrec htarget (by simp),
    .of_reroutes hr'.owner (by simp [ho]) h₁ hr ⟨rfl, rfl, rfl, rfl⟩, totals, h₁⟩

theorem putWithin_fares {i j : Nat} (hd : Coherent p h d) (hr : d.layout.route? target = some r)
    (hm : r.clients[i]? = some m) (hj : j < r.clients.length) :
    Fares (fun _ d' => Coherent p h d' ∧ Relocates d m (.route target) d' ∧ ∃ totals,
        Reroutes d.layout target { r with clients := (r.clients.eraseIdx i).insertIdx j m, totals } d'.layout)
      ((do
        leave p target target m
        arrive p target (j + 1) m) d) := by
  have hmem : m ∈ r.clients := List.mem_of_getElem? hm
  obtain ⟨hi, -⟩ := List.getElem?_eq_some_iff.mp hm
  have hlength : (r.clients.eraseIdx i).length = r.clients.length - 1 := List.length_eraseIdx_of_lt hi
  refine (leave_fares target hd.seated hd.sited hd.current hr hm).bind fun _ d₁ h₁ => ?_
  obtain ⟨l₁, totals₁, rfl, h₁, hc₁⟩ := h₁
  rw [if_pos rfl] at hc₁
  have hk₁ := h₁.keepsRuns hr ⟨rfl, rfl, rfl, rfl⟩
  obtain ⟨hun, hlive⟩ := h₁.free_of_erased hd.seated hr hm
  refine (arrive_fares (d := { d with layout := l₁ }) (i := j) h₁.seated (hk₁.sited hd.sited) hc₁ h₁.route_self
    (by rw [hlength]; omega) hlive hun).mono fun _ d' h₂ => ?_
  obtain ⟨l₂, totals, rfl, h₂, hc₂⟩ := h₂
  have h₂ := h₁.trans h₂
  have ho : d.owner? m = some (.route target) := (hd.reconciled hr).mp hmem
  have howner : ∀ x, d.owner? x = if x = m then some (.route target) else d.owner? x := fun x => by
    split
    · rename_i hx
      rw [hx, ho]
    · rfl
  refine ⟨hd.onLayout (h₂.keepsRuns hr ⟨rfl, rfl, rfl, rfl⟩) hc₂ fun {id s x} hs => ?_,
    .of_reroutes howner (fun id hid => by simpa [ho] using hid.symm) h₂ hr ⟨rfl, rfl, rfl, rfl⟩, totals, h₂⟩
  have hs : l₂.route? id = some s := hs
  rw [h₂.route] at hs
  split at hs
  · rename_i hid
    cases hs
    show x ∈ (r.clients.eraseIdx i).insertIdx j m ↔ _
    rw [List.mem_insertIdx (by rw [hlength]; omega), hd.seated.mem_eraseIdx hr hm, hid]
    refine Iff.trans ?_ (hd.reconciled hr)
    by_cases hx : x = m
    · simp [hx, hmem]
    · simp [hx]
  · exact hd.reconciled hs

/-- A node goes from one route into another; the first one goes if nothing keeps it any more. -/
theorem putAcross_fares {i j : Nat} (hd : Coherent p h d) (hne : old ≠ target) (hro : d.layout.route? old = some ro)
    (hm : ro.clients[i]? = some m) (hr : d.layout.route? target = some r) (hj : j ≤ r.clients.length) :
    Fares (fun _ d' => ∃ d₁, Passes p h d m (.route target) d₁ d' ∧
        ∃ totals, d₁.layout.route? target = some { r with clients := r.clients.insertIdx j m, totals })
      ((do
        leave p old target m
        arrive p target (j + 1) m
        handOver m old target
        retire old) d) := by
  have hmem : m ∈ ro.clients := List.mem_of_getElem? hm
  have ho : d.owner? m = some (.route old) := (hd.reconciled hro).mp hmem
  have htarget := Option.isSome_iff_exists.mpr (hd.entered.store_of_route hr)
  refine (leave_fares target hd.seated hd.sited hd.current hro hm).bind fun _ d₁ h₁ => ?_
  obtain ⟨l₁, totals₁, rfl, h₁, hc₁⟩ := h₁
  rw [if_neg hne] at hc₁
  have hk₁ := h₁.keepsRuns hro ⟨rfl, rfl, rfl, rfl⟩
  obtain ⟨hun, hlive⟩ := h₁.free_of_erased hd.seated hro hm
  have hr₁ : l₁.route? target = some r := by rw [h₁.route_of_ne hne.symm, hr]
  refine (arrive_fares (d := { d with layout := l₁ }) (i := j) h₁.seated (hk₁.sited hd.sited)
    (CurrentBut.mono hc₁ (List.nil_subset _)) hr₁ hj hlive hun).bind fun _ d₂ h₂ => ?_
  obtain ⟨l₂, totals₂, rfl, h₂, hc₂⟩ := h₂
  have hk := hk₁.trans (h₂.keepsRuns hr₁ ⟨rfl, rfl, rfl, rfl⟩)
  obtain ⟨d₃, hrun₃, hlayout, hbooks, -⟩ := handOver_run (hd.entered.onLayout hk) hk.seated
    (hd.counted.onLayout hd.entered hd.seated hk) ho hne htarget
  have hr₃ : Reassigns d m _ d₃ := hbooks.of_onLayout
  obtain rfl : d₃.layout = l₂ := hlayout
  have hrec : Reconciled d₃ := hr₃.reconciled_arrival hd.reconciled hr hj h₂ hun fun id s hs => by
    rw [h₁.route] at hs
    split at hs
    · rename_i hid
      cases hs
      rw [hid]
      exact ⟨ro, hro, fun x hx => (hd.seated.mem_eraseIdx hro hm).trans (and_iff_right hx)⟩
    · exact ⟨s, hs, fun _ _ => Iff.rfl⟩
  have hd₃ : CoherentBut p h [old] [] d₃ := hr₃.coherent_joins (hd.mono (List.nil_subset _) (List.Subset.refl _)) ho hk hc₂
    hrec htarget (by simp)
  have hmoved : Relocates d m (.route target) d₃ := .of_erased hd.seated ho hro hm hr₃.owner hk fun id hid =>
    (h₂.route_of_ne fun hx => hid (congrArg Owner.route hx.symm)).trans (h₁.route id)
  rw [bind_ok hrun₃]
  obtain ⟨d', hrun, hd', hretires⟩ := retire_run hd₃
  exact .of_ok hrun ⟨d₃, ⟨hmoved, hd', .inr ⟨old, ho, by simpa using hne.symm, hd₃, hretires⟩⟩, totals₂, h₂.route_self⟩

/-- Where a node may go: between the depots. -/
theorem resolve_eq_ok {spot : Spot} {highest clients : Nat} (hhighest : 0 < highest)
    (h : spot.resolve highest clients = .ok position) : ∃ i, position = i + 1 ∧ i < highest := by
  cases spot with
  | last =>
    cases h
    exact ⟨position - 1, by omega, by omega⟩
  | position i =>
    simp only [Spot.resolve] at h
    split at h
    · cases h
    · cases h
      exact ⟨position - 1, by omega, by omega⟩

theorem resolve_refused {spot : Spot} {highest clients : Nat} {fault : Fault}
    (h : spot.resolve highest clients = .error fault) : ∃ why, fault = .refused why := by
  cases spot with
  | last => cases h
  | position i =>
    simp only [Spot.resolve] at h
    split at h
    · cases h
      exact ⟨_, rfl⟩
    · cases h

theorem requireNode_run {n : Node} (hn : d.layout.node? m = some n) : requireNode m d = .ok () d := by
  unfold requireNode
  rw [get_bind_run, hn]
  rfl

theorem requireNode_refused (hn : d.layout.node? m = none) :
    requireNode m d = .error (.refused (.nodeReleased m)) d := by
  unfold requireNode
  rw [get_bind_run, hn]
  rfl

theorem route_eq_ok (hr : d.layout.route? id = some r) : d.route id = .ok r := by
  unfold Dispatch.route
  rw [hr]

theorem route_eq_refused (hr : d.layout.route? id = none) : d.route id = .error (.refused (.routeReleased id)) := by
  unfold Dispatch.route
  rw [hr]

/-- Nothing is refused once the route, the node and the position are all right. -/
theorem put_of_resolve {spot : Spot} (hr : d.layout.route? target = some r) (hd : Entered d) (ho : d.owner? m = some o)
    (hposition : spot.resolve (highestPosition target r.clients.length o) r.clients.length = .ok position) :
    put p target spot m d = ((ownerRoute o).elim
      (do
        arrive p target position m
        takeIn m target)
      fun old => do
        leave p old target m
        arrive p target position m
        if old = target then pure ()
        else do
          handOver m old target
          retire old) d := by
  obtain ⟨n, hn⟩ := hd.live_of_owner ho
  unfold put
  rw [get_bind_run, route_eq_ok hr, ofResult_ok_bind, bind_ok (requireNode_run hn), get_bind_run, ho]
  simp only [hposition, ofResult_ok_bind]
  cases o <;> rfl

/-- A node may go as far as behind the other clients of the route. -/
theorem highestPosition_eq (hd : Coherent p h d) (hr : d.layout.route? target = some r) (ho : d.owner? m = some o) :
    highestPosition target r.clients.length o = (r.clients.erase m).length + 1 := by
  have hmem : m ∈ r.clients ↔ o = .route target := by
    rw [hd.reconciled hr, ho, Option.some.injEq]
  unfold highestPosition
  split
  · rename_i hin
    have hpos := List.length_pos_of_mem (hmem.mpr hin)
    rw [List.length_erase_of_mem (hmem.mpr hin)]
    omega
  · rename_i hout
    rw [List.erase_of_not_mem fun hm => hout (hmem.mp hm)]

/-- Putting a node into a route, wherever it was. -/
theorem put_fares {spot : Spot} {i : Nat} (hd : Coherent p h d) (hr : d.layout.route? target = some r)
    (ho : d.owner? m = some o) (hi : i ≤ (r.clients.erase m).length)
    (hposition : spot.resolve ((r.clients.erase m).length + 1) r.clients.length = .ok (i + 1)) :
    Fares (fun _ d' => ∃ d₁, Passes p h d m (.route target) d₁ d' ∧
        ∃ totals, d₁.layout.route? target = some { r with clients := (r.clients.erase m).insertIdx i m, totals })
      (put p target spot m d) := by
  rw [put_of_resolve hr hd.entered ho ((highestPosition_eq hd hr ho).symm ▸ hposition)]
  have hmem : m ∈ r.clients ↔ o = .route target := by
    rw [hd.reconciled hr, ho, Option.some.injEq]
  cases o with
  | standalone =>
    rw [List.erase_of_not_mem (mt hmem.mp (by simp))] at hi ⊢
    refine (putHosted_fares hd hr ho hi).mono fun _ d' hdone => ?_
    obtain ⟨hd', hmoved, totals, h'⟩ := hdone
    exact ⟨d', ⟨hmoved, hd', .inl rfl⟩, totals, h'.route_self⟩
  | route old =>
    obtain ⟨ro, hro⟩ : ∃ ro, d.layout.route? old = some ro := by
      obtain ⟨s, hs⟩ := Option.isSome_iff_exists.mp (hd.entered.owner ho)
      exact hd.entered.route_of_store hs
    obtain ⟨k, hk⟩ := List.mem_iff_getElem?.mp ((hd.reconciled hro).mpr ho)
    simp only [ownerRoute, Option.elim_some]
    by_cases hsame : old = target
    · subst hsame
      rw [hr] at hro
      cases hro
      have hlt : i < r.clients.length := by
        have hin := hmem.mpr rfl
        have hpos := List.length_pos_of_mem hin
        rw [List.length_erase_of_mem hin] at hi
        omega
      simp only [if_true, bind_pure_unit]
      refine (putWithin_fares hd hr hk hlt).mono fun _ d' hdone => ?_
      obtain ⟨hd', hmoved, totals, h'⟩ := hdone
      refine ⟨d', ⟨hmoved, hd', .inl rfl⟩, totals, ?_⟩
      rw [h'.route_self, eraseIdx_eq_erase (hd.seated.nodup_clients hr) hk]
    · rw [List.erase_of_not_mem (mt hmem.mp (by simpa using hsame))] at hi ⊢
      simp only [if_neg hsame]
      exact putAcross_fares hd hsame hro hk hr hi

/-- Only nodes with an owner can be put into a route. -/
theorem put_refused {spot : Spot} (h : d.layout.route? target = none ∨ d.owner? m = none) :
    ∃ why, put p target spot m d = .error (.refused why) d := by
  cases hr : d.layout.route? target with
  | none =>
    refine ⟨.routeReleased target, ?_⟩
    unfold put
    rw [get_bind_run, route_eq_refused hr]
    rfl
  | some r =>
    have ho : d.owner? m = none := h.resolve_left (by simp [hr])
    unfold put
    rw [get_bind_run, route_eq_ok hr, ofResult_ok_bind]
    cases hn : d.layout.node? m with
    | none => exact ⟨_, bind_error (requireNode_refused hn)⟩
    | some n =>
      rw [bind_ok (requireNode_run hn), get_bind_run, ho]
      exact ⟨_, rfl⟩

theorem put_refused_of_resolve {spot : Spot} {why : Refusal} (hd : Coherent p h d) (hr : d.layout.route? target = some r)
    (ho : d.owner? m = some o)
    (hposition : spot.resolve ((r.clients.erase m).length + 1) r.clients.length = .error (.refused why)) :
    put p target spot m d = .error (.refused why) d := by
  obtain ⟨n, hn⟩ := hd.entered.live_of_owner ho
  rw [← highestPosition_eq hd hr ho] at hposition
  unfold put
  rw [get_bind_run, route_eq_ok hr, ofResult_ok_bind, bind_ok (requireNode_run hn), get_bind_run, ho]
  simp only [hposition]
  rfl

/-- Putting a node into a route, wherever it was, keeps everything in order. -/
theorem put_answers (hd : Coherent p h d) (target : RouteId) (spot : Spot) (m : NodeId) :
    Answers d (fun _ d' => Coherent p h d') (put p target spot m d) := by
  by_cases hnone : d.layout.route? target = none ∨ d.owner? m = none
  · obtain ⟨why, hrefused⟩ : ∃ why, put p target spot m d = .error (.refused why) d := put_refused hnone
    rw [hrefused]
    exact .refused
  · rw [not_or] at hnone
    obtain ⟨r, hr⟩ := Option.ne_none_iff_exists'.mp hnone.1
    obtain ⟨o, ho⟩ := Option.ne_none_iff_exists'.mp hnone.2
    cases hposition : spot.resolve ((r.clients.erase m).length + 1) r.clients.length with
    | error fault =>
      obtain ⟨why, rfl⟩ := resolve_refused hposition
      rw [put_refused_of_resolve hd hr ho hposition]
      exact .refused
    | ok position =>
      obtain ⟨i, rfl, hi⟩ := resolve_eq_ok (Nat.succ_pos _) hposition
      exact .of_fares ((put_fares hd hr ho (Nat.lt_succ_iff.mp hi) hposition).mono fun _ _ ⟨_, h', _⟩ => h'.coherent)

/-! ### Taking a node out of its route -/

/-- The books after a node has been taken out of its route: it is the host's, and the route may go. -/
theorem letGo_run {s : Store} {i : Nat} {totals : Totals} (hd : Coherent p h d) (hs : d.stores.find? id = some s)
    (hr : d.layout.route? id = some r) (hm : r.clients[i]? = some m)
    (h₁ : Reroutes d.layout id { r with clients := r.clients.eraseIdx i, totals } l') (hc₁ : Current p l') :
    ∃ d₁, recount m (some id) none
        { ((({ d with layout := l' } : Dispatch).withoutOwner m).withStore id
          { s with nodes := swapErase m s.nodes }).withOwner m .standalone with host := d.host.insert m () } = .ok () d₁ ∧
      d₁.layout = l' ∧ (∀ x, d₁.owner? x = if x = m then some .standalone else d.owner? x) ∧
      CoherentBut p h [id] [m] d₁ := by
  have hmem : m ∈ r.clients := List.mem_of_getElem? hm
  have ho : d.owner? m = some (.route id) := (hd.reconciled hr).mp hmem
  have hk := h₁.keepsRuns hr ⟨rfl, rfl, rfl, rfl⟩
  have hentered := hd.entered.onLayout hk
  obtain ⟨d₁, hrun, hlayout, hbooks, -⟩ := (rehouses_letGo hentered hs ho).recount hentered hk.seated
    (hd.counted.onLayout hd.entered hd.seated hk) (by simp)
  have hr₁ : Reassigns d m _ d₁ := hbooks.of_onLayout
  have hlayout : d₁.layout = l' := hlayout
  have hrec : Reconciled d₁ := hr₁.reconciled hd.reconciled fun {y t} ht => by
    rw [hlayout] at ht
    have hm' : m ∉ t.clients := fun hm' =>
      (h₁.free_of_erased hd.seated hr hm).1 y t ht (Route.mem_visits_of_client hm')
    refine ⟨iff_of_false hm' (by simp), ?_⟩
    rw [h₁.route] at ht
    split at ht
    · rename_i hy
      cases ht
      rw [hy]
      exact ⟨r, hr, fun x hx => (hd.seated.mem_eraseIdx hr hm).trans (and_iff_right hx)⟩
    · exact ⟨t, ht, fun _ _ => Iff.rfl⟩
  have hlive := hk.live (hd.seated.isSome_of_client hr hmem)
  refine ⟨d₁, ?_, hlayout, hr₁.owner, hr₁.coherent (hd.entered.not_isDepot ho) (hlayout ▸ hk.sameDepots) (hlayout ▸ hlive) (by simp)
    (hd.mono (List.nil_subset _) (List.Subset.refl _)) (hlayout ▸ hk.seated) (hlayout ▸ hk.sited hd.sited)
    (hlayout ▸ hc₁) hrec (by simp) (hr₁.kept hd.kept) (by simp [ho])⟩
  have hsource : ownerRoute? (({ d with layout := l' } : Dispatch).owner? m) = some id :=
    ownerRoute?_eq_some_iff.mpr ho
  rw [hsource] at hrun
  exact hrun

/-- Taking a client out of a route gives it to the host, with a handle to it. -/
theorem remove_fares {i : Nat} (hd : Coherent p h d) (hr : d.layout.route? id = some r) (hm : r.clients[i]? = some m) :
    Fares (fun out d' => out = m ∧ ∃ d₁, Passes p (h.withNode m) d m .standalone d₁ d') (remove p id (i + 1) d) := by
  have hmem : m ∈ r.clients := List.mem_of_getElem? hm
  have ho : d.owner? m = some (.route id) := (hd.reconciled hr).mp hmem
  obtain ⟨s, hs⟩ := hd.entered.store_of_route hr
  have hms : m ∈ s.nodes := (hd.entered.owned hs).mpr ho
  obtain ⟨l₁, hrun₁, h₁⟩ := removeAt_run hd.seated hr hm
  have hk₁ := h₁.keepsRuns hr (.of_clients r _)
  have hout : Fares (fun node l' => node = m ∧ ∃ totals,
        Reroutes d.layout id { r with clients := r.clients.eraseIdx i, totals } l' ∧ Current p l')
      ((do
        let node ← Layout.removeAt id (i + 1)
        Layout.refresh p id
        return node) d.layout) := by
    rw [bind_ok hrun₁]
    refine (refresh_current h₁.seated (hk₁.sited hd.sited) (h₁.currentBut hd.current) h₁.route_self).bind
      fun _ l' ⟨totals, h', hc'⟩ => .ok ⟨rfl, totals, h₁.trans h', hc'⟩
  unfold remove
  refine (Fares.onLayout hout).bind fun node d₁ hd₁ => ?_
  obtain ⟨l', rfl, rfl, totals, h', hc'⟩ := hd₁
  obtain ⟨d₂, hrun₂, hlayout, howner, hd₂⟩ := letGo_run hd hs hr hm h' hc'
  have hlive : (d₂.layout.node? node).isSome := by
    rw [hlayout, h'.isSome]
    exact hd.seated.isSome_of_client hr hmem
  obtain ⟨d₃, hrun₃, hd₃, hh⟩ := shareNode_coherent hd₂ hlive
  obtain ⟨d₄, hrun₄, hd₄, hretires⟩ := retire_run hd₃
  have hsource : ({ d with layout := l' } : Dispatch).owner? node = some (.route id) := ho
  have hlayout₃ : d₃.layout = l' := hh.layout.trans hlayout
  have hmoved : Relocates d node .standalone d₃ :=
    .of_erased hd.seated ho hr hm (fun x => (hh.owner? x).trans (howner x))
      (hlayout₃ ▸ h'.keepsRuns hr ⟨rfl, rfl, rfl, rfl⟩) fun id _ => hlayout₃ ▸ h'.route id
  rw [bind_ok (strike_run hsource), if_pos rfl,
    bind_ok (storeOut_run (d := ({ d with layout := l' } : Dispatch).withoutOwner node) hs hms),
    bind_ok (enter_run (d := (({ d with layout := l' } : Dispatch).withoutOwner node).withStore id _)
      (owner?_withoutOwner.trans (if_pos rfl))), bind_ok hostIn_run]
  refine Fares.of_ok ?_ ⟨rfl, d₃, hmoved, hd₄, .inr ⟨id, ho, by simp, hd₃, hretires⟩⟩
  refine (bind_ok hrun₂).trans ?_
  rw [bind_ok hrun₃, bind_ok hrun₄]
  rfl

/-- Routes and positions that are not there are refused. -/
theorem remove_refused {position : Nat} (hat : ∀ r, d.layout.route? id = some r → r.client? position = none) :
    ∃ why, remove p id position d = .error (.refused why) d := by
  obtain ⟨why, hrefused⟩ := removeAt_refused hat
  exact ⟨why, bind_error (onLayout_error (bind_error hrefused))⟩

theorem remove_answers (hd : Coherent p h d) (id : RouteId) (position : Nat) :
    Answers d (fun m d' => Coherent p (h.withNode m) d') (remove p id position d) := by
  by_cases hat : ∀ r, d.layout.route? id = some r → r.client? position = none
  · obtain ⟨why, hrefused⟩ := remove_refused (p := p) hat
    rw [hrefused]
    exact .refused
  · push Not at hat
    obtain ⟨r, hr, hclient⟩ := hat
    obtain ⟨m, hvisit⟩ := Option.ne_none_iff_exists'.mp hclient
    obtain ⟨i, rfl, hm⟩ := Route.client?_eq_some_iff.mp hvisit
    exact .of_fares ((remove_fares hd hr hm).mono fun out _ ⟨hout, _, h'⟩ => hout ▸ h'.coherent)

end Dispatch
end Fleet
