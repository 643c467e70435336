import Fleet.Proofs.Dispatch.Consistency

/-! Moves that are reconciled later.

    Moves leave the books alone, so the books agree after any number of them, although routes by then visit clients
    that others own. A client may have come through several routes; it belongs to the one that visits it in the end.
    Reconciling a pair of routes hands over the clients that one of them owns and the other visits, and never takes a
    client away from the route that visits it. So once all pairs have been reconciled, in whatever order, all is in
    order, and what it has come to was decided by the visits alone. -/

namespace Fleet
namespace Dispatch

open Layout DispatchM

variable {p : Problem} {h : Handles} {d d' d'' : Dispatch} {a b id : RouteId} {m : NodeId} {r ra rb : Route} {n k : Nat}
  {pairs : List (RouteId × RouteId)}

/-! ### Moves without reconciling -/

/-- What `d` becomes by moves alone. A move that is refused counts as well; one that overflows ends the run. -/
inductive Shifts (p : Problem) (d : Dispatch) : Dispatch → Prop
  | refl : Shifts p d d
  | moved {d' d'' : Dispatch} {routes : RouteId × RouteId} (before : Shifts p d d') (move : Move) (u v : NodeId)
      (hrun : onLayout (move.perform p u v) d' = .ok routes d'') : Shifts p d d''
  | refused {d' d'' : Dispatch} {fault : Fault} (before : Shifts p d d') (move : Move) (u v : NodeId)
      (hrun : onLayout (move.perform p u v) d' = .error fault d'') (hfault : fault ≠ .overflow) : Shifts p d d''

/-- The books are those of `d`, and the routes of `d` serve the clients of `d`, each of them perhaps others. -/
structure Shifted (p : Problem) (d d' : Dispatch) : Prop where
  books : d' = { d with layout := d'.layout }
  reshuffles : Reshuffles d.layout d'.layout
  current : Current p d'.layout

theorem Shifts.shifted (hm : Shifts p d d') (hl : Seated d.layout) (hs : Sited p d.layout) (hc : Current p d.layout) :
    Shifted p d d' := by
  induction hm with
  | refl => exact ⟨rfl, .refl hl, hc⟩
  | moved _ move u v hrun ih =>
    obtain ⟨hperform, hbooks⟩ := onLayout_eq_ok hrun
    obtain ⟨hre, hcurrent⟩ := Move.perform_reshuffles ih.reshuffles.seated (ih.reshuffles.sited hs) hperform
    rw [ih.books] at hbooks
    exact ⟨hbooks, ih.reshuffles.trans hre, hcurrent ih.current⟩
  | refused _ move u v hrun hfault ih =>
    obtain ⟨hperform, hbooks⟩ := onLayout_eq_error hrun
    have hsame := Move.perform_eq_error ih.reshuffles.seated (ih.reshuffles.sited hs) hperform hfault
    rw [hsame] at hbooks
    exact hbooks ▸ ih

/-- The nodes that a route owns are those that some route serves. -/
def Tended (d : Dispatch) : Prop := ∀ m, Serves d.layout m ↔ ∃ id, d.owner? m = some (.route id)

theorem Coherent.tended (hd : Coherent p h d) : Tended d := fun m => by
  constructor
  · rintro ⟨id, r, hr, hm⟩
    exact ⟨id, (hd.reconciled hr).mp hm⟩
  · rintro ⟨id, ho⟩
    obtain ⟨s, hs⟩ := Option.isSome_iff_exists.mp (hd.entered.owner ho)
    obtain ⟨r, hr⟩ := hd.entered.route_of_store hs
    exact ⟨id, r, hr, (hd.reconciled hr).mpr ho⟩

namespace Shifted

theorem owner? (hm : Shifted p d d') (m : NodeId) : d'.owner? m = d.owner? m := by
  rw [hm.books]
  rfl

theorem booked (hm : Shifted p d d') (hd : Booked h [] d) (hl : Seated d.layout) : Booked h [] d' := by
  rw [hm.books]
  exact hd.onLayout hl hm.reshuffles.toKeepsRuns

theorem tended (hm : Shifted p d d') (hd : Tended d) : Tended d' := fun m => by
  rw [hm.reshuffles.serves, hd m]
  exact exists_congr fun id => by rw [hm.owner?]

end Shifted

/-! ### Clients in other routes than their owner -/

/-- The clients that a route visits and does not own, route by route. -/
def misplaced (d : Dispatch) : List NodeId :=
  d.layout.routeList.flatMap fun e => e.2.clients.filter fun m => d.owner? m ≠ some (.route e.1)

theorem mem_misplaced : m ∈ d.misplaced ↔
    ∃ id r, d.layout.route? id = some r ∧ m ∈ r.clients ∧ d.owner? m ≠ some (.route id) := by
  simp only [misplaced, List.mem_flatMap, Prod.exists, mem_routeList, List.mem_filter, decide_eq_true_eq]

theorem nodup_misplaced (hl : Seated d.layout) : d.misplaced.Nodup := by
  refine List.nodup_flatMap.mpr ⟨fun e he => (hl.nodup_clients (mem_routeList.mp he)).filter _, ?_⟩
  -- Different routes have no client in common.
  refine (List.pairwise_map.mp (nodup_routeIds d.layout)).imp_of_mem fun {e e'} he he' hne m hm hm' => hne ?_
  exact hl.client_unique (mem_routeList.mp he') (mem_routeList.mp he) (List.mem_of_mem_filter hm')
    (List.mem_of_mem_filter hm)

/-! ### Reconciling one pair -/

/-- What reconciling may do while the routes have handles: `n` clients have gone to the routes that visit them. -/
structure Settles (h : Handles) (d : Dispatch) (n : Nat) (d' : Dispatch) : Prop where
  layout : d'.layout = d.layout
  booked : Booked h [] d'
  owner : ∀ m, d'.owner? m = d.owner? m ∨
    ∃ id r, d.layout.route? id = some r ∧ m ∈ r.clients ∧ d'.owner? m = some (.route id)
  count : n + d'.misplaced.length = d.misplaced.length

namespace Settles

theorem refl (hd : Booked h [] d) : Settles h d 0 d := ⟨rfl, hd, fun _ => .inl rfl, Nat.zero_add _⟩

theorem trans (h₁ : Settles h d n d') (h₂ : Settles h d' k d'') : Settles h d (n + k) d'' where
  layout := h₂.layout.trans h₁.layout
  booked := h₂.booked
  owner m := by
    rcases h₂.owner m with hsame | ⟨id, r, hr, hm, ho⟩
    · rw [hsame]
      exact h₁.owner m
    · exact .inr ⟨id, r, h₁.layout ▸ hr, hm, ho⟩
  count := by
    have hn := h₁.count
    have hk := h₂.count
    omega

end Settles

/-- Neither of the two routes owns a client that the other one visits. -/
def Straight (a b : RouteId) (d : Dispatch) : Prop :=
  (∀ r m, d.layout.route? a = some r → m ∈ r.clients → d.owner? m ≠ some (.route b)) ∧
  ∀ r m, d.layout.route? b = some r → m ∈ r.clients → d.owner? m ≠ some (.route a)

theorem Straight.symm (hd : Straight a b d) : Straight b a d := ⟨hd.2, hd.1⟩

/-- Two routes stay in order whatever is reconciled afterwards. -/
theorem Straight.settles (hd : Straight a b d) (hs : Settles h d n d') (hl : Seated d.layout) (hab : a ≠ b) :
    Straight a b d' := by
  have hkeep : ∀ {x y : RouteId}, x ≠ y → (∀ r m, d.layout.route? x = some r → m ∈ r.clients →
      d.owner? m ≠ some (.route y)) → ∀ r m, d'.layout.route? x = some r → m ∈ r.clients → d'.owner? m ≠ some (.route y) := by
    intro x y hxy hx r m hr hm ho
    rw [hs.layout] at hr
    rcases hs.owner m with hsame | ⟨id, r', hr', hm', ho'⟩
    · exact hx r m hr hm (hsame ▸ ho)
    · rw [ho] at ho'
      cases ho'
      exact hxy (hl.client_unique hr' hr hm' hm)
  exact ⟨hkeep hab hd.1, hkeep hab.symm hd.2⟩

section Pair

variable {toB toA : List NodeId} (he : Exchanged h a b ra rb toB toA d d') (hl : Seated d.layout) (hab : a ≠ b)
  (ha : d.layout.route? a = some ra) (hb : d.layout.route? b = some rb)

include he hl hab ha hb

omit hab in
/-- A client that has been handed over is owned by the route that visits it, and every other one by the same as before. -/
theorem Exchanged.owner_of_client (hr : d.layout.route? id = some r) (hm : m ∈ r.clients) :
    d'.owner? m = if m ∈ toB ∨ m ∈ toA then some (.route id) else d.owner? m := by
  rw [he.owner]
  by_cases hA : m ∈ toA
  · have hA' := (he.mem_toA m).mp hA
    rw [if_pos hA', if_pos (.inr hA), hl.client_unique ha hr hA'.2 hm]
  · rw [if_neg fun hA' => hA ((he.mem_toA m).mpr hA')]
    by_cases hB : m ∈ toB
    · have hB' := (he.mem_toB m).mp hB
      rw [if_pos hB', if_pos (.inl hB), hl.client_unique hb hr hB'.2 hm]
    · rw [if_neg fun hB' => hB ((he.mem_toB m).mpr hB'), if_neg (not_or.mpr ⟨hB, hA⟩)]

theorem Exchanged.mem_misplaced_iff : m ∈ d.misplaced ↔ m ∈ toB ++ toA ∨ m ∈ d'.misplaced := by
  rw [List.mem_append, mem_misplaced, mem_misplaced, he.layout]
  constructor
  · rintro ⟨id, r, hr, hm, ho⟩
    by_cases hmoved : m ∈ toB ∨ m ∈ toA
    · exact .inl hmoved
    · refine .inr ⟨id, r, hr, hm, ?_⟩
      rwa [he.owner_of_client hl ha hb hr hm, if_neg hmoved]
  · rintro ((hB | hA) | ⟨id, r, hr, hm, ho⟩)
    · obtain ⟨ho, hm⟩ := (he.mem_toB m).mp hB
      exact ⟨b, rb, hb, hm, by simpa [ho] using hab⟩
    · obtain ⟨ho, hm⟩ := (he.mem_toA m).mp hA
      exact ⟨a, ra, ha, hm, by simpa [ho] using hab.symm⟩
    · rw [he.owner_of_client hl ha hb hr hm] at ho
      split at ho
      · exact absurd rfl ho
      · exact ⟨id, r, hr, hm, ho⟩

omit hl ha hb in
theorem Exchanged.disjoint : List.Disjoint toB toA := fun m hB hA => hab (by
  have ho := ((he.mem_toB m).mp hB).1.symm.trans ((he.mem_toA m).mp hA).1
  simpa using ho)

/-- What has been handed over is misplaced no longer. -/
theorem Exchanged.perm_misplaced : d.misplaced.Perm (toB ++ toA ++ d'.misplaced) := by
  have hgone : List.Disjoint (toB ++ toA) d'.misplaced := fun m hmoved hm => by
    obtain ⟨id, r, hr, hm, ho⟩ := mem_misplaced.mp hm
    rw [he.layout] at hr
    rw [he.owner_of_client hl ha hb hr hm, if_pos (List.mem_append.mp hmoved)] at ho
    exact ho rfl
  refine (List.perm_ext_iff_of_nodup (nodup_misplaced hl) ?_).mpr fun m => ?_
  · exact (he.nodup_toB.append he.nodup_toA (he.disjoint hab)).append (nodup_misplaced (he.layout ▸ hl)) hgone
  · rw [he.mem_misplaced_iff hl hab ha hb, ← List.mem_append]

theorem Exchanged.straight : Straight a b d' := by
  constructor
  · intro r m hr hm ho
    rw [he.layout] at hr
    rw [he.owner_of_client hl ha hb hr hm] at ho
    split at ho
    · exact hab (by simpa using ho)
    · rename_i hmoved
      rw [ha] at hr
      cases hr
      exact hmoved (.inr ((he.mem_toA m).mpr ⟨ho, hm⟩))
  · intro r m hr hm ho
    rw [he.layout] at hr
    rw [he.owner_of_client hl ha hb hr hm] at ho
    split at ho
    · exact hab (by simpa using ho.symm)
    · rename_i hmoved
      rw [hb] at hr
      cases hr
      exact hmoved (.inl ((he.mem_toB m).mpr ⟨ho, hm⟩))

theorem Exchanged.settles (hbooked : Booked h [] d') : Settles h d (toB.length + toA.length) d' where
  layout := he.layout
  booked := hbooked
  owner m := by
    rw [he.owner]
    split
    · rename_i hA
      exact .inr ⟨a, ra, ha, hA.2, rfl⟩
    · split
      · rename_i hB
        exact .inr ⟨b, rb, hb, hB.2, rfl⟩
      · exact .inl rfl
  count := by
    rw [(he.perm_misplaced hl hab ha hb).length_eq, List.length_append, List.length_append]

end Pair

/-- Two routes with handles are reconciled, and nothing else happens. -/
theorem reconcile_settles (hd : Booked h [] d) (hl : Seated d.layout) (hfirm : h.Firm d.layout)
    (ha : (d.layout.route? a).isSome) (hb : (d.layout.route? b).isSome) :
    ∃ n d', reconcile a b d = .ok n d' ∧ Settles h d n d' ∧ (a ≠ b → Straight a b d') := by
  have hroutes : a ∈ h.routes ∧ b ∈ h.routes := ⟨hfirm ha, hfirm hb⟩
  obtain ⟨ra, ha⟩ := Option.isSome_iff_exists.mp ha
  obtain ⟨rb, hb⟩ := Option.isSome_iff_exists.mp hb
  by_cases hab : a = b
  · refine ⟨0, d, ?_, .refl hd, fun hne => absurd hab hne⟩
    unfold reconcile
    rw [get_bind_run, scan_eq_ok ha, ofResult_ok_bind, if_pos hab]
    rfl
  · obtain ⟨toB, toA, d', he, hbooked, hrun⟩ := exchange_firm hd hl hab ha hb hroutes
    exact ⟨toB.length + toA.length, d', hrun, he.settles hl hab ha hb hbooked, fun _ => he.straight hl hab ha hb⟩

/-! ### Reconciling all pairs -/

/-- Reconciles pairs of routes one after the other, and adds up how many nodes were handed over. -/
def reconcileAll : List (RouteId × RouteId) → DispatchM Nat
  | [] => pure 0
  | (a, b) :: pairs => do
    let n ← reconcile a b
    let k ← reconcileAll pairs
    return n + k

/-- All pairs are pairs of routes that are there, and any two routes are among them, in this order or the other one. -/
structure Covers (l : Layout) (pairs : List (RouteId × RouteId)) : Prop where
  live : ∀ {a b}, (a, b) ∈ pairs → (l.route? a).isSome ∧ (l.route? b).isSome
  all : ∀ {a b}, (l.route? a).isSome → (l.route? b).isSome → a ≠ b → (a, b) ∈ pairs ∨ (b, a) ∈ pairs

theorem reconcileAll_settles (hd : Booked h [] d) (hl : Seated d.layout) (hfirm : h.Firm d.layout)
    (hlive : ∀ a b, (a, b) ∈ pairs → (d.layout.route? a).isSome ∧ (d.layout.route? b).isSome) :
    ∃ n d', reconcileAll pairs d = .ok n d' ∧ Settles h d n d' ∧ ∀ a b, (a, b) ∈ pairs → a ≠ b → Straight a b d' := by
  induction pairs generalizing d with
  | nil => exact ⟨0, d, rfl, .refl hd, fun _ _ hmem => absurd hmem List.not_mem_nil⟩
  | cons pair pairs ih =>
    obtain ⟨a, b⟩ := pair
    obtain ⟨ha, hb⟩ := hlive a b List.mem_cons_self
    obtain ⟨n, d₁, hrun₁, hs₁, hstraight₁⟩ := reconcile_settles hd hl hfirm ha hb
    have hlayout := hs₁.layout
    obtain ⟨k, d₂, hrun₂, hs₂, hstraight₂⟩ := ih hs₁.booked (hlayout ▸ hl) (hlayout ▸ hfirm) fun x y hxy => by
      rw [hlayout]
      exact hlive x y (List.mem_cons_of_mem _ hxy)
    refine ⟨n + k, d₂, ?_, hs₁.trans hs₂, fun x y hxy hne => ?_⟩
    · unfold reconcileAll
      rw [bind_ok hrun₁, bind_ok hrun₂]
      rfl
    · rcases List.mem_cons.mp hxy with heq | hxy
      · cases heq
        exact (hstraight₁ hne).settles hs₂ (hlayout ▸ hl) hne
      · exact hstraight₂ x y hxy hne

theorem Settles.tended (hs : Settles h d n d') (hd : Tended d) : Tended d' := fun m => by
  rw [hs.layout, hd m]
  constructor
  · rintro ⟨id, ho⟩
    rcases hs.owner m with hsame | ⟨id', -, -, -, ho'⟩
    · exact ⟨id, hsame.trans ho⟩
    · exact ⟨id', ho'⟩
  · rintro ⟨id, ho⟩
    rcases hs.owner m with hsame | ⟨id', r, hr, hm, -⟩
    · exact ⟨id, hsame ▸ ho⟩
    · exact (hd m).mp ⟨id', r, hr, hm⟩

/-- When no two routes have anything to hand over, every route owns what it visits. -/
theorem reconciled_of_straight (hd : Tended d) (he : Entered d)
    (hstraight : ∀ a b, (d.layout.route? a).isSome → (d.layout.route? b).isSome → a ≠ b → Straight a b d) :
    Reconciled d := by
  -- The owner of a client is a route, and not another one than the route that visits it.
  have hvisited : ∀ {id r m}, d.layout.route? id = some r → m ∈ r.clients → d.owner? m = some (.route id) := by
    intro id r m hr hm
    obtain ⟨x, ho⟩ := (hd m).mp ⟨id, r, hr, hm⟩
    by_cases hx : x = id
    · exact hx ▸ ho
    · have hlive : (d.layout.route? x).isSome := he.store x ▸ he.owner ho
      have hlive' : (d.layout.route? id).isSome := by rw [hr]; rfl
      exact absurd ho ((hstraight id x hlive' hlive (Ne.symm hx)).1 r m hr hm)
  intro id r m hr
  refine ⟨hvisited hr, fun ho => ?_⟩
  obtain ⟨x, s, hs, hm⟩ := (hd m).mpr ⟨id, ho⟩
  have hx := (hvisited hs hm).symm.trans ho
  cases hx
  rw [hr] at hs
  cases hs
  exact hm

theorem misplaced_eq_nil (hd : Reconciled d) : d.misplaced = [] := by
  refine List.eq_nil_iff_forall_not_mem.mpr fun m hm => ?_
  obtain ⟨id, r, hr, hm, ho⟩ := mem_misplaced.mp hm
  exact ho ((hd hr).mp hm)

/-- The same nodes have the same owners, and the stores have the same nodes and count the same handles. -/
structure Concur (d d' : Dispatch) : Prop where
  layout : d'.layout = d.layout
  owner : ∀ m, d'.owner? m = d.owner? m
  gone : ∀ {id}, d.stores.find? id = none → d'.stores.find? id = none
  store : ∀ {id s}, d.stores.find? id = some s → ∃ s', d'.stores.find? id = some s' ∧ s'.nodes.Perm s.nodes ∧
    s'.routeHandles = s.routeHandles ∧ s'.nodeHandles = s.nodeHandles

/-- What has been settled was decided by the visits and by who owned the clients that no route visits. -/
theorem Coherent.concur (hd : Coherent p h d) (hd' : Coherent p h d') (hlayout : d'.layout = d.layout)
    (howner : ∀ m, d'.owner? m = d.owner? m) : Concur d d' where
  layout := hlayout
  owner := howner
  gone {id} hs := by
    rw [← Option.isNone_iff_eq_none, ← Option.not_isSome, hd'.entered.store, hlayout, ← hd.entered.store, hs]
    rfl
  store {id s} hs := by
    obtain ⟨r, hr⟩ := hd.entered.route_of_store hs
    have hr' : d'.layout.route? id = some r := hlayout ▸ hr
    obtain ⟨s', hs'⟩ := hd'.entered.store_of_route hr'
    refine ⟨s', hs', ?_, ?_, ?_⟩
    · refine (List.perm_ext_iff_of_nodup (hd'.entered.nodup hs') (hd.entered.nodup hs)).mpr fun m => ?_
      rw [hd'.mem_store_iff hr' hs', hd.mem_store_iff hr hs]
    · rw [← routeHandles_of_store hs, ← routeHandles_of_store hs', hd'.held.routes, hd.held.routes]
    · rw [hd'.nodeHandles_eq hr' hs', hd.nodeHandles_eq hr hs]

/-- Nodes that end with other owners in one way of settling than in the other would be visited, and then the visits decide. -/
theorem Settles.owner_unique (hs : Settles h d n d') (hs' : Settles h d k d'') (hd' : Reconciled d') (hd'' : Reconciled d'')
    (m : NodeId) : d''.owner? m = d'.owner? m := by
  have hvisited : ∀ {id r}, d.layout.route? id = some r → m ∈ r.clients → d''.owner? m = d'.owner? m := by
    intro id r hr hm
    rw [(hd' (hs.layout ▸ hr)).mp hm, (hd'' (hs'.layout ▸ hr)).mp hm]
  rcases hs.owner m with hsame | ⟨id, r, hr, hm, -⟩
  · rcases hs'.owner m with hsame' | ⟨id, r, hr, hm, -⟩
    · rw [hsame, hsame']
    · exact hvisited hr hm
  · exact hvisited hr hm

/-- Reconciling all pairs of routes puts everything in order. -/
theorem Shifted.reconcileAll_run (hm : Shifted p d d') (hd : Coherent p h d) (hfirm : h.Firm d.layout)
    (hpairs : Covers d'.layout pairs) :
    ∃ d'', reconcileAll pairs d' = .ok d'.misplaced.length d'' ∧ Settles h d' d'.misplaced.length d'' ∧
      Coherent p h d'' := by
  have hl : Seated d'.layout := hm.reshuffles.seated
  obtain ⟨n, d'', hrun, hs, hstraight⟩ := reconcileAll_settles (hm.booked hd.booked hd.seated) hl
    (hfirm.keepsRuns hm.reshuffles.toKeepsRuns) fun _ _ hmem => hpairs.live hmem
  have hlayout := hs.layout
  have hrec : Reconciled d'' := by
    refine reconciled_of_straight (hs.tended (hm.tended hd.tended)) hs.booked.entered fun a b ha hb hab => ?_
    rw [hlayout] at ha hb
    rcases hpairs.all ha hb hab with hmem | hmem
    · exact hstraight a b hmem hab
    · exact (hstraight b a hmem hab.symm).symm
  have hcount : n = d'.misplaced.length := by
    have hsum := hs.count
    rwa [misplaced_eq_nil hrec, List.length_nil, Nat.add_zero] at hsum
  rw [hcount] at hrun hs
  exact ⟨d'', hrun, hs, hs.booked.coherent (hlayout ▸ hl) (hlayout ▸ hm.reshuffles.sited hd.sited)
    (hlayout ▸ hm.current) hrec⟩

/-- Every route of a clean run has a handle of its own. Then any moves are made, and nothing is reconciled. The books
    agree all the time, and once all pairs of routes are reconciled everything is in order; as many nodes have been
    handed over as were in other routes than their owner, and the order of the pairs makes no difference. -/
theorem deferred_reconciliation (hr : Reachable p h d) (hfirm : h.Firm d.layout) (hmoves : Shifts p d d') :
    d'.isConsistent = true ∧ d'.misplaced.Nodup ∧ ∀ pairs, Covers d'.layout pairs →
      ∃ d'', reconcileAll pairs d' = .ok d'.misplaced.length d'' ∧ d''.layout = d'.layout ∧ d''.isConsistent = true ∧
        (∀ id r, d''.layout.route? id = some r → d''.isReconciled id = .ok true ∧
          ∃ s, d''.stores.find? id = some s ∧ s.nodes.Perm r.clients) ∧
        ∀ pairs', Covers d'.layout pairs' → ∃ e, reconcileAll pairs' d' = .ok d'.misplaced.length e ∧ Concur d'' e := by
  have hd := hr.coherent
  have hm := hmoves.shifted hd.seated hd.sited hd.current
  refine ⟨(hm.booked hd.booked hd.seated).isConsistent, nodup_misplaced hm.reshuffles.seated, fun pairs hpairs => ?_⟩
  obtain ⟨d'', hrun, hs, hd''⟩ := hm.reconcileAll_run hd hfirm hpairs
  refine ⟨d'', hrun, hs.layout, hd''.isConsistent, fun id r hroute => ⟨hd''.isReconciled hroute, ?_⟩, fun pairs' hpairs' => ?_⟩
  · obtain ⟨s, hs⟩ := hd''.entered.store_of_route hroute
    refine ⟨s, hs, (List.perm_ext_iff_of_nodup (hd''.entered.nodup hs) (hd''.seated.nodup_clients hroute)).mpr fun m => ?_⟩
    exact hd''.mem_store_iff hroute hs
  · obtain ⟨e, hrun', hs', he⟩ := hm.reconcileAll_run hd hfirm hpairs'
    exact ⟨e, hrun', hd''.concur he (hs'.layout.trans hs.layout.symm)
      fun m => hs.owner_unique hs' hd''.reconciled he.reconciled m⟩

namespace Sample

/-- The client of the second route has gone to the first one, which does not own it yet. -/
def shifted : Dispatch := after (onLayout (Move.perform problem .swapTails ⟨⟨2, 0⟩⟩ ⟨⟨3, 0⟩⟩) dispatch)

theorem shifts : Shifts problem dispatch shifted :=
  .moved .refl .swapTails ⟨⟨2, 0⟩⟩ ⟨⟨3, 0⟩⟩ (eq_ok (a := (⟨⟨0, 0⟩⟩, ⟨⟨1, 0⟩⟩)) (by decide +kernel))

theorem firm : handles.Firm dispatch.layout := fun {id} hid =>
  (by decide +kernel : ∀ id ∈ dispatch.layout.routeIds, id ∈ handles.routes) id (mem_routeIds.mpr hid)

theorem covers : Covers shifted.layout [(⟨⟨1, 0⟩⟩, ⟨⟨0, 0⟩⟩)] where
  live {a b} hmem := by
    cases List.mem_singleton.mp hmem
    exact ⟨by decide +kernel, by decide +kernel⟩
  all {a b} ha hb hab := by
    have hids : shifted.layout.routeIds = [⟨⟨0, 0⟩⟩, ⟨⟨1, 0⟩⟩] := by decide +kernel
    have ha := mem_routeIds.mpr ha
    have hb := mem_routeIds.mpr hb
    rw [hids, List.mem_pair] at ha hb
    rcases ha with rfl | rfl <;> rcases hb with rfl | rfl
    · exact absurd rfl hab
    · exact .inr List.mem_cons_self
    · exact .inl List.mem_cons_self
    · exact absurd rfl hab

end Sample

theorem deferred_reconciliation_in_sample :
    (Reachable Sample.problem Sample.handles Sample.dispatch ∧ Sample.handles.Firm Sample.dispatch.layout ∧
      Shifts Sample.problem Sample.dispatch Sample.shifted) ∧
    ∃ d'', reconcileAll [(⟨⟨1, 0⟩⟩, ⟨⟨0, 0⟩⟩)] Sample.shifted = .ok 1 d'' ∧ d''.isReconciled ⟨⟨0, 0⟩⟩ = .ok true := by
  have hcount : Sample.shifted.misplaced.length = 1 := by decide +kernel
  obtain ⟨-, -, hall⟩ := deferred_reconciliation Sample.reachable Sample.firm Sample.shifts
  obtain ⟨d'', hrun, hlayout, -, hroutes, -⟩ := hall _ Sample.covers
  obtain ⟨r, hr⟩ : ∃ r, Sample.shifted.layout.route? ⟨⟨0, 0⟩⟩ = some r :=
    Option.isSome_iff_exists.mp (by decide +kernel)
  rw [hcount] at hrun
  rw [← hlayout] at hr
  obtain ⟨hreconciled, -⟩ := hroutes _ r hr
  exact ⟨⟨Sample.reachable, Sample.firm, Sample.shifts⟩, d'', hrun, hreconciled⟩

end Dispatch
end Fleet
