import Fleet.Proofs.Dispatch.Placing
import Fleet.Proofs.Move.Perform

/-! Reconciling two routes.

    While nodes are handed over, and before, the visits of two routes may belong to the other one. All that is
    known then is that together they own what they visit together (`ReconciledBut`); this is also how a move
    leaves them. -/

namespace Fleet
namespace Dispatch

open Layout DispatchM

variable {p : Problem} {h : Handles} {idle : List RouteId} {d d' : Dispatch} {a b id : RouteId} {m : NodeId} {ra rb : Route}

/-! ### The books without the visits -/

/-- The books are in order, for the handles `h`, whatever the routes visit. -/
structure Booked (h : Handles) (idle : List RouteId) (d : Dispatch) : Prop where
  entered : Entered d
  counted : Counted d
  kept : KeptBut [] d
  held : Held h d
  busy : ∀ {id s}, d.stores.find? id = some s → id ∉ idle → s.isIdle = false

namespace Booked

theorem mono {idle' : List RouteId} (hd : Booked h idle d) (hidle : idle ⊆ idle') : Booked h idle' d :=
  { hd with busy := fun hs hne => hd.busy hs fun hmem => hne (hidle hmem) }

theorem coherent (hd : Booked h idle d) (hl : Seated d.layout) (hs : Sited p d.layout) (hc : Current p d.layout)
    (hrec : Reconciled d) : CoherentBut p h idle [] d :=
  ⟨hl, hs, hc, hd.entered, hrec, hd.counted, hd.kept, hd.held, hd.busy⟩

theorem reassign (hd : Booked h idle d) (hl : Seated d.layout) (hm : d.owner? m = some (.route a)) (ha : a ∈ idle)
    (hb : (d.stores.find? b).isSome) (hr : Reassigns d m (some (.route b)) d') (hlayout : d'.layout = d.layout) :
    Booked h idle d' := by
  have hdepot := hd.entered.not_isDepot hm
  have hdepots : SameDepots d.layout d'.layout := hlayout ▸ .refl _
  have hkeeps : Reseats d.layout d'.layout := by
    rw [hlayout]
    exact .refl hl
  have hlive := hkeeps.live (Option.isSome_iff_exists.mpr (hd.entered.live_of_owner hm))
  have htarget : ∀ id, some (Owner.route b) = some (.route id) → (d.stores.find? id).isSome := fun id hid => by
    cases hid
    exact hb
  have hkept : KeptBut [m] d := fun hx _ => hd.kept hx List.not_mem_nil
  exact ⟨hr.entered hd.entered hdepot hdepots hlive htarget,
    hr.counted hd.entered hdepot hdepots hlive htarget hl (hlayout ▸ hl) hd.counted (by simp),
    hr.kept_of_ne (by simp) hkept, hr.held hd.held, fun hs' hid => hr.busy hd.busy (fun id hid => by
      rw [hm] at hid
      cases hid
      exact ha) hs' hid⟩

end Booked

theorem CoherentBut.booked (hd : CoherentBut p h idle [] d) : Booked h idle d :=
  ⟨hd.entered, hd.counted, hd.kept, hd.held, hd.busy⟩

/-! ### Handing over several nodes -/

/-- Some nodes have gone from `a` to `b` in the books, with the handles to them. -/
structure HandedOver (a b : RouteId) (ms : List NodeId) (d d' : Dispatch) : Prop where
  layout : d'.layout = d.layout
  owner : ∀ x, d'.owner? x = if x ∈ ms then some (.route b) else d.owner? x
  stores : ∀ id, d'.stores.find? id = (d.stores.find? id).map (ms.foldl (restocked a b d.handleCount id))
  host : d'.host = d.host
  handles : d'.handles = d.handles

theorem routeHandles_restocked {count : NodeId → Nat} {ms : List NodeId} :
    ∀ s : Store, (ms.foldl (restocked a b count id) s).routeHandles = s.routeHandles := by
  induction ms with
  | nil => exact fun _ => rfl
  | cons m ms ih =>
    intro s
    rw [List.foldl_cons, ih]
    unfold restocked
    split
    · rfl
    · split <;> rfl

namespace HandedOver

variable {ms : List NodeId}

theorem routeHandles (h : HandedOver a b ms d d') (id : RouteId) : d'.routeHandles id = d.routeHandles id := by
  unfold Dispatch.routeHandles
  rw [h.stores, Option.map_map]
  exact congrArg (Option.getD · 0) (Option.map_congr fun s _ => routeHandles_restocked s)

theorem isSome_store (h : HandedOver a b ms d d') (id : RouteId) :
    (d'.stores.find? id).isSome = (d.stores.find? id).isSome := by
  rw [h.stores, Option.isSome_map]

end HandedOver

theorem handOverAll_run (hab : a ≠ b) (ha : a ∈ idle) {ms : List NodeId} : ∀ {d : Dispatch}, Booked h idle d →
    Seated d.layout → (d.stores.find? b).isSome → ms.Nodup → (∀ m ∈ ms, d.owner? m = some (.route a)) →
    ∃ d', handOverAll a b ms d = .ok () d' ∧ Booked h idle d' ∧ HandedOver a b ms d d' := by
  induction ms with
  | nil =>
    intro d hd _ _ _ _
    exact ⟨d, rfl, hd, rfl, by simp, fun id => by simp, rfl, rfl⟩
  | cons m ms ih =>
    intro d hd hl hb hnodup hown
    rw [List.nodup_cons] at hnodup
    have hm := hown m List.mem_cons_self
    obtain ⟨d₁, hrun₁, hlayout₁, hr₁, hhost₁, hstores₁⟩ := handOver_run hd.entered hl hd.counted hm hab hb
    have hown₁ : ∀ x ∈ ms, d₁.owner? x = some (.route a) := fun x hx => by
      rw [hr₁.owner_of_ne fun heq => hnodup.1 (heq ▸ hx)]
      exact hown x (List.mem_cons_of_mem _ hx)
    obtain ⟨d', hrun', hd', hrest⟩ := ih (hd.reassign hl hm ha hb hr₁ hlayout₁) (hlayout₁ ▸ hl)
      (by rw [hr₁.isSome_store, hb]) hnodup.2 hown₁
    have hcount : d₁.handleCount = d.handleCount := handleCount_congr hr₁.handles
    refine ⟨d', ?_, hd', hrest.layout.trans hlayout₁, fun x => ?_, fun id => ?_, hrest.host.trans hhost₁,
      hrest.handles.trans hr₁.handles⟩
    · unfold handOverAll
      rw [bind_ok hrun₁, hrun']
    · rw [hrest.owner, hr₁.owner]
      by_cases hxm : x = m
      · simp [hxm, hnodup.1]
      · simp [hxm]
    · rw [hrest.stores, hstores₁, Option.map_map, hcount]
      rfl

/-- First from `a` to `b`, then the other way round. -/
theorem handOverAll_twice {toB toA : List NodeId} (hab : a ≠ b) (ha : a ∈ idle) (hb : b ∈ idle) (hd : Booked h idle d)
    (hl : Seated d.layout) (hsa : (d.stores.find? a).isSome) (hsb : (d.stores.find? b).isSome) (hnodupB : toB.Nodup)
    (hnodupA : toA.Nodup) (hownB : ∀ m ∈ toB, d.owner? m = some (.route a)) (hownA : ∀ m ∈ toA, d.owner? m = some (.route b)) :
    ∃ d₁ d₂, handOverAll a b toB d = .ok () d₁ ∧ handOverAll b a toA d₁ = .ok () d₂ ∧ Booked h idle d₂ ∧
      HandedOver a b toB d d₁ ∧ HandedOver b a toA d₁ d₂ := by
  obtain ⟨d₁, hrun₁, hd₁, h₁⟩ := handOverAll_run hab ha hd hl hsb hnodupB hownB
  have hownA₁ : ∀ m ∈ toA, d₁.owner? m = some (.route b) := fun m hm => by
    rw [h₁.owner, hownA m hm, ite_self]
  obtain ⟨d₂, hrun₂, hd₂, h₂⟩ := handOverAll_run hab.symm hb hd₁ (h₁.layout ▸ hl) (by rw [h₁.isSome_store, hsa]) hnodupA hownA₁
  exact ⟨d₁, d₂, hrun₁, hrun₂, hd₂, h₁, h₂⟩

/-! ### Two routes together -/

/-- Every route owns what it visits, except that each of two routes may visit nodes that the other one owns. -/
structure ReconciledBut (a b : RouteId) (d : Dispatch) : Prop where
  others : ∀ {id r m}, id ≠ a → id ≠ b → d.layout.route? id = some r → (m ∈ r.clients ↔ d.owner? m = some (.route id))
  both : ∀ {ra rb m}, d.layout.route? a = some ra → d.layout.route? b = some rb →
    (m ∈ ra.clients ∨ m ∈ rb.clients ↔ d.owner? m = some (.route a) ∨ d.owner? m = some (.route b))

theorem Reconciled.but (hd : Reconciled d) (a b : RouteId) : ReconciledBut a b d where
  others _ _ hr := hd hr
  both ha hb := or_congr (hd ha) (hd hb)

/-- Once every node of the two routes has gone to the one that visits it, all is reconciled. -/
theorem ReconciledBut.reconciled (hd : ReconciledBut a b d) (hab : a ≠ b) (hl : Seated d.layout)
    (ha : d.layout.route? a = some ra) (hb : d.layout.route? b = some rb) (hlayout : d'.layout = d.layout)
    (howner : ∀ x, d'.owner? x = if d.owner? x = some (.route b) ∧ x ∈ ra.clients then some (.route a)
      else if d.owner? x = some (.route a) ∧ x ∈ rb.clients then some (.route b) else d.owner? x) :
    Reconciled d' := by
  intro id r m hr
  rw [hlayout] at hr
  rw [howner]
  have hvisits : ¬(m ∈ ra.clients ∧ m ∈ rb.clients) := fun hm => hab (hl.client_unique hb ha hm.2 hm.1)
  have howners : ¬(d.owner? m = some (.route a) ∧ d.owner? m = some (.route b)) := fun hm => hab (by
    rw [hm.1] at hm
    simpa using hm.2)
  have hboth := hd.both ha hb (m := m)
  by_cases hida : id = a
  · rw [hida, ha] at hr
    cases hr
    rw [hida]
    split_ifs with h1 h2
    · exact iff_of_true h1.2 rfl
    · exact iff_of_false (fun hm => hvisits ⟨hm, h2.2⟩) (by simpa using hab.symm)
    · grind
  · by_cases hidb : id = b
    · rw [hidb, hb] at hr
      cases hr
      rw [hidb]
      split_ifs with h1 h2
      · exact iff_of_false (fun hm => hvisits ⟨h1.2, hm⟩) (by simpa using hab)
      · exact iff_of_true h2.2 rfl
      · grind
    · rw [hd.others hida hidb hr]
      split_ifs with h1 h2
      · simp [h1.1, Ne.symm hida, Ne.symm hidb]
      · simp [h2.1, Ne.symm hida, Ne.symm hidb]
      · rfl

/-! ### Reconciling -/

theorem scan_eq_ok (ha : d.layout.route? a = some ra) : d.scan a = .ok ra.clients := by
  unfold scan
  rw [route_eq_ok ha]
  rfl

theorem scan_eq_refused (ha : d.layout.route? a = none) : d.scan a = .error (.refused (.routeReleased a)) := by
  unfold scan
  rw [route_eq_refused ha]
  rfl

/-- The nodes of a store that another route visits. -/
theorem mem_filter_store {s : Store} {clients : List NodeId} (hd : Entered d) (hs : d.stores.find? a = some s) :
    m ∈ s.nodes.filter (· ∈ clients) ↔ d.owner? m = some (.route a) ∧ m ∈ clients := by
  rw [List.mem_filter, hd.owned hs, decide_eq_true_eq]

/-- The store of the route `id` after `toB` has gone from `a` to `b` and then `toA` from `b` to `a`. -/
def traded (a b : RouteId) (toB toA : List NodeId) (count : NodeId → Nat) (id : RouteId) (s : Store) : Store :=
  toA.foldl (restocked b a count id) (toB.foldl (restocked a b count id) s)

theorem traded_of_ne {toB toA : List NodeId} {count : NodeId → Nat} {s : Store} (ha : id ≠ a) (hb : id ≠ b) :
    traded a b toB toA count id s = s := by
  unfold traded
  rw [List.foldl_fixed' fun _ => restocked_of_ne ha hb, List.foldl_fixed' fun _ => restocked_of_ne hb ha]

/-- Of the nodes that two routes own, `toB` has gone from `a` to `b` and then `toA` from `b` to `a`: those that the other
    one of the two visits. -/
structure Exchanged (h : Handles) (a b : RouteId) (ra rb : Route) (toB toA : List NodeId) (d d' : Dispatch) : Prop where
  eq_toB : ∀ s, d.stores.find? a = some s → toB = s.nodes.filter (· ∈ rb.clients)
  eq_toA : ∀ s, d.stores.find? b = some s → toA = s.nodes.filter (· ∈ ra.clients)
  mem_toB : ∀ x, x ∈ toB ↔ d.owner? x = some (.route a) ∧ x ∈ rb.clients
  mem_toA : ∀ x, x ∈ toA ↔ d.owner? x = some (.route b) ∧ x ∈ ra.clients
  nodup_toB : toB.Nodup
  nodup_toA : toA.Nodup
  layout : d'.layout = d.layout
  booked : Booked h [a, b] d'
  host : d'.host = d.host
  handles : d'.handles = d.handles
  stores : ∀ id, d'.stores.find? id = (d.stores.find? id).map (traded a b toB toA d.handleCount id)
  owner : ∀ x, d'.owner? x = if d.owner? x = some (.route b) ∧ x ∈ ra.clients then some (.route a)
    else if d.owner? x = some (.route a) ∧ x ∈ rb.clients then some (.route b) else d.owner? x
  routeHandles : ∀ id, d'.routeHandles id = d.routeHandles id
  unchanged : toB = [] → toA = [] → d' = d

/-- Reconciling hands nodes over between the two routes, whatever the other routes own and visit. What comes after that
    is about routes that nothing keeps alive any more. -/
theorem exchange_run (hd : Booked h [] d) (hl : Seated d.layout) (hab : a ≠ b) (ha : d.layout.route? a = some ra)
    (hb : d.layout.route? b = some rb) :
    ∃ toB toA d', Exchanged h a b ra rb toB toA d d' ∧
      reconcile a b d = (if 0 < toB.length + toA.length then do
        retire a
        retire b
        return toB.length + toA.length
      else return 0 : DispatchM Nat) d' := by
  obtain ⟨sa, hsa⟩ := hd.entered.store_of_route ha
  obtain ⟨sb, hsb⟩ := hd.entered.store_of_route hb
  obtain ⟨toB, hB⟩ : ∃ toB, sa.nodes.filter (· ∈ rb.clients) = toB := ⟨_, rfl⟩
  obtain ⟨toA, hA⟩ : ∃ toA, sb.nodes.filter (· ∈ ra.clients) = toA := ⟨_, rfl⟩
  have hmemB : ∀ x, x ∈ toB ↔ d.owner? x = some (.route a) ∧ x ∈ rb.clients := fun x => by
    rw [← hB, mem_filter_store hd.entered hsa]
  have hmemA : ∀ x, x ∈ toA ↔ d.owner? x = some (.route b) ∧ x ∈ ra.clients := fun x => by
    rw [← hA, mem_filter_store hd.entered hsb]
  have hnodupB : toB.Nodup := hB ▸ (hd.entered.nodup hsa).filter _
  have hnodupA : toA.Nodup := hA ▸ (hd.entered.nodup hsb).filter _
  -- In between either route may have nothing that keeps it.
  have hidle : a ∈ [a, b] ∧ b ∈ [a, b] := by simp
  obtain ⟨d₁, d₂, hrun₁, hrun₂, hd₂, h₁, h₂⟩ := handOverAll_twice hab hidle.1 hidle.2 (hd.mono (List.nil_subset _)) hl
    (by simp [hsa]) (by simp [hsb]) hnodupB hnodupA (fun x hx => ((hmemB x).mp hx).1) fun x hx => ((hmemA x).mp hx).1
  have hcount : d₁.handleCount = d.handleCount := handleCount_congr h₁.handles
  refine ⟨toB, toA, d₂, ?_, ?_⟩
  · exact {
      eq_toB := fun s hs => by
        rw [hsa] at hs
        cases hs
        exact hB.symm
      eq_toA := fun s hs => by
        rw [hsb] at hs
        cases hs
        exact hA.symm
      mem_toB := hmemB
      mem_toA := hmemA
      nodup_toB := hnodupB
      nodup_toA := hnodupA
      layout := h₂.layout.trans h₁.layout
      booked := hd₂
      host := h₂.host.trans h₁.host
      handles := h₂.handles.trans h₁.handles
      stores := fun id => by
        rw [h₂.stores, h₁.stores, Option.map_map, hcount]
        rfl
      owner := fun x => by
        rw [h₂.owner, h₁.owner]
        exact if_congr (hmemA x) rfl (if_congr (hmemB x) rfl rfl)
      routeHandles := fun id => (h₂.routeHandles id).trans (h₁.routeHandles id)
      unchanged := fun hnilB hnilA => by
        rw [hnilB] at hrun₁
        rw [hnilA] at hrun₂
        cases hrun₁
        cases hrun₂
        rfl }
  · unfold reconcile
    rw [get_bind_run, scan_eq_ok ha, ofResult_ok_bind, if_neg hab, get_bind_run, scan_eq_ok hb, ofResult_ok_bind,
      get_bind_run, get_bind_run, hsa, hsb]
    simp only [hB, hA]
    unfold exchangeOwned
    rw [bind_ok hrun₁, bind_ok hrun₂]

theorem retire_of_busy {s : Store} (hs : d.stores.find? id = some s) (hbusy : s.isIdle = false) :
    retire id d = .ok () d := by
  unfold retire
  rw [get_bind_run, hs]
  simp only [hbusy]
  rfl

/-- A route with a handle of its own is kept alive, whatever it owns. -/
theorem Held.isIdle_of_mem {s : Store} (hd : Held h d) (hid : id ∈ h.routes) (hs : d.stores.find? id = some s) :
    s.isIdle = false := by
  have hpos : 0 < s.routeHandles := by
    rw [← routeHandles_of_store hs, hd.routes]
    exact List.count_pos_iff.mpr hid
  unfold Store.isIdle
  simp only [Bool.and_eq_false_iff, decide_eq_false_iff_not]
  exact .inl (Nat.ne_of_gt hpos)

/-- Routes that have a handle stay when their nodes have been handed over. -/
theorem exchange_firm (hd : Booked h [] d) (hl : Seated d.layout) (hab : a ≠ b) (ha : d.layout.route? a = some ra)
    (hb : d.layout.route? b = some rb) (hroutes : a ∈ h.routes ∧ b ∈ h.routes) :
    ∃ toB toA d', Exchanged h a b ra rb toB toA d d' ∧ Booked h [] d' ∧
      reconcile a b d = .ok (toB.length + toA.length) d' := by
  obtain ⟨toB, toA, d', he, hrun⟩ := exchange_run hd hl hab ha hb
  have hidle : ∀ {id s}, id ∈ [a, b] → d'.stores.find? id = some s → s.isIdle = false := by
    intro id s hid hs
    refine he.booked.held.isIdle_of_mem ?_ hs
    rcases List.mem_pair.mp hid with rfl | rfl
    · exact hroutes.1
    · exact hroutes.2
  have hretire : ∀ {id}, id ∈ [a, b] → (d.layout.route? id).isSome → retire id d' = .ok () d' := by
    intro id hid hlive
    obtain ⟨s, hs⟩ := Option.isSome_iff_exists.mp ((he.booked.entered.store id).trans (he.layout ▸ hlive))
    exact retire_of_busy hs (hidle hid hs)
  refine ⟨toB, toA, d', he, { he.booked with busy := fun {id s} hs _ => ?_ }, ?_⟩
  · by_cases hid : id ∈ [a, b]
    · exact hidle hid hs
    · exact he.booked.busy hs hid
  · rw [hrun]
    split
    · rw [bind_ok (hretire List.mem_cons_self (by rw [ha]; rfl)),
        bind_ok (hretire (List.mem_cons_of_mem _ List.mem_cons_self) (by rw [hb]; rfl))]
      rfl
    · rename_i hnone
      rw [Nat.eq_zero_of_not_pos hnone]
      rfl

/-- Reconciling puts everything in order. Routes that have a handle stay. -/
theorem reconcile_run (hd : Booked h [] d) (hl : Seated d.layout) (hs : Sited p d.layout) (hc : Current p d.layout)
    (hrec : ReconciledBut a b d) (hab : a ≠ b) (ha : d.layout.route? a = some ra) (hb : d.layout.route? b = some rb) :
    ∃ n d', reconcile a b d = .ok n d' ∧ Coherent p h d' ∧
      (0 < d.routeHandles a → 0 < d.routeHandles b → d'.layout = d.layout) ∧ Prunes d d' := by
  obtain ⟨toB, toA, d₂, he, hrun⟩ := exchange_run hd hl hab ha hb
  have hlayout := he.layout
  have hrec₂ : Reconciled d₂ := hrec.reconciled hab hl ha hb hlayout he.owner
  rw [hrun]
  split
  · have hd₃ : CoherentBut p h [a, b] [] d₂ := he.booked.coherent (hlayout ▸ hl) (hlayout ▸ hs) (hlayout ▸ hc) hrec₂
    obtain ⟨d₃, hrun₃, hd₃, h₃⟩ := retire_run hd₃
    obtain ⟨d₄, hrun₄, hd₄, h₄⟩ := retire_run hd₃
    refine ⟨toB.length + toA.length, d₄, by rw [bind_ok hrun₃, bind_ok hrun₄]; rfl, hd₄, fun hpa hpb => ?_,
      fun id r hr => hlayout ▸ h₃.prunes id r (h₄.prunes id r hr)⟩
    have h₃ : d₃ = d₂ := h₃.eq_of_held (he.routeHandles a ▸ hpa)
    have h₄ : d₄ = d₃ := h₄.eq_of_held (by rw [h₃, he.routeHandles b]; exact hpb)
    rw [h₄, h₃, hlayout]
  · -- Nothing was handed over, so nothing has lost what keeps it.
    rename_i hnone
    have hsame : d₂ = d := he.unchanged (List.eq_nil_of_length_eq_zero (by omega)) (List.eq_nil_of_length_eq_zero (by omega))
    rw [hsame] at hrec₂ ⊢
    exact ⟨0, d, rfl, hd.coherent hl hs hc hrec₂, fun _ _ => rfl, fun _ _ hr => hr⟩

/-- Reconciling routes that are in order already keeps them so; routes that are not there are refused. -/
theorem reconcile_answers (hd : Coherent p h d) (a b : RouteId) :
    Answers d (fun _ d' => Coherent p h d') (reconcile a b d) := by
  cases ha : d.layout.route? a with
  | none =>
    unfold reconcile
    rw [get_bind_run, scan_eq_refused ha]
    exact .refused
  | some ra =>
    by_cases hab : a = b
    · unfold reconcile
      rw [get_bind_run, scan_eq_ok ha, ofResult_ok_bind, if_pos hab]
      exact .ok hd
    · cases hb : d.layout.route? b with
      | none =>
        unfold reconcile
        rw [get_bind_run, scan_eq_ok ha, ofResult_ok_bind, if_neg hab, get_bind_run, scan_eq_refused hb]
        exact .refused
      | some rb =>
        obtain ⟨n, d', hrun, hd', -⟩ := reconcile_run hd.booked hd.seated hd.sited hd.current
          (Reconciled.but hd.reconciled a b) hab ha hb
        rw [hrun]
        exact .ok hd'

end Dispatch
end Fleet
