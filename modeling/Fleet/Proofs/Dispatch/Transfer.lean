import Fleet.Proofs.Dispatch.Census
import Fleet.Proofs.Dispatch.Faults

/-! Where a node goes, and what goes with it.

    A client can be put into a route, from the host or from a route, and it can be taken out of one. Of all other routes
    only the one that it leaves is concerned: it loses the client, and goes itself when that was the last thing that
    kept it. -/

namespace Fleet
namespace Dispatch

open Layout DispatchM

variable {p : Problem} {h h' : Handles} {d d₁ d' : Dispatch} {id old target : RouteId} {m x : NodeId} {o : Owner}
  {r : Route} {s : Store} {position : Nat}

/-- The route `id` owns the node `m`, which is to go to the owner `o`, and the host has no handle to the route itself or
    to another node that it holds. -/
structure Lapses (h : Handles) (d : Dispatch) (m : NodeId) (o : Owner) (id : RouteId) : Prop where
  owned : d.owner? m = some (.route id)
  ne : o ≠ .route id
  unheld : id ∉ h.routes
  nodes : ∀ x ∈ h.nodes, d.holder? x = some id → x = m

/-- The node `m` goes to the owner `o`, with the handles to it. The route that it leaves loses it, or goes with all other
    nodes that it holds if it lapses. Nothing else changes, except for the totals of a route that `m` comes to. -/
structure Transfers (p : Problem) (h : Handles) (d : Dispatch) (m : NodeId) (o : Owner) (d' : Dispatch) : Prop where
  /-- The route that visits the node is the one that owns it. -/
  owned : ∀ id r, d.layout.route? id = some r → (m ∈ r.clients ↔ d.owner? m = some (.route id))
  owner : d'.owner? m = some o
  holder : d'.holder? m = ownerRoute o
  left : ∀ id r, d.layout.route? id = some r → d.owner? m = some (.route id) → o ≠ .route id → ¬Lapses h d m o id →
    ∃ totals, d'.layout.route? id = some { r with clients := r.clients.erase m, totals }
  gone : ∀ id, Lapses h d m o id → d'.layout.route? id = none
  others : ∀ id, d.owner? m ≠ some (.route id) → o ≠ .route id → d'.layout.route? id = d.layout.route? id
  current : Current p d'.layout
  nodes : ∀ x, (d'.layout.node? x).isSome ↔
    (d.layout.node? x).isSome ∧ ∀ id, Lapses h d m o id → d.holder? x = some id → x = m
  owners : ∀ x, x ≠ m → (d'.layout.node? x).isSome → d'.owner? x = d.owner? x
  handles : ∀ x, x ≠ m → d'.handleCount x = d.handleCount x
  counts : ∀ id s s', d.stores.find? id = some s → d'.stores.find? id = some s' → s'.routeHandles = s.routeHandles ∧
    s'.nodeHandles + (if d.holder? m = some id then d.handleCount m else 0) =
      s.nodeHandles + (if ownerRoute o = some id then d'.handleCount m else 0)

/-! ### The route that is left -/

section
variable {idle : List RouteId} (hd : Coherent p h d) (hm : Relocates d m o d₁) (hd₁ : CoherentBut p h' idle [] d₁)

include hd hm hd₁ in
theorem Relocates.holder?_of_ne (hx : x ≠ m) : d₁.holder? x = d.holder? x :=
  hd.entered.holder?_congr hd.seated hd₁.entered hd₁.seated ((hm.owner x).trans (if_neg hx))
    fun id => hm.runs.sameDepots id x

include hm hd₁ in
theorem Relocates.holder?_self : d₁.holder? m = ownerRoute o := by
  have ho : d₁.owner? m = some o := (hm.owner m).trans (if_pos rfl)
  rw [hd₁.entered.holder?_of_not_isDepot hd₁.seated (hd₁.entered.not_isDepot ho), ho]
  rfl

include hd hm hd₁ in
/-- The nodes that the route holds in the end are those that it held before, but for the one that has left it. -/
theorem Relocates.holder?_iff (hid : o ≠ .route id) : d₁.holder? x = some id ↔ x ≠ m ∧ d.holder? x = some id := by
  by_cases hx : x = m
  · rw [hx, hm.holder?_self hd₁]
    refine iff_of_false (fun hheld => hid ?_) (by simp)
    cases o <;> simp_all [ownerRoute]
  · rw [hm.holder?_of_ne hd hd₁ hx, and_iff_right hx]

end

section
variable (hd : Coherent p h d) (hm : Relocates d m o d₁) (hroutes : h'.routes = h.routes)
  (hnodes : ∀ x, x ≠ m → h'.nodes.count x = h.nodes.count x)

include hd hm hroutes hnodes in
/-- If everything is in order with all routes still there, the route that was left is kept by something. -/
theorem Relocates.not_lapses (hd₁ : Coherent p h' d₁) (id : RouteId) : ¬Lapses h d m o id := fun hlapses => by
  obtain ⟨s, hs⟩ := Option.isSome_iff_exists.mp (hd.entered.owner hlapses.owned)
  obtain ⟨r, hr⟩ := hd.entered.route_of_store hs
  obtain ⟨r', hr', -⟩ := hm.runs.onward hr
  rcases hd₁.isSome_route_iff.mp (Option.isSome_iff_exists.mpr ⟨r', hr'⟩) with hheld | ⟨x, hx, hheld⟩
  · exact hlapses.unheld (hroutes ▸ hheld)
  · obtain ⟨hne, hheld⟩ := (hm.holder?_iff hd hd₁ hlapses.ne).mp hheld
    rw [← List.count_pos_iff, hnodes x hne, List.count_pos_iff] at hx
    exact hne (hlapses.nodes x hx hheld)

include hd hm hroutes hnodes in
/-- A route that goes after it was left was not kept by anything else. -/
theorem Relocates.lapses (hd₁ : CoherentBut p h' [old] [] d₁) (ho : d.owner? m = some (.route old)) (hne : o ≠ .route old)
    (hs : d₁.stores.find? old = some s) (hidle : s.isIdle = true) : Lapses h d m o old where
  owned := ho
  ne := hne
  unheld hheld := by
    rw [← List.count_pos_iff, ← hroutes, ← hd₁.held.routes, routeHandles_of_isIdle hs hidle] at hheld
    exact absurd hheld (Nat.lt_irrefl 0)
  nodes x hx hheld := by
    by_contra hxm
    have hzero := Dissolves.unheld hd₁ hs hidle ((hm.holder?_iff hd hd₁ hne).mpr ⟨hxm, hheld⟩)
    rw [hd₁.held.nodes, hnodes x hxm] at hzero
    exact absurd (List.count_pos_iff.mpr hx) (by omega)

/-- What the routes count changes with the handles to the node only. -/
theorem counts_of_holders {s' : Store} (hc : Counted d) (hc' : Counted d')
    (hcount : ∀ x, x ≠ m → d'.handleCount x = d.handleCount x)
    (hholder : ∀ x, x ≠ m → d.handleCount x ≠ 0 → d'.holder? x = d.holder? x) (hs : d.stores.find? id = some s)
    (hs' : d'.stores.find? id = some s') : s'.nodeHandles + (if d.holder? m = some id then d.handleCount m else 0) =
      s.nodeHandles + (if d'.holder? m = some id then d'.handleCount m else 0) := by
  rw [hc'.counted hs', hc.counted hs]
  exact countHandles_change m hcount hholder id

include hd hm hroutes hnodes in
/-- All routes are still there. -/
theorem Relocates.transfers (hd₁ : Coherent p h' d₁) : Transfers p h d m o d₁ := by
  have hlapses := hm.not_lapses hd hroutes hnodes hd₁
  have hhandles : ∀ x, x ≠ m → d₁.handleCount x = d.handleCount x := fun x hx => by
    rw [hd₁.held.nodes, hnodes x hx, hd.held.nodes]
  exact {
    owned := fun _ _ hr => hd.reconciled hr
    owner := (hm.owner m).trans (if_pos rfl)
    holder := hm.holder?_self hd₁
    left := fun id r hr ho hne _ => hm.source hr ho hne
    gone := fun id hgone => absurd hgone (hlapses id)
    others := fun id ho hne => hm.others ho hne
    current := hd₁.current
    nodes := fun x => by
      rw [hm.runs.isSome, iff_self_and]
      exact fun _ id hgone => absurd hgone (hlapses id)
    owners := fun x hx _ => (hm.owner x).trans (if_neg hx)
    handles := hhandles
    counts := fun id s s' hs hs' => by
      refine ⟨?_, ?_⟩
      · rw [← routeHandles_of_store hs, ← routeHandles_of_store hs', hd₁.held.routes, hd.held.routes, hroutes]
      · rw [← hm.holder?_self hd₁]
        exact counts_of_holders hd.counted hd₁.counted hhandles (fun x hx _ => hm.holder?_of_ne hd hd₁ hx) hs hs' }

include hd hm hroutes hnodes in
/-- The route that was left has gone. -/
theorem Relocates.transfers_of_dissolves (hd₁ : CoherentBut p h' [old] [] d₁) (ho : d.owner? m = some (.route old))
    (hne : o ≠ .route old) (hs : d₁.stores.find? old = some s) (hr : d₁.layout.route? old = some r)
    (hidle : s.isIdle = true) (hgone : Dissolves d₁ old r s d') : Transfers p h d m o d' := by
  have hlapses := hm.lapses hd hroutes hnodes hd₁ ho hne hs hidle
  have hold : ∀ {id}, d.owner? m = some (.route id) → id = old := fun hid => by simpa [ho] using hid.symm
  have hd' : Coherent p h' d' := hgone.coherent hd₁ hs hr hidle
  have hself : d₁.holder? m = ownerRoute o := hm.holder?_self hd₁
  have hfree : d₁.holder? m ≠ some old := fun hheld => ((hm.holder?_iff hd hd₁ hne).mp hheld).1 rfl
  have howner : ∀ {x}, d₁.holder? x ≠ some old → d'.owner? x = d₁.owner? x := fun {x} hx => by
    rw [hgone.owner, if_neg fun hmem => hx ((Dissolves.held_iff hd₁.entered hd₁.seated hs hr).mp (.inl hmem))]
  have hholder : ∀ {x}, d₁.holder? x ≠ some old → d'.holder? x = d₁.holder? x :=
    Dissolves.holder?_of_ne hd₁.entered hd₁.seated hs hr hgone
  have hnode : ∀ {x}, (d'.layout.node? x).isSome ↔ (d₁.layout.node? x).isSome ∧ d₁.holder? x ≠ some old :=
    Dissolves.isSome_node hd₁.entered hd₁.seated hs hr hgone
  have hhandles : ∀ x, x ≠ m → d'.handleCount x = d.handleCount x := fun x hx => by
    rw [hd'.held.nodes, hnodes x hx, hd.held.nodes]
  exact {
    owned := fun _ _ hr => hd.reconciled hr
    owner := (howner hfree).trans ((hm.owner m).trans (if_pos rfl))
    holder := (hholder hfree).trans hself
    left := fun id _ _ hid _ hkept => absurd (hold hid ▸ hlapses) hkept
    gone := fun id hid => by rw [hgone.route, if_pos (hold hid.owned)]
    others := fun id hid hout => by
      rw [hgone.route, if_neg (by rintro rfl; exact hid ho), hm.others hid hout]
    current := hd'.current
    nodes := fun x => by
      rw [hnode, hm.runs.isSome, Ne, hm.holder?_iff hd hd₁ hne]
      refine and_congr_right fun _ => ⟨fun hx id hid hheld => ?_, fun hx ⟨hxm, hheld⟩ => hxm (hx old hlapses hheld)⟩
      by_contra hxm
      exact hx ⟨hxm, hold hid.owned ▸ hheld⟩
    owners := fun x hx hlive => (howner (hnode.mp hlive).2).trans ((hm.owner x).trans (if_neg hx))
    handles := hhandles
    counts := fun id t t' ht ht' => by
      refine ⟨?_, ?_⟩
      · rw [← routeHandles_of_store ht, ← routeHandles_of_store ht', hd'.held.routes, hd.held.routes, hroutes]
      · rw [← hself, ← hholder hfree]
        refine counts_of_holders hd.counted hd'.counted hhandles (fun x hx hpos => ?_) ht ht'
        have hpos : d₁.handleCount x ≠ 0 := by rwa [hd₁.held.nodes, hnodes x hx, ← hd.held.nodes]
        rw [hholder (Dissolves.free hd₁ hs hidle hpos), hm.holder?_of_ne hd hd₁ hx] }

include hd hroutes hnodes in
theorem Passes.transfers (hp : Passes p h' d m o d₁ d') : Transfers p h d m o d' := by
  rcases hp.settles with heq | ⟨old, ho, hne, hd₁, hretires⟩
  · rw [heq]
    exact hp.relocates.transfers hd hroutes hnodes (heq ▸ hp.coherent)
  · cases hretires with
    | stays => exact hp.relocates.transfers hd hroutes hnodes hp.coherent
    | goes hs hr hidle hgone =>
      exact hp.relocates.transfers_of_dissolves hd hroutes hnodes hd₁ ho hne hs hr hidle hgone

end

/-- The route that the node has come to stays as it is. -/
theorem Passes.route_target (hp : Passes p h d m (.route target) d₁ d') :
    d'.layout.route? target = d₁.layout.route? target := by
  rcases hp.settles with heq | ⟨old, -, hne, -, hretires⟩
  · rw [heq]
  · cases hretires with
    | stays => rfl
    | goes _ _ _ hgone => rw [hgone.route, if_neg fun heq => hne (congrArg Owner.route heq)]

/-! ### Putting a node into a route, and taking it out -/

/-- A client that is there can go between the depots of a route that is there, counted without the client itself. -/
structure Placeable (d : Dispatch) (target : RouteId) (position : Nat) (m : NodeId) : Prop where
  node : (d.layout.node? m).isSome
  client : ¬IsDepot d.layout m
  route : (d.layout.route? target).isSome
  lowest : 1 ≤ position
  highest : position ≤ ((d.layout.clientsOf target).erase m).length + 1

/-- The node has come to the position in the route, whose other clients have kept their order. -/
structure Places (p : Problem) (h : Handles) (d : Dispatch) (target : RouteId) (position : Nat) (m : NodeId)
    (d' : Dispatch) : Prop extends Transfers p h d m (.route target) d' where
  clients : ∃ r totals, d.layout.route? target = some r ∧
    d'.layout.route? target = some { r with clients := (r.clients.erase m).insertIdx (position - 1) m, totals }
  visit : ∃ r, d'.layout.route? target = some r ∧ r.visits[position]? = some m
  handle : d'.handleCount m = d.handleCount m

/-- There is a client at the position of the route. -/
structure Removable (d : Dispatch) (target : RouteId) (position : Nat) : Prop where
  route : (d.layout.route? target).isSome
  lowest : 1 ≤ position
  highest : position ≤ (d.layout.clientsOf target).length

/-- The node at the position of the route has come to the host, with one more handle. -/
structure TakesOut (p : Problem) (h : Handles) (d : Dispatch) (target : RouteId) (position : Nat) (m : NodeId)
    (d' : Dispatch) : Prop extends Transfers p h d m .standalone d' where
  visit : ∃ r, d.layout.route? target = some r ∧ r.client? position = some m
  handle : d'.handleCount m = d.handleCount m + 1

/-- Where a node can be put, it has an owner, and its position is taken as it is. -/
theorem Placeable.resolves (hd : Coherent p h d) (hm : Placeable d target position m) :
    ∃ r o i, d.layout.route? target = some r ∧ d.owner? m = some o ∧ position = i + 1 ∧ i ≤ (r.clients.erase m).length ∧
      (Spot.position position).resolve ((r.clients.erase m).length + 1) r.clients.length = .ok (i + 1) := by
  obtain ⟨r, hr⟩ := Option.isSome_iff_exists.mp hm.route
  obtain ⟨o, ho⟩ := Option.isSome_iff_exists.mp (((hd.entered.live m).mp hm.node).resolve_right hm.client)
  obtain ⟨i, rfl⟩ := Nat.exists_eq_succ_of_ne_zero (Nat.pos_iff_ne_zero.mp hm.lowest)
  have hi := hm.highest
  rw [clientsOf_eq hr] at hi
  exact ⟨r, o, i, hr, ho, rfl, Nat.le_of_succ_le_succ hi, if_neg (by omega)⟩

theorem insert_places (hd : Coherent p h d) (hm : Placeable d target position m) :
    Fares (fun _ d' => Places p h d target position m d') (insert p target position m d) := by
  obtain ⟨r, o, i, hr, ho, rfl, hi, hresolve⟩ := hm.resolves hd
  refine (put_fares hd hr ho hi hresolve).mono fun _ d' ⟨d₁, hp, totals, hr₁⟩ => ?_
  have hr' := hp.route_target.trans hr₁
  refine { hp.transfers hd rfl fun _ _ => rfl with
    clients := ⟨r, totals, hr, hr'⟩
    visit := ⟨_, hr', ?_⟩
    handle := by rw [hp.coherent.held.nodes, hd.held.nodes] }
  have hlength : i < ((r.clients.erase m).insertIdx i m).length := by
    rw [List.length_insertIdx_of_le_length hi]
    omega
  refine (Route.visits_succ hlength).trans ?_
  rw [List.getElem?_insertIdx_self]
  simp [hi]

theorem insert_refused (hd : Coherent p h d) (hm : ¬Placeable d target position m) :
    ∃ why, insert p target position m d = .error (.refused why) d := by
  by_cases hnone : d.layout.route? target = none ∨ d.owner? m = none
  · exact put_refused hnone
  · rw [not_or] at hnone
    obtain ⟨r, hr⟩ := Option.ne_none_iff_exists'.mp hnone.1
    obtain ⟨o, ho⟩ := Option.ne_none_iff_exists'.mp hnone.2
    refine ⟨_, put_refused_of_resolve hd hr ho (if_pos ?_)⟩
    by_contra hin
    refine hm ⟨Option.isSome_iff_exists.mpr (hd.entered.live_of_owner ho), hd.entered.not_isDepot ho, by simp [hr], by omega, ?_⟩
    rw [clientsOf_eq hr]
    omega

/-- The last place is the one behind all other clients. -/
theorem append_eq_insert (hd : Coherent p h d) (target : RouteId) (m : NodeId) :
    append p target m d = insert p target (((d.layout.clientsOf target).erase m).length + 1) m d := by
  unfold append insert put
  rw [get_bind_run, get_bind_run]
  cases hr : d.layout.route? target with
  | none => rw [route_eq_refused hr]; rfl
  | some r =>
    rw [route_eq_ok hr, ofResult_ok_bind, ofResult_ok_bind, clientsOf_eq hr]
    cases hn : d.layout.node? m with
    | none => rw [bind_error (requireNode_refused hn), bind_error (requireNode_refused hn)]
    | some n =>
      rw [bind_ok (requireNode_run hn), bind_ok (requireNode_run hn), get_bind_run, get_bind_run]
      cases ho : d.owner? m with
      | none => rfl
      | some o =>
        simp only [highestPosition_eq hd hr ho, Spot.resolve]
        rw [if_neg (by omega)]

theorem remove_takesOut (hd : Coherent p h d) (hm : Removable d target position) :
    Fares (fun out d' => TakesOut p h d target position out d') (remove p target position d) := by
  obtain ⟨r, hr⟩ := Option.isSome_iff_exists.mp hm.route
  obtain ⟨i, rfl⟩ := Nat.exists_eq_succ_of_ne_zero (Nat.pos_iff_ne_zero.mp hm.lowest)
  have hi := hm.highest
  rw [clientsOf_eq hr] at hi
  have hout := List.getElem?_eq_getElem (l := r.clients) hi
  refine (remove_fares hd hr hout).mono fun out d' ⟨heq, d₁, hp⟩ => ?_
  rw [← heq] at hp hout
  have hcount : ∀ x, (h.withNode out).nodes.count x = if x = out then h.nodes.count x + 1 else h.nodes.count x :=
    fun x => by
      refine (Handles.count_cons out x h.nodes).trans ?_
      split <;> simp_all
  have hroutes : (h.withNode out).routes = h.routes := rfl
  exact { hp.transfers hd hroutes fun x hx => (hcount x).trans (if_neg hx) with
    visit := ⟨r, hr, Route.client?_eq_some_iff.mpr ⟨i, rfl, hout⟩⟩
    handle := by rw [hp.coherent.held.nodes, hcount, if_pos rfl, hd.held.nodes] }

theorem remove_refused_of_not (hm : ¬Removable d target position) :
    ∃ why, remove p target position d = .error (.refused why) d := by
  refine remove_refused fun r hr => ?_
  by_contra hsome
  obtain ⟨m, hclient⟩ := Option.ne_none_iff_exists'.mp hsome
  obtain ⟨i, rfl, hi⟩ := Route.client?_eq_some_iff.mp hclient
  refine hm ⟨by simp [hr], Nat.succ_pos i, ?_⟩
  rw [clientsOf_eq hr]
  exact (List.getElem?_eq_some_iff.mp hi).1

/-- In every state of a clean run a client can be put at each position between the depots of a route, and each client of
    a route can be taken out of it, unless a total overflows; everything else is refused. What else happens to the
    routes and nodes is that a route goes which has lost all that kept it. -/
theorem transfers_of_reachable (hr : Reachable p h d) (target : RouteId) (position : Nat) (m : NodeId) :
    (Placeable d target position m → FaresUnless (Overflows (Strained p)) (fun _ d' => Places p h d target position m d')
      (insert p target position m d)) ∧
    (¬Placeable d target position m → ∃ why, insert p target position m d = .error (.refused why) d) ∧
    append p target m d = insert p target (((d.layout.clientsOf target).erase m).length + 1) m d ∧
    (Removable d target position → FaresUnless (Overflows (Strained p)) (fun out d' => TakesOut p h d target position out d')
      (remove p target position d)) ∧
    (¬Removable d target position → ∃ why, remove p target position d = .error (.refused why) d) := by
  have hd := hr.coherent
  refine ⟨fun hm => ?_, insert_refused hd, append_eq_insert hd target m, fun hm => ?_, remove_refused_of_not⟩
  · exact ((put_keeps p target (.position position) m d).fares (insert_places hd hm)).mono (fun _ _ hc => hc)
      fun _ _ hp => hp.1
  · exact ((remove_keeps p target position d).fares (remove_takesOut hd hm)).mono (fun _ _ hc => hc)
      fun _ _ hp => hp.1

/-- The node whose handle alone keeps the first route goes to the end of the second one, and the first one goes. -/
theorem transfers_in_sample :
    Reachable Sample.problem (Sample.handles.withoutRoute ⟨⟨0, 0⟩⟩) Sample.lent ∧ ∃ d',
      insert Sample.problem ⟨⟨1, 0⟩⟩ 2 ⟨⟨2, 0⟩⟩ Sample.lent = .ok () d' ∧
      Places Sample.problem (Sample.handles.withoutRoute ⟨⟨0, 0⟩⟩) Sample.lent ⟨⟨1, 0⟩⟩ 2 ⟨⟨2, 0⟩⟩ d' ∧
      d'.layout.route? ⟨⟨0, 0⟩⟩ = none := by
  have hplaceable : Placeable Sample.lent ⟨⟨1, 0⟩⟩ 2 ⟨⟨2, 0⟩⟩ := by
    have howner : Sample.lent.owner? ⟨⟨2, 0⟩⟩ = some (.route ⟨⟨0, 0⟩⟩) := by decide +kernel
    exact ⟨by decide +kernel, Sample.reachable_lent.coherent.entered.not_isDepot howner, by decide +kernel, by decide,
      by decide +kernel⟩
  have hlapses : Lapses (Sample.handles.withoutRoute ⟨⟨0, 0⟩⟩) Sample.lent ⟨⟨2, 0⟩⟩ (.route ⟨⟨1, 0⟩⟩) ⟨⟨0, 0⟩⟩ := by
    refine ⟨by decide +kernel, by decide, by decide, fun x hx _ => ?_⟩
    simpa [Handles.withoutRoute, Sample.handles] using hx
  obtain ⟨d', hrun⟩ : ∃ d', insert Sample.problem ⟨⟨1, 0⟩⟩ 2 ⟨⟨2, 0⟩⟩ Sample.lent = .ok () d' :=
    ⟨_, Sample.eq_ok (by decide +kernel)⟩
  have hplaces := (transfers_of_reachable Sample.reachable_lent ⟨⟨1, 0⟩⟩ 2 ⟨⟨2, 0⟩⟩).1 hplaceable
  rw [hrun] at hplaces
  cases hplaces with
  | ok hplaces => exact ⟨Sample.reachable_lent, d', hrun, hplaces, hplaces.gone _ hlapses⟩

end Dispatch
end Fleet
