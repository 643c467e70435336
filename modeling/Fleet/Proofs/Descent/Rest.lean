import Fleet.Proofs.Descent.Bounds

/-! Where a search comes to rest.

    A pass that makes no move leaves everything as it was, so what it has found out about one client still holds when
    it has come to the last one: no move that may be tried lowers the cost. A pass over the same routes in another
    order finds out the same.

    That nothing is passed over needs that no two clients of routes are at one location, because the search remembers
    one visitor of each location only. Moves and the loss of routes keep that up. -/

namespace Fleet

namespace Layout

variable {l l' : Layout}

/-- No two clients that routes visit are at the same location. -/
def Spread (l : Layout) : Prop :=
  ∀ m n m' n', Serves l m → Serves l m' → l.node? m = some n → l.node? m' = some n' → n.location = n'.location → m = m'

/-- Fewer clients at their old locations are still spread. -/
theorem Spread.of_inherits (h : Spread l) (hi : Inherits l l') (hserves : ∀ m, Serves l' m → Serves l m) : Spread l' := by
  intro m n m' n' hm hm' hn hn' hlocation
  obtain ⟨k, hk, hnk⟩ := hi.node m n hn
  obtain ⟨k', hk', hnk'⟩ := hi.node m' n' hn'
  exact h m k m' k' (hserves m hm) (hserves m' hm') hk hk' (hnk.symm.trans (hlocation.trans hnk'))

end Layout

namespace Descent

open Layout DispatchM
open Dispatch (Coherent Reachable)

variable {p : Problem} {penalties : Penalties} {descent : Descent} {h : Handles} {d d' : Dispatch} {l : Layout}
  {visitors vs : Visitors} {nodes us : List NodeId} {u v m : NodeId} {n : Node} {made i : Nat} {σ : Type}

/-! ### What is remembered of visitors -/

theorem mem_clients : m ∈ clients l ↔ Serves l m := by
  unfold clients
  rw [List.mem_flatMap]
  constructor
  · rintro ⟨⟨id, r⟩, hr, hm⟩
    exact ⟨id, r, mem_routeList.mp hr, hm⟩
  · rintro ⟨id, r, hr, hm⟩
    exact ⟨(id, r), mem_routeList.mpr hr, hm⟩

/-- One node is entered before the others. -/
theorem enter_cons (hn : l.node? u = some n) (hrun : enter l visitors (u :: nodes) = .ok vs) :
    n.location.toNat < visitors.size ∧ enter l (visitors.setIfInBounds n.location.toNat (some u)) nodes = .ok vs := by
  unfold enter at hrun
  simp only [hn] at hrun
  split at hrun
  · exact ⟨‹_›, hrun⟩
  · cases hrun

theorem enter_cons_of_none (hu : l.node? u = none) (hrun : enter l visitors (u :: nodes) = .ok vs) :
    enter l visitors nodes = .ok vs := by
  unfold enter at hrun
  simp only [hu] at hrun
  exact hrun

/-- Only at locations of the nodes something is entered, and only these nodes are. -/
theorem enter_only (hrun : enter l visitors nodes = .ok vs) (hv : vs[i]? = some (some v)) :
    visitors[i]? = some (some v) ∨ v ∈ nodes ∧ ∃ n, l.node? v = some n ∧ n.location.toNat = i := by
  induction nodes generalizing visitors with
  | nil =>
    cases hrun
    exact .inl hv
  | cons u nodes ih =>
    cases hu : l.node? u with
    | none =>
      rcases ih (enter_cons_of_none hu hrun) with hold | ⟨hmem, hn⟩
      · exact .inl hold
      · exact .inr ⟨List.mem_cons_of_mem _ hmem, hn⟩
    | some n =>
      obtain ⟨hlt, hrest⟩ := enter_cons hu hrun
      rcases ih hrest with hold | ⟨hmem, hn⟩
      · by_cases hi : n.location.toNat = i
        · rw [hi, Array.getElem?_setIfInBounds_self_of_lt (hi ▸ hlt)] at hold
          cases hold
          exact .inr ⟨List.mem_cons_self, n, hu, hi⟩
        · rw [Array.getElem?_setIfInBounds_ne hi] at hold
          exact .inl hold
      · exact .inr ⟨List.mem_cons_of_mem _ hmem, hn⟩

/-- What is at a location stays there unless one of the nodes is at the location. -/
theorem enter_of_absent (habsent : ∀ x ∈ nodes, ∀ n, l.node? x = some n → n.location.toNat ≠ i)
    (hrun : enter l visitors nodes = .ok vs) : vs[i]? = visitors[i]? := by
  induction nodes generalizing visitors with
  | nil =>
    cases hrun
    rfl
  | cons u nodes ih =>
    have hrest : ∀ x ∈ nodes, ∀ n, l.node? x = some n → n.location.toNat ≠ i := fun x hx =>
      habsent x (List.mem_cons_of_mem _ hx)
    cases hu : l.node? u with
    | none => exact ih hrest (enter_cons_of_none hu hrun)
    | some n =>
      rw [ih hrest (enter_cons hu hrun).2]
      exact Array.getElem?_setIfInBounds_ne (habsent u List.mem_cons_self n hu)

/-- A node that is at its location alone is remembered, whatever is entered after it. -/
theorem enter_of_mem (hm : m ∈ nodes) (hn : l.node? m = some n)
    (halone : ∀ x ∈ nodes, ∀ k, l.node? x = some k → k.location.toNat = n.location.toNat → x = m)
    (hrun : enter l visitors nodes = .ok vs) : vs[n.location.toNat]? = some (some m) := by
  induction nodes generalizing visitors with
  | nil => cases hm
  | cons u nodes ih =>
    have hrest : ∀ x ∈ nodes, ∀ k, l.node? x = some k → k.location.toNat = n.location.toNat → x = m := fun x hx =>
      halone x (List.mem_cons_of_mem _ hx)
    by_cases hmem : m ∈ nodes
    · cases hu : l.node? u with
      | none => exact ih hmem hrest (enter_cons_of_none hu hrun)
      | some k => exact ih hmem hrest (enter_cons hu hrun).2
    · obtain rfl : m = u := (List.mem_cons.mp hm).resolve_right hmem
      obtain ⟨hlt, hrun⟩ := enter_cons hn hrun
      have habsent : ∀ x ∈ nodes, ∀ k, l.node? x = some k → k.location.toNat ≠ n.location.toNat := by
        intro x hx k hk heq
        exact hmem (hrest x hx k hk heq ▸ hx)
      rw [enter_of_absent habsent hrun, Array.getElem?_setIfInBounds_self_of_lt hlt]

theorem size_visitors (hs : Sited p l) (hrun : enter l (.replicate p.numLocations none) (clients l) = .ok vs) :
    vs.size = p.numLocations := by
  obtain ⟨ws, hws, hsize⟩ := visitors_succeed hs
  rw [hrun] at hws
  cases hws
  exact hsize

/-- At the beginning of a pass the visitor of each location is known. -/
theorem visitors_iff (hspread : Spread l) (hrun : enter l (.replicate p.numLocations none) (clients l) = .ok vs) :
    vs[i]? = some (some v) ↔ Serves l v ∧ ∃ n, l.node? v = some n ∧ n.location.toNat = i := by
  constructor
  · intro hv
    rcases enter_only hrun hv with hnone | ⟨hmem, hn⟩
    · rw [Array.getElem?_replicate] at hnone
      split at hnone
      · cases hnone
      · cases hnone
    · exact ⟨mem_clients.mp hmem, hn⟩
  · rintro ⟨hserved, n, hn, rfl⟩
    refine enter_of_mem (mem_clients.mpr hserved) hn (fun x hx k hk heq => ?_) hrun
    exact hspread x k v n (mem_clients.mp hx) hserved hk hn (UInt64.toNat_inj.mp heq)

/-! ### What a client may be tried with -/

theorem mem_visitorsOf {locations : List Nat} {found : List NodeId} (hrun : visitorsOf visitors locations = .ok found) :
    v ∈ found ↔ ∃ x ∈ locations, visitors[x]? = some (some v) := by
  obtain ⟨entries, hentries, hfound⟩ := bind_eq_ok hrun
  cases hfound
  have hall := mapM_eq_ok hentries
  have hmem : some v ∈ entries ↔ ∃ x ∈ locations, visitors[x]? = some (some v) := by
    clear hentries hrun
    induction hall with
    | nil => simp
    | @cons x entry locations entries hx _ ih =>
      have hentry : visitors[x]? = some entry := by
        split at hx
        · rename_i heq
          cases hx
          exact heq
        · cases hx
      rw [List.mem_cons, ih, List.exists_mem_cons_iff, hentry, Option.some.injEq, eq_comm]
  simp [hmem]

/-- The nodes that a client may be tried with: the clients of routes at neighbouring locations, and the start depots of
    empty routes. -/
inductive Candidate (descent : Descent) (l : Layout) (u : NodeId) : NodeId → Prop
  | near {v : NodeId} {n k : Node} {neighbours : List Nat} (hu : l.node? u = some n)
      (hneighbours : descent.neighbours[n.location.toNat]? = some neighbours) (served : Serves l v)
      (hv : l.node? v = some k) (hmem : k.location.toNat ∈ neighbours) : Candidate descent l u v
  | empty {id : RouteId} {r : Route} (hr : l.route? id = some r) (hempty : r.clients = []) :
      Candidate descent l u r.start

/-- No move of a client lowers the cost. -/
def Optimal (p : Problem) (descent : Descent) (l : Layout) : Prop :=
  ∀ u v move, Serves l u → Candidate descent l u v → move ∈ descent.moves →
    ∃ c, Move.costChange p descent.penalties l move u v = .ok c ∧ 0 ≤ c

theorem mem_partners {location : Nat} {neighbours : List Nat} {partners : List NodeId}
    (hneighbours : descent.neighbours[location]? = some neighbours)
    (hrun : descent.partners l visitors location = .ok partners) : v ∈ partners ↔
      (∃ x ∈ neighbours, visitors[x]? = some (some v)) ∨ ∃ id r, l.route? id = some r ∧ r.clients = [] ∧ r.start = v := by
  unfold Descent.partners at hrun
  rw [hneighbours] at hrun
  obtain ⟨near, hnear, hrun⟩ := bind_eq_ok hrun
  cases hrun
  rw [List.mem_append, mem_visitorsOf hnear]
  refine or_congr Iff.rfl ?_
  simp only [List.mem_map, List.mem_filter, List.isEmpty_iff, Prod.exists, mem_routeList, and_assoc]

/-- The search tries a client with its candidates and nothing else. -/
theorem mem_partners_iff {partners : List NodeId} (hspread : Spread l) (hu : l.node? u = some n)
    (hneighbours : n.location.toNat < descent.neighbours.size)
    (hvisitors : enter l (.replicate p.numLocations none) (clients l) = .ok visitors)
    (hrun : descent.partners l visitors n.location.toNat = .ok partners) : v ∈ partners ↔ Candidate descent l u v := by
  have hlists := Array.getElem?_eq_getElem hneighbours
  rw [mem_partners hlists hrun]
  constructor
  · rintro (⟨x, hx, hv⟩ | ⟨id, r, hr, hempty, rfl⟩)
    · obtain ⟨hserved, k, hk, rfl⟩ := (visitors_iff hspread hvisitors).mp hv
      exact .near hu hlists hserved hk hx
    · exact .empty hr hempty
  · rintro (⟨hu', hlists', hserved, hk, hmem⟩ | ⟨hr, hempty⟩)
    · rw [hu] at hu'
      cases hu'
      rw [hlists] at hlists'
      cases hlists'
      exact .inl ⟨_, hmem, (visitors_iff hspread hvisitors).mpr ⟨hserved, _, hk, rfl⟩⟩
    · exact .inr ⟨_, _, hr, hempty, rfl⟩

/-! ### Passes that make no move -/

theorem firstImproving_eq_none_iff {trials : List (NodeId × Move)} :
    firstImproving p penalties l u trials = .ok none ↔
      ∀ trial ∈ trials, ∃ c, Move.costChange p penalties l trial.2 u trial.1 = .ok c ∧ 0 ≤ c := by
  induction trials with
  | nil => simp [firstImproving]
  | cons trial trials ih =>
    obtain ⟨v, move⟩ := trial
    unfold firstImproving
    rw [List.forall_mem_cons]
    cases hc : move.costChange p penalties l u v with
    | error fault => simp [Bind.bind, Except.bind]
    | ok c =>
      rw [ok_bind]
      split
      · rename_i hneg
        constructor
        · intro h
          cases h
        · rintro ⟨⟨c', hc', hpos⟩, -⟩
          cases hc'
          omega
      · rename_i hpos
        rw [ih]
        constructor
        · intro h
          exact ⟨⟨c, rfl, not_lt.mp hpos⟩, h⟩
        · rintro ⟨-, h⟩
          exact h

/-- A client that finds no move has none that lowers the cost. -/
theorem find?_eq_none_iff (hl : Seated l) (hs : Sited p l) (hn : Neighbourhood.Within p.numLocations descent.neighbours)
    (hspread : Spread l) (hvisitors : enter l (.replicate p.numLocations none) (clients l) = .ok visitors)
    (hu : Serves l u) : descent.find? p l visitors u = .ok none ↔
      ∀ v move, Candidate descent l u v → move ∈ descent.moves →
        ∃ c, Move.costChange p descent.penalties l move u v = .ok c ∧ 0 ≤ c := by
  obtain ⟨id, r, hr, hmem⟩ := hu
  obtain ⟨n, hnode, hroute⟩ := hl.live hr (Route.mem_visits_of_client hmem)
  have hlocation := hs.location hnode
  obtain ⟨partners, hpartners, -⟩ := partners_succeeds (l := l) hn (size_visitors hs hvisitors) hlocation
  have hcandidates : ∀ v, v ∈ partners ↔ Candidate descent l u v := fun v =>
    mem_partners_iff hspread hnode (hn.size ▸ hlocation) hvisitors hpartners
  unfold find?
  simp only [hnode, hroute, hpartners, ok_bind]
  rw [firstImproving_eq_none_iff]
  constructor
  · intro hall v move hv hmove
    exact hall (v, move) (List.mem_flatMap.mpr ⟨v, (hcandidates v).mpr hv, List.mem_map_of_mem hmove⟩)
  · rintro hall ⟨v, move⟩ htrial
    obtain ⟨v', hv', htrial⟩ := List.mem_flatMap.mp htrial
    obtain ⟨move', hmove', heq⟩ := List.mem_map.mp htrial
    cases heq
    exact hall v move ((hcandidates v).mp hv') hmove'

/-- No client finds a move in a pass that begins now. -/
def AtRest (p : Problem) (descent : Descent) (l : Layout) : Prop :=
  ∃ visitors, enter l (.replicate p.numLocations none) (clients l) = .ok visitors ∧
    ∀ u, Serves l u → descent.find? p l visitors u = .ok none

/-- A search is at rest in the local optima and nowhere else. -/
theorem atRest_iff (hl : Seated l) (hs : Sited p l) (hn : Neighbourhood.Within p.numLocations descent.neighbours)
    (hspread : Spread l) : AtRest p descent l ↔ Optimal p descent l := by
  constructor
  · rintro ⟨visitors, hvisitors, hnone⟩ u v move hu hv hmove
    exact (find?_eq_none_iff hl hs hn hspread hvisitors hu).mp (hnone u hu) v move hv hmove
  · intro hoptimal
    obtain ⟨visitors, hvisitors, -⟩ := visitors_succeed hs
    refine ⟨visitors, hvisitors, fun u hu => ?_⟩
    exact (find?_eq_none_iff hl hs hn hspread hvisitors hu).mpr fun v move hv hmove => hoptimal u v move hu hv hmove

/-- Moves are only ever added. -/
theorem improveAll_le {made' : Nat} (hrun : improveAll p descent us visitors made d = .ok made' d') : made ≤ made' := by
  induction us generalizing d visitors made with
  | nil =>
    cases hrun
    exact le_rfl
  | cons u us ih =>
    unfold improveAll at hrun
    rw [get_bind_run] at hrun
    obtain ⟨found, d₁, -, hthen⟩ := bind_run_eq_ok hrun
    cases found with
    | none => exact ih hthen
    | some trial =>
      obtain ⟨vs, d₂, -, hrest⟩ := bind_run_eq_ok hthen
      exact (Nat.le_succ made).trans (ih hrest)

/-- Where no move is made, nothing has changed between one client and the next. -/
theorem improveAll_still (hrun : improveAll p descent us visitors made d = .ok made d') :
    d' = d ∧ ∀ u ∈ us, descent.find? p d.layout visitors u = .ok none := by
  induction us generalizing d with
  | nil =>
    cases hrun
    simp
  | cons u us ih =>
    unfold improveAll at hrun
    rw [get_bind_run] at hrun
    obtain ⟨found, d₁, hfound, hthen⟩ := bind_run_eq_ok hrun
    obtain ⟨hfind, rfl⟩ := ofResult_eq_ok hfound
    cases found with
    | none =>
      obtain ⟨hsame, hrest⟩ := ih hthen
      exact ⟨hsame, List.forall_mem_cons.mpr ⟨hfind, hrest⟩⟩
    | some trial =>
      obtain ⟨vs, d₂, -, hrest⟩ := bind_run_eq_ok hthen
      have hmore := improveAll_le hrest
      omega

theorem improveAll_of_none (hnone : ∀ u ∈ us, descent.find? p d.layout visitors u = .ok none) :
    improveAll p descent us visitors made d = .ok made d := by
  induction us with
  | nil => rfl
  | cons u us ih =>
    obtain ⟨hu, hrest⟩ := List.forall_mem_cons.mp hnone
    unfold improveAll
    rw [get_bind_run, hu, ofResult_ok_bind]
    exact ih hrest

/-- The nodes come in some other order. -/
def Orders (shuffle : List NodeId → σ → List NodeId × σ) : Prop := ∀ us s, (shuffle us s).1.Perm us

section
variable {shuffle : List NodeId → σ → List NodeId × σ} {s s' : σ}

theorem pass_still (hshuffle : Orders shuffle) (hrun : pass p descent shuffle s d = .ok (0, s') d') :
    d' = d ∧ AtRest p descent d.layout := by
  unfold pass at hrun
  rw [get_bind_run] at hrun
  obtain ⟨visitors, d₁, hentered, hthen⟩ := bind_run_eq_ok hrun
  obtain ⟨hvisitors, rfl⟩ := ofResult_eq_ok hentered
  obtain ⟨made, d₂, himprove, hmade⟩ := bind_run_eq_ok hthen
  cases hmade
  obtain ⟨hsame, hnone⟩ := improveAll_still himprove
  exact ⟨hsame, visitors, hvisitors, fun u hu => hnone u ((hshuffle _ s).mem_iff.mpr (mem_clients.mpr hu))⟩

/-- A search at rest makes no move, in whatever order it goes through the clients. -/
theorem AtRest.pass (hrest : AtRest p descent d.layout) (hshuffle : Orders shuffle) (s : σ) :
    ∃ s', Descent.pass p descent shuffle s d = .ok (0, s') d := by
  obtain ⟨visitors, hvisitors, hnone⟩ := hrest
  have himprove : improveAll p descent (shuffle (clients d.layout) s).1 visitors 0 d = .ok 0 d :=
    improveAll_of_none fun u hu => hnone u (mem_clients.mp ((hshuffle _ s).mem_iff.mp hu))
  refine ⟨(shuffle (clients d.layout) s).2, ?_⟩
  unfold Descent.pass
  rw [get_bind_run, hvisitors, ofResult_ok_bind]
  simp only
  rw [bind_ok himprove]
  rfl

/-- Passes that end before they have used up their number end in a pass that makes no move. -/
theorem passes_rest (hshuffle : Orders shuffle) {remaining passed moved : Nat} {counts : Nat × Nat}
    (hrun : passes p descent shuffle remaining (passed, moved) s d = .ok (counts, s') d')
    (hcounts : counts.1 < passed + remaining) : AtRest p descent d'.layout := by
  induction remaining generalizing passed moved s d with
  | zero =>
    cases hrun
    omega
  | succ remaining ih =>
    unfold passes at hrun
    obtain ⟨⟨made, t⟩, d₁, hpass, hthen⟩ := bind_run_eq_ok hrun
    simp only at hthen
    split at hthen
    · rename_i hzero
      rw [hzero] at hpass
      obtain ⟨hsame, hrest⟩ := pass_still hshuffle hpass
      cases hthen
      rw [hsame]
      exact hrest
    · exact ih hthen (by omega)

theorem run_rest (hshuffle : Orders shuffle) {report : Report}
    (hrun : descent.run p shuffle s d = .ok (report, s') d') (hpasses : report.passes < descent.maxPasses) :
    AtRest p descent d'.layout := by
  unfold run at hrun
  rw [get_bind_run] at hrun
  obtain ⟨initial, d₁, -, hthen⟩ := bind_run_eq_ok hrun
  obtain ⟨⟨⟨passed, moved⟩, t⟩, d₂, hall, hlast⟩ := bind_run_eq_ok hthen
  simp only [get_bind_run] at hlast
  obtain ⟨final, d₃, hfinal, hreport⟩ := bind_run_eq_ok hlast
  obtain ⟨-, hsame⟩ := ofResult_eq_ok hfinal
  cases hreport
  rw [hsame]
  exact passes_rest hshuffle hall (by simpa using hpasses)

/-- A search at rest sees that in one pass. -/
theorem AtRest.run (hrest : AtRest p descent d.layout) (hshuffle : Orders shuffle) (hpasses : 1 ≤ descent.maxPasses)
    {c : Int} (hcost : totalCost p descent.penalties d.layout = .ok c) (s : σ) :
    ∃ s', descent.run p shuffle s d = .ok (⟨1, 0, c, c⟩, s') d := by
  obtain ⟨s', hpass⟩ := hrest.pass hshuffle s
  obtain ⟨remaining, hremaining⟩ := Nat.exists_eq_add_of_le' hpasses
  have hall : passes p descent shuffle descent.maxPasses (0, 0) s d = .ok ((1, 0), s') d := by
    rw [hremaining]
    unfold passes
    rw [bind_ok hpass]
    rfl
  refine ⟨s', ?_⟩
  unfold Descent.run
  rw [get_bind_run, hcost, ofResult_ok_bind, bind_ok hall]
  simp only
  rw [get_bind_run, hcost, ofResult_ok_bind]
  rfl

end

/-! ### Where a search ends -/

/-- A search that has stopped before its passes were used up has come to a local optimum. When it is started again
    there, in whatever order it goes through the clients, it sees in one pass that there is nothing to do. -/
theorem search_rests (hr : Reachable p h d) (hspread : Spread d.layout) {params : NeighbourhoodParameters}
    (hneighbours : Neighbourhood.lists p params = .ok descent.neighbours) {shuffle : List NodeId → σ → List NodeId × σ}
    (hshuffle : Orders shuffle) {s s' : σ} {report : Report} (hrun : descent.run p shuffle s d = .ok (report, s') d')
    (hpasses : report.passes < descent.maxPasses) :
    Optimal p descent d'.layout ∧
      ∀ {τ : Type} {shuffle' : List NodeId → τ → List NodeId × τ}, Orders shuffle' → ∀ t, ∃ t',
        descent.run p shuffle' t d' = .ok (⟨1, 0, report.finalCost, report.finalCost⟩, t') d' := by
  obtain ⟨lists, hlists, hwithin⟩ := Neighbourhood.lists_succeed p params
  rw [hneighbours] at hlists
  cases hlists
  have hfares := (run_descends hwithin shuffle s hr.coherent).fares
  rw [hrun] at hfares
  cases hfares with
  | ok hdone =>
    obtain ⟨hd', -, hfinal, -, -, hdescends⟩ := hdone
    have hrest := run_rest hshuffle hrun hpasses
    have hsheds := (run_keeps p descent shuffle s).of_ok hrun
    have hspread' : Spread d'.layout := hspread.of_inherits hsheds.inherits hdescends.serves
    refine ⟨(atRest_iff hd'.seated hd'.sited hwithin hspread').mp hrest, ?_⟩
    intro τ shuffle' hshuffle' t
    exact hrest.run hshuffle' (by omega) hfinal t

end Descent

namespace Dispatch.Sample

open Layout Descent

/-- Both clients are in one vehicle, which is too small for them, and the other vehicle is empty. -/
def packed : Dispatch := after (load problem ⟨[{ visits := [1, 2] }, { visits := [] }]⟩ Dispatch.empty)

def search : Descent := ⟨#[[], [2], [1]], Move.defaults, SearchParameters.penalties {}, 100⟩

def turned (nodes : List NodeId) (n : Nat) : List NodeId × Nat := (nodes.reverse, n + 1)

/-- Each vehicle has one of the clients. -/
def unpacked : Dispatch := after (search.run problem turned 0 packed)

theorem reachable_packed : Reachable problem { routes := [⟨⟨0, 0⟩⟩, ⟨⟨1, 0⟩⟩] } packed := by
  have hload : load problem ⟨[{ visits := [1, 2] }, { visits := [] }]⟩ Dispatch.empty =
      .ok [⟨⟨0, 0⟩⟩, ⟨⟨1, 0⟩⟩] packed := eq_ok (by decide +kernel)
  exact .done (.load ⟨[{ visits := [1, 2] }, { visits := [] }]⟩) .empty trivial (bind_ok hload)

theorem spread_packed : Spread packed.layout := by
  intro m n m' n' hm hm' hn hn' hlocation
  have hall : ∀ m ∈ clients packed.layout, ∀ m' ∈ clients packed.layout,
      (packed.layout.node? m).map (·.location) = (packed.layout.node? m').map (·.location) → m = m' := by
    decide +kernel
  refine hall m (mem_clients.mpr hm) m' (mem_clients.mpr hm') ?_
  rw [hn, hn', Option.map_some, Option.map_some, hlocation]

theorem search_run : search.run problem turned 0 packed = .ok (⟨2, 1, 65, 44⟩, 2) unpacked := eq_ok (by decide +kernel)

end Dispatch.Sample

namespace Descent

open Layout Dispatch

theorem search_rests_in_sample :
    (Reachable Sample.problem { routes := [⟨⟨0, 0⟩⟩, ⟨⟨1, 0⟩⟩] } Sample.packed ∧ Spread Sample.packed.layout ∧
      Neighbourhood.lists Sample.problem {} = .ok Sample.search.neighbours ∧ Orders Sample.turned ∧
      Sample.search.run Sample.problem Sample.turned 0 Sample.packed = .ok (⟨2, 1, 65, 44⟩, 2) Sample.unpacked ∧ 2 < 100) ∧
    Optimal Sample.problem Sample.search Sample.unpacked.layout ∧
    ∃ n, Sample.search.run Sample.problem (fun nodes (n : Nat) => (nodes, n)) 0 Sample.unpacked =
      .ok (⟨1, 0, 44, 44⟩, n) Sample.unpacked := by
  have hturned : Orders Sample.turned := fun us _ => us.reverse_perm
  have hsame : Orders (fun nodes (n : Nat) => (nodes, n)) := fun us _ => .refl us
  have hpasses : 2 < 100 := by decide
  obtain ⟨hoptimal, hagain⟩ := search_rests Sample.reachable_packed Sample.spread_packed Sample.lists_run hturned
    Sample.search_run hpasses
  exact ⟨⟨Sample.reachable_packed, Sample.spread_packed, Sample.lists_run, hturned, Sample.search_run, hpasses⟩, hoptimal,
    hagain hsame 0⟩

end Descent
end Fleet
