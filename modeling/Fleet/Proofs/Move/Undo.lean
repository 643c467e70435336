import Fleet.Proofs.Dispatch.Prediction

/-! Every move can be taken back.

    After a move its two nodes have changed places, so that making it once more brings back what it took away: the
    same nodes are asked for again or, if nothing came in exchange for the clients that left, the node from behind
    which they came. All that the layout keeps follows from its visits, so it is the same layout again; and what the
    way back changes the cost by is what the way there did, the other way round. -/

namespace Fleet

variable {l l' : Layout} {a b : RouteId} {ra rb ra' rb' : Route} {u v w : NodeId} {i j k : Nat} {n m : UInt64}

/-! ### Visits -/

/-- Routes that begin with the same clients visit the same node at the position behind them. -/
theorem Route.visits_eq_of_take {r r' : Route} (hstart : r'.start = r.start) (hle : k ≤ r.clients.length)
    (hclients : r'.clients.take k = r.clients.take k) : r'.visits[k]? = r.visits[k]? := by
  cases k with
  | zero => exact congrArg some hstart
  | succ k =>
    have hlength : k + 1 ≤ r'.clients.length := by
      have h := congrArg List.length hclients
      rw [List.length_take, List.length_take] at h
      omega
    have hget := congrArg (fun cs : List NodeId => cs[k]?) hclients
    simp only [List.getElem?_take, Nat.lt_add_one, if_true] at hget
    rw [Route.visits_succ hlength, Route.visits_succ hle, hget]

namespace Move

open Layout Dispatch

variable {move : Move} {p : Problem} {penalties : Penalties} {routes : RouteId × RouteId} {delta : Int}

/-- The move takes clients to another route and brings none back. -/
def IsOneWay : Move → Prop
  | .exchange _ m _ _ => m = 0
  | .swapTails => False

/-- A route visits `u` right after `w`. -/
def Precedes (l : Layout) (w u : NodeId) : Prop := ∃ id i, StandsAt l w id i ∧ StandsAt l u id (i + 1)

/-- Making the move for `u` and `w` takes back what it did for `u` and `v`. -/
structure Undoes (p : Problem) (move : Move) (u v w : NodeId) (l l' : Layout) : Prop where
  restores : ∃ routes, move.perform p u w l' = .ok routes l
  negates : ∀ penalties there back, move.costChange p penalties l u v = .ok there →
    move.costChange p penalties l' u w = .ok back → back = -there

/-! ### The rule, twice -/

section Rule

variable {α : Type} {us vs : List α}

theorem take_append_length {as bs : List α} (h : k ≤ as.length) : (as.take k ++ bs).take k = as.take k :=
  List.take_left' (List.length_take_of_le h)

theorem drop_append_length {as bs : List α} (h : k ≤ as.length) : (as.take k ++ bs).drop k = bs :=
  List.drop_left' (List.length_take_of_le h)

/-- A part of a list is taken out of its place and put in again, with something else in between. -/
theorem splice_splice {n : Nat} {as : List α} (ms : List α) (hk : k + n ≤ as.length) :
    (as.take k ++ ms ++ as.drop (k + n)).take k ++ (as.drop k).take n ++
      (as.take k ++ ms ++ as.drop (k + n)).drop (k + ms.length) = as := by
  have hrest : (as.take k ++ ms ++ as.drop (k + n)).drop (k + ms.length) = as.drop (k + n) := by
    refine List.drop_left' ?_
    rw [List.length_append, List.length_take_of_le (by omega)]
  rw [hrest, List.append_assoc (as.take k), take_append_length (by omega), List.append_assoc, ← List.drop_drop,
    List.take_append_drop, List.take_append_drop]

/-- The part that was put in is the one that is found there. -/
theorem part_splice {as : List α} (n : Nat) (ms : List α) (hk : k ≤ as.length) :
    ((as.take k ++ ms ++ as.drop (k + n)).drop k).take ms.length = ms := by
  rw [List.append_assoc, drop_append_length hk, List.take_left]

theorem newClients_swapTails_twice (hi : i ≤ us.length) (hj : j ≤ vs.length) :
    swapTails.newClients (swapTails.newClients us vs i j).1 (swapTails.newClients us vs i j).2 i j = (us, vs) := by
  simp only [newClients]
  rw [take_append_length hi, take_append_length hj, drop_append_length hi, drop_append_length hj, List.take_append_drop,
    List.take_append_drop]

theorem newClients_exchange_twice {pos : 0 < n} {le : m ≤ n} (hk : k + n.toNat ≤ us.length)
    (hq : staying m.toNat j + m.toNat ≤ vs.length) (hi : staying m.toNat i = k) :
    (exchange n m pos le).newClients ((exchange n m pos le).newClients us vs (k + 1) j).2
      ((exchange n m pos le).newClients us vs (k + 1) j).1 (staying m.toNat j + 1) i = (vs, us) := by
  simp only [newClients, Nat.add_sub_cancel, hi]
  generalize staying m.toNat j = q at hq
  have hms : ((vs.drop q).take m.toNat).length = m.toNat := by
    rw [List.length_take, List.length_drop]
    omega
  have hns : ((us.drop k).take n.toNat).length = n.toNat := by
    rw [List.length_take, List.length_drop]
    omega
  have hu := part_splice n.toNat ((vs.drop q).take m.toNat) (show k ≤ us.length by omega)
  have hv := part_splice m.toNat ((us.drop k).take n.toNat) (show q ≤ vs.length by omega)
  have hus := splice_splice ((vs.drop q).take m.toNat) hk
  have hvs := splice_splice ((us.drop k).take n.toNat) hq
  rw [hms] at hu hus
  rw [hns] at hv hvs
  rw [hu, hv, hvs, hus]

end Rule

/-! ### Where the way back applies -/

/-- The first of some clients that are put in stands right behind the place. -/
theorem getElem?_splice {as bs ms : List NodeId} {n q : Nat} (hq : q ≤ as.length) (hn : 0 < n) (hk : k < bs.length)
    (hms : ms = (bs.drop k).take n) (rest : List NodeId) : (as.take q ++ ms ++ rest)[q]? = bs[k]? := by
  have hlength : 0 < ms.length := by
    rw [hms, List.length_take, List.length_drop]
    omega
  rw [List.append_assoc, List.getElem?_append_right (by rw [List.length_take_of_le hq]), List.length_take_of_le hq,
    Nat.sub_self, List.getElem?_append_left hlength, hms, List.getElem?_take, if_pos hn, List.getElem?_drop, Nat.add_zero]

/-- After an exchange the clients of `u` stand where those of `v` stood, or behind `v`. -/
theorem AppliesAt.exchange_back {pos : 0 < n} {le : m ≤ n} (hl' : Seated l')
    (h : AppliesAt (.exchange n m pos le) l u v a ra (k + 1) b rb j)
    (hk : k + n.toNat ≤ ra.clients.length) (ha : l'.route? a = some ra') (hb : l'.route? b = some rb')
    (hclients : (ra'.clients, rb'.clients) = (exchange n m pos le).newClients ra.clients rb.clients (k + 1) j)
    (hw : ra'.visits[i]? = some w) (hi : i = if m.toNat = 0 then k else k + 1) :
    AppliesAt (.exchange n m pos le) l' u w b rb' (staying m.toNat j + 1) a ra' i := by
  obtain ⟨-, hj, hq⟩ := fits_exchange h.fits
  simp only [newClients, Nat.add_sub_cancel, Prod.mk.injEq] at hclients
  obtain ⟨hus, hvs⟩ := hclients
  have hn : 0 < n.toNat := UInt64.lt_iff_toNat_lt.mp pos
  have hlengthU : ra'.clients.length + n.toNat = ra.clients.length + m.toNat := by
    rw [hus]
    simp only [List.length_append, List.length_take, List.length_drop]
    omega
  have hlengthV : rb'.clients.length + m.toNat = rb.clients.length + n.toNat := by
    rw [hvs]
    simp only [List.length_append, List.length_take, List.length_drop]
    omega
  have hu : ra.clients[k]? = some u := by rw [← Route.visits_succ (by omega), h.visitU]
  have hstands : rb'.clients[staying m.toNat j]? = some u := by
    rw [hvs, getElem?_splice (by omega) hn (show k < ra.clients.length by omega) rfl, hu]
  have hvisitsU := hl'.length_visits_le ha
  have hvisitsV := hl'.length_visits_le hb
  rw [Route.length_visits] at hvisitsU hvisitsV
  refine ⟨⟨h.ne.symm, hb, ha, ?_, hw⟩, fits_of_exchange (by omega) (by omega) ?_ (by omega) (by omega)⟩
  · rw [Route.visits_succ (List.getElem?_eq_some_iff.mp hstands).1, hstands]
  · split_ifs at hi ⊢ <;> omega

/-- Up to the place where clients are put in, nothing changes. -/
theorem AppliesAt.exchange_before {pos : 0 < n} {le : m ≤ n}
    (h : AppliesAt (.exchange n m pos le) l u v a ra (k + 1) b rb j)
    (hclients : ra'.clients = ((exchange n m pos le).newClients ra.clients rb.clients (k + 1) j).1)
    (hstart : ra'.start = ra.start) : ra'.visits[k]? = ra.visits[k]? := by
  obtain ⟨⟨k', heq, hk⟩, -⟩ := fits_exchange h.fits
  obtain rfl := Nat.succ.inj heq
  have hk : k ≤ ra.clients.length := by omega
  refine Route.visits_eq_of_take hstart hk ?_
  rw [hclients]
  simp only [newClients, Nat.add_sub_cancel]
  rw [List.append_assoc, take_append_length hk]

/-- If clients come in exchange, the first of them is `v`, which stands where `u` stood. -/
theorem AppliesAt.exchange_stands {pos : 0 < n} {le : m ≤ n}
    (h : AppliesAt (.exchange n m pos le) l u v a ra (k + 1) b rb j) (hm : m.toNat ≠ 0)
    (hclients : ra'.clients = ((exchange n m pos le).newClients ra.clients rb.clients (k + 1) j).1) :
    ra'.visits[k + 1]? = some v := by
  obtain ⟨⟨k', heq, hk⟩, hj, hq⟩ := fits_exchange h.fits
  obtain rfl := Nat.succ.inj heq
  have hplace : j = staying m.toNat j + 1 := by
    rw [if_neg hm] at hj
    simp only [staying, if_neg hm]
    omega
  have hv : rb.clients[staying m.toNat j]? = some v := by
    rw [← Route.visits_succ (by omega), ← hplace, h.visitV]
  have hstands : ra'.clients[k]? = some v := by
    rw [hclients]
    simp only [newClients, Nat.add_sub_cancel]
    rw [getElem?_splice (by omega) (Nat.pos_of_ne_zero hm) (by omega) rfl, hv]
  rw [Route.visits_succ (List.getElem?_eq_some_iff.mp hstands).1, hstands]

theorem AppliesAt.swapTails_back (h : AppliesAt .swapTails l u v a ra i b rb j)
    (ha : l'.route? a = some ra') (hb : l'.route? b = some rb') (hsa : SameRun ra ra') (hsb : SameRun rb rb')
    (hclients : (ra'.clients, rb'.clients) = swapTails.newClients ra.clients rb.clients i j) :
    AppliesAt .swapTails l' u v a ra' i b rb' j := by
  obtain ⟨hi, hj, hends⟩ := fits_swapTails h.fits
  simp only [newClients, Prod.mk.injEq] at hclients
  obtain ⟨hus, hvs⟩ := hclients
  refine ⟨⟨h.ne, ha, hb, ?_, ?_⟩, fits_of_swapTails ?_ ?_ ?_⟩
  · rw [Route.visits_eq_of_take hsa.start hi (by rw [hus, take_append_length hi]), h.visitU]
  · rw [Route.visits_eq_of_take hsb.start hj (by rw [hvs, take_append_length hj]), h.visitV]
  all_goals
    simp only [hus, hvs, List.length_append, List.length_take, List.length_drop]
    omega

/-! ### The way back -/

/-- A move that gives both routes the clients back that they had in `l` leads to `l`. -/
theorem perform_back (hl : Seated l) (hc : Current p l) (ha : l.route? a = some ra) (hb : l.route? b = some rb)
    (h' : ReroutesBoth l a ra' b rb' l') (hsa : SameRun ra ra') (hsb : SameRun rb rb')
    (hm : AppliesAt move l' u w a ra' i b rb' j)
    (hclients : move.newClients ra'.clients rb'.clients i j = (ra.clients, rb.clients)) :
    move.perform p u w l' = .ok (a, b) l := by
  have hroute : ∀ {r r' : Route}, SameRun r r' → { r' with clients := r.clients, totals := r.totals } = r :=
    fun {r r'} hs => by
      cases r
      cases r'
      obtain ⟨rfl, rfl, rfl, rfl⟩ := hs
      rfl
  have htotals : ∀ {id r r'}, l.route? id = some r → SameRun r r' →
      Totals.ofTour p r'.vehicleType.toNat (l'.locations { r' with clients := r.clients }) = .ok r.totals :=
    fun {id r r'} hr hs => by
      have hvisits : ({ r' with clients := r.clients } : Route).visits = r.visits := by
        rw [Route.visits_eq, Route.visits_eq, hs.start, hs.finish]
      have hlocations : l'.locations { r' with clients := r.clients } = l.locations r := by
        rw [h'.locations]
        unfold Layout.locations
        rw [hvisits]
      rw [hlocations, hs.vehicleType]
      exact hc.totals hr
  have hU : (move.newRoutes ra' rb' i j).1 = { ra' with clients := ra.clients } := by
    unfold newRoutes
    rw [hclients]
  have hV : (move.newRoutes ra' rb' i j).2 = { rb' with clients := rb.clients } := by
    unfold newRoutes
    rw [hclients]
  obtain ⟨l'', hrun, h''⟩ := perform_run (p := p) h'.seated hm (by rw [hU]; exact htotals ha hsa)
    (by rw [hV]; exact htotals hb hsb)
  rw [hU, hV, hroute hsa, hroute hsb] at h''
  have hback := h'.trans h''
  have hsame : l'' = l := hback.eq_of_route? hl fun x => by
    rw [hback.route]
    split
    · rename_i hx
      rw [hx, ha]
    · split
      · rename_i hx
        rw [hx, hb]
      · rfl
  rw [hrun, hsame]

/-! ### What the way back costs -/

/-- The totals kept with the route cost `c`. -/
def CostsAt (p : Problem) (penalties : Penalties) (l : Layout) (id : RouteId) (c : Int) : Prop :=
  ∃ r, l.route? id = some r ∧ penalties.cost p r.vehicleType.toNat r.totals = .ok c

theorem CostsAt.unique {c c' : Int} (h : CostsAt p penalties l a c) (h' : CostsAt p penalties l a c') : c = c' := by
  obtain ⟨r, hr, hcost⟩ := h
  obtain ⟨r', hr', hcost'⟩ := h'
  rw [hr] at hr'
  cases hr'
  rw [hcost] at hcost'
  exact Except.ok.inj hcost'

/-- What is predicted of a move that is made is what its two routes cost afterwards less what they cost before. -/
theorem costChange_eq_difference (hl : Seated l) (hs : Sited p l) (hc : Current p l)
    (hrun : move.perform p u v l = .ok (a, b) l') (hdelta : move.costChange p penalties l u v = .ok delta) :
    ∃ oldA oldB newA newB, CostsAt p penalties l a oldA ∧ CostsAt p penalties l b oldB ∧
      CostsAt p penalties l' a newA ∧ CostsAt p penalties l' b newB ∧ delta = newA + newB - (oldA + oldB) := by
  obtain ⟨a', ra, i, b', rb, j, -, -, hm, hroutes, -⟩ := perform_eq_ok hl hs hrun
  obtain ⟨rfl, rfl⟩ := Prod.mk.inj hroutes
  obtain ⟨l₁, ra', rb', hrun₁, hfulfils⟩ := perform_fulfils hl hc hm hdelta
  rw [hrun] at hrun₁
  cases hrun₁
  obtain ⟨oldA, oldB, newA, newB, hA, hB, hA', hB', hsum⟩ := hfulfils.costs
  exact ⟨oldA, oldB, newA, newB, ⟨ra, hm.left, hA.kept⟩, ⟨rb, hm.right, hB.kept⟩,
    ⟨ra', hfulfils.routes.route_left, hA'.kept⟩, ⟨rb', hfulfils.routes.route_right hm.ne, hB'.kept⟩, hsum⟩

theorem undoes_of_back (hl : Seated l) (hs : Sited p l) (hc : Current p l) (hrun : move.perform p u v l = .ok (a, b) l')
    (hl' : Seated l') (hs' : Sited p l') (hc' : Current p l')
    (hback : move.perform p u w l' = .ok (a, b) l ∨ move.perform p u w l' = .ok (b, a) l) : Undoes p move u v w l l' where
  restores := hback.elim (fun h => ⟨_, h⟩) fun h => ⟨_, h⟩
  negates penalties there back hthere hreturn := by
    obtain ⟨oldA, oldB, newA, newB, hA, hB, hA', hB', rfl⟩ := costChange_eq_difference hl hs hc hrun hthere
    rcases hback with hback | hback
    · obtain ⟨a', b', a'', b'', hA₁, hB₁, hA₂, hB₂, rfl⟩ := costChange_eq_difference hl' hs' hc' hback hreturn
      rw [hA₁.unique hA', hB₁.unique hB', hA₂.unique hA, hB₂.unique hB]
      omega
    · obtain ⟨b', a', b'', a'', hB₁, hA₁, hB₂, hA₂, rfl⟩ := costChange_eq_difference hl' hs' hc' hback hreturn
      rw [hA₁.unique hA', hB₁.unique hB', hA₂.unique hA, hB₂.unique hB]
      omega

/-- A move that has been made for two nodes is taken back by making it for them again or, if it brought no clients back
    in exchange, by making it for the first of them and the node that stood directly before it. The layout is then the
    same as before, and so is the cost. -/
theorem moves_undone (hl : Seated l) (hs : Sited p l) (hc : Current p l) (hrun : move.perform p u v l = .ok routes l') :
    (¬move.IsOneWay → Undoes p move u v v l l') ∧
    (move.IsOneWay → (∃ w, Precedes l w u) ∧ ∀ w, Precedes l w u → Undoes p move u v w l l') := by
  obtain ⟨a, ra, i, b, rb, j, totalsU, totalsV, hm, rfl, hU, hV, h'⟩ := perform_eq_ok hl hs hrun
  obtain ⟨hreshuffles, hcurrent⟩ := perform_reshuffles hl hs hrun
  have hsa : SameRun ra { (move.newRoutes ra rb i j).1 with totals := totalsU } := ⟨rfl, rfl, rfl, rfl⟩
  have hsb : SameRun rb { (move.newRoutes ra rb i j).2 with totals := totalsV } := ⟨rfl, rfl, rfl, rfl⟩
  have hundoes : ∀ {w}, move.perform p u w l' = .ok (a, b) l ∨ move.perform p u w l' = .ok (b, a) l →
      Undoes p move u v w l l' :=
    undoes_of_back hl hs hc hrun h'.seated (hreshuffles.sited hs) (hcurrent hc)
  have ha' := h'.route_left
  have hb' := h'.route_right hm.ne
  cases move with
  | swapTails =>
    obtain ⟨hi, hj, -⟩ := fits_swapTails hm.fits
    refine ⟨fun _ => hundoes (.inl ?_), False.elim⟩
    exact perform_back hl hc hm.left hm.right h' hsa hsb (hm.swapTails_back ha' hb' hsa hsb rfl)
      (newClients_swapTails_twice hi hj)
  | exchange n m pos le =>
    obtain ⟨⟨k, rfl, hk⟩, hj, hq⟩ := fits_exchange hm.fits
    -- The clients of `u` come back to where they were, asked for by the node at `i`.
    have hback : ∀ {w i}, StandsAt l' w a i → (i = if m.toNat = 0 then k else k + 1) → Undoes p (.exchange n m pos le) u v w l l' :=
      fun {w i} hw hi => by
        obtain ⟨r, hr, hw⟩ := hw
        rw [ha'] at hr
        cases hr
        have hstaying : staying m.toNat i = k := by
          unfold staying
          split <;> simp_all
        exact hundoes (.inr (perform_back hl hc hm.right hm.left (h'.symm hm.ne.symm) hsb hsa
          (hm.exchange_back h'.seated hk ha' hb' rfl hw hi) (newClients_exchange_twice hk hq hstaying)))
    have hu : StandsAt l u a (k + 1) := ⟨ra, hm.left, hm.visitU⟩
    refine ⟨fun hways => ?_, fun hways => ⟨?_, fun w hw => ?_⟩⟩
    · have hways : m.toNat ≠ 0 := fun hzero => hways (UInt64.toNat_inj.mp hzero)
      exact hback ⟨_, ha', hm.exchange_stands hways rfl⟩ (if_neg hways).symm
    · have hsome : k < ra.visits.length := by
        rw [Route.length_visits]
        omega
      exact ⟨ra.visits[k], a, k, ⟨ra, hm.left, List.getElem?_eq_getElem hsome⟩, hu⟩
    · obtain ⟨id, x, ⟨r, hr, hbefore⟩, hthere⟩ := hw
      obtain ⟨rfl, hx⟩ := hl.standsAt_unique hthere hu
      obtain rfl : x = k := Nat.succ.inj hx
      rw [hm.left] at hr
      cases hr
      have hways : m.toNat = 0 := congrArg UInt64.toNat hways
      exact hback ⟨_, ha', (hm.exchange_before rfl hsa.start).trans hbefore⟩ (if_pos hways).symm

/-- In the sample the only clients of two routes change places, and one joins the other; each goes back again. -/
theorem moves_undone_in_sample :
    (∃ routes l', perform Sample.problem (.exchange 1 1 (by decide) (by decide)) ⟨⟨5, 0⟩⟩ ⟨⟨2, 0⟩⟩ Sample.dispatch.layout =
        .ok routes l' ∧
      Undoes Sample.problem (.exchange 1 1 (by decide) (by decide)) ⟨⟨5, 0⟩⟩ ⟨⟨2, 0⟩⟩ ⟨⟨2, 0⟩⟩ Sample.dispatch.layout l') ∧
    ∃ routes l', perform Sample.problem (.exchange 1 0 (by decide) (by decide)) ⟨⟨5, 0⟩⟩ ⟨⟨2, 0⟩⟩ Sample.dispatch.layout =
        .ok routes l' ∧
      Undoes Sample.problem (.exchange 1 0 (by decide) (by decide)) ⟨⟨5, 0⟩⟩ ⟨⟨2, 0⟩⟩ ⟨⟨3, 0⟩⟩ Sample.dispatch.layout l' := by
  have hd := Sample.reachable.coherent
  have hmade : ∀ move, Sample.result? (DispatchM.onLayout (perform Sample.problem move ⟨⟨5, 0⟩⟩ ⟨⟨2, 0⟩⟩) Sample.dispatch) =
        some (⟨⟨1, 0⟩⟩, ⟨⟨0, 0⟩⟩) →
      ∃ routes l', perform Sample.problem move ⟨⟨5, 0⟩⟩ ⟨⟨2, 0⟩⟩ Sample.dispatch.layout = .ok routes l' :=
    fun move hrun => ⟨_, _, (onLayout_eq_ok (Sample.eq_ok hrun)).1⟩
  obtain ⟨routes, l', hswap⟩ := hmade (.exchange 1 1 (by decide) (by decide)) (by decide +kernel)
  obtain ⟨routes', l'', hjoin⟩ := hmade (.exchange 1 0 (by decide) (by decide)) (by decide +kernel)
  have hvisits : (Sample.dispatch.layout.route? ⟨⟨1, 0⟩⟩).map (·.visits) = some [⟨⟨3, 0⟩⟩, ⟨⟨5, 0⟩⟩, ⟨⟨4, 0⟩⟩] := by
    decide +kernel
  obtain ⟨r, hr, hvisits⟩ := Option.map_eq_some_iff.mp hvisits
  have hbefore : Precedes Sample.dispatch.layout ⟨⟨3, 0⟩⟩ ⟨⟨5, 0⟩⟩ :=
    ⟨⟨⟨1, 0⟩⟩, 0, ⟨r, hr, by rw [hvisits]; rfl⟩, ⟨r, hr, by rw [hvisits]; rfl⟩⟩
  refine ⟨⟨routes, l', hswap, ?_⟩, routes', l'', hjoin, ?_⟩
  · exact (moves_undone hd.seated hd.sited hd.current hswap).1 (show ¬(1 : UInt64) = 0 by decide)
  · exact ((moves_undone hd.seated hd.sited hd.current hjoin).2 rfl).2 _ hbefore

end Move
end Fleet
