import Fleet.Proofs.Layout.Seated

/-! What each change of a single route does.

    Every change of the visits keeps a layout seated. None of them refuses or breaks a promise once what it
    asks for is there: the position in range, the node to be put in standing nowhere. -/

namespace Fleet
namespace Layout

variable {l l' : Layout} {id : RouteId} {r r' : Route} {m : NodeId} {n : Node}

/-! ### Seats -/

theorem route_run (hr : l.route? id = some r) : route id l = .ok r l := by
  unfold route
  simp [hr]

theorem route_refused (hr : l.route? id = none) : route id l = .error (.refused (.routeReleased id)) l := by
  unfold route
  rw [get_bind_run, hr]
  rfl

theorem visited_run (hn : l.node? m = some n) : visited m l = .ok n l := by
  unfold visited
  simp [hn]

theorem visited_error (hn : l.node? m = none) : visited m l = .error (.broken (.releasedVisit m)) l := by
  unfold visited
  rw [get_bind_run, hn]
  rfl

theorem alters_setNode {g : Node → Node} (hn : l.node? m = some n) :
    Alters (fun m' n' => if m' = m then g n' else n') l { l with nodes := l.nodes.set m.key (g n) } where
  routes := rfl
  slots := Pool.outline_set _ _ _
  node m' := by
    show (l.nodes.set m.key (g n)).get? m'.key = _
    rw [Pool.get?_set_of_get? (show l.nodes.get? m.key = some n from hn), if_congr eq_iff_key_eq.symm rfl rfl]
    by_cases hm : m' = m
    · rw [if_pos hm, hm, hn]
      simp
    · rw [if_neg hm]
      simp only [if_neg hm, Option.map_id']
      rfl

theorem unseat_run (hn : l.node? m = some n) : ∃ l', unseat m l = .ok () l' ∧ Alters (unseatIn [m]) l l' := by
  refine ⟨{ l with nodes := l.nodes.set m.key (unseated n) }, ?_, (alters_setNode hn).congr fun m' n' => ?_⟩
  · unfold unseat
    rw [bind_ok (visited_run hn)]
    rfl
  · simp [unseatIn]

theorem unseatAll_run {ms : List NodeId} (hlive : ∀ m ∈ ms, (l.node? m).isSome) :
    ∃ l', unseatAll ms l = .ok () l' ∧ Alters (unseatIn ms) l l' := by
  induction ms generalizing l with
  | nil => exact ⟨l, rfl, .of_id fun m n => by simp [unseatIn]⟩
  | cons m ms ih =>
    obtain ⟨n, hn⟩ := Option.isSome_iff_exists.mp (hlive m List.mem_cons_self)
    obtain ⟨l₁, hrun, h₁⟩ := unseat_run hn
    obtain ⟨l₂, hrun', h₂⟩ := ih (l := l₁) fun m' hm' => by
      rw [h₁.isSome]
      exact hlive m' (List.mem_cons_of_mem _ hm')
    refine ⟨l₂, ?_, (h₁.trans h₂).congr fun m' n' => ?_⟩
    · unfold unseatAll
      rw [bind_ok hrun, hrun']
    · by_cases hm : m' = m
      · simp [unseatIn, hm, unseated]
      · simp [unseatIn, hm]

theorem seat_run (id : RouteId) (ms : List NodeId) (position : Nat) (hlive : ∀ m ∈ ms, (l.node? m).isSome) (hnodup : ms.Nodup) :
    ∃ l', seat id position ms l = .ok () l' ∧ Alters (seatIn id position ms) l l' := by
  induction ms generalizing l position with
  | nil => exact ⟨l, rfl, .of_id fun m n => by simp [seatIn]⟩
  | cons m ms ih =>
    obtain ⟨hm, hms⟩ := List.nodup_cons.mp hnodup
    obtain ⟨n, hn⟩ := Option.isSome_iff_exists.mp (hlive m List.mem_cons_self)
    have h₁ := alters_setNode (g := seatedAt id position) hn
    obtain ⟨l₂, hrun, h₂⟩ := ih (l := { l with nodes := l.nodes.set m.key (seatedAt id position n) })
      (position + 1) (fun m' hm' => by
        rw [h₁.isSome]
        exact hlive m' (List.mem_cons_of_mem _ hm')) hms
    refine ⟨l₂, ?_, (h₁.trans h₂).congr fun m' n' => ?_⟩
    · unfold seat
      rw [bind_ok (visited_run hn)]
      exact hrun
    · by_cases heq : m' = m
      · simp [seatIn, heq, hm]
      · by_cases hmem : m' ∈ ms
        · have : (m :: ms).idxOf m' = ms.idxOf m' + 1 := List.idxOf_cons_ne _ (fun h => heq h.symm)
          simp [seatIn, heq, hmem, this, Nat.add_comm, Nat.add_left_comm]
        · simp [seatIn, heq, hmem]

/-- Seating the visits from `k` on, in the list of all visits. -/
theorem seatIn_drop {ms : List NodeId} {k i : Nat} (hnodup : ms.Nodup) (hi : ms[i]? = some m) :
    seatIn id k (ms.drop k) m n = if k ≤ i then seatedAt id i n else n := by
  obtain ⟨hlt, hget⟩ := List.getElem?_eq_some_iff.mp hi
  unfold seatIn
  by_cases hk : k ≤ i
  · have hmem : (ms.drop k)[i - k]? = some m := by
      rw [List.getElem?_drop, Nat.add_sub_cancel' hk, hi]
    have hidx : (ms.drop k).idxOf m = i - k := by
      obtain ⟨hlt', hget'⟩ := List.getElem?_eq_some_iff.mp hmem
      rw [← hget']
      exact (hnodup.sublist (List.drop_sublist k ms)).idxOf_getElem _ hlt'
    rw [if_pos (List.mem_of_getElem? hmem), if_pos hk, hidx, Nat.add_sub_cancel' hk]
  · have hmem : m ∉ ms.drop k := fun hmem => by
      obtain ⟨j, hj⟩ := List.mem_iff_getElem?.mp hmem
      rw [List.getElem?_drop] at hj
      obtain ⟨hlt', hget'⟩ := List.getElem?_eq_some_iff.mp hj
      have := (hnodup.getElem_inj_iff).mp (hget.trans hget'.symm)
      omega
    rw [if_neg hmem, if_neg hk]

theorem seatFrom_run {k : Nat} (hr : l.route? id = some r) (hlive : ∀ m ∈ r.visits, (l.node? m).isSome)
    (hnodup : r.visits.Nodup) :
    ∃ l', seatFrom id k l = .ok () l' ∧ Alters (seatIn id k (r.visits.drop k)) l l' := by
  obtain ⟨l', hrun, h⟩ := seat_run id (r.visits.drop k) k
    (fun m hm => hlive m (List.mem_of_mem_drop hm)) (hnodup.sublist (List.drop_sublist k _))
  refine ⟨l', ?_, h⟩
  unfold seatFrom
  rw [bind_ok (route_run hr), hrun]

/-! ### Changes of the visits -/

theorem setRoute_run : setRoute id r l = .ok () { l with routes := l.routes.set id.key r } := rfl

theorem route?_setRoute (hr : l.route? id = some r) :
    ({ l with routes := l.routes.set id.key r' } : Layout).route? id = some r' := by
  show (l.routes.set id.key r').get? id.key = _
  rw [Pool.get?_set_of_get? (show l.routes.get? id.key = some r from hr), if_pos rfl]

/-- The common end of all changes of the visits of a route: the new visits agree with the old ones before
    `k`, those that left have lost their seats, and then the visits are seated from `k` on. -/
theorem seatFrom_reroutes {out : List NodeId} {k : Nat} (h : Seated l) (hr : l.route? id = some r)
    (hl : Alters (unseatIn out) { l with routes := l.routes.set id.key r' } l')
    (hout : ∀ m, m ∈ out ↔ m ∈ r.visits ∧ m ∉ r'.visits) (hk : ∀ i, i < k → r'.visits[i]? = r.visits[i]?)
    (hnodup : r'.visits.Nodup) (hlive : ∀ m ∈ r'.visits, (l.node? m).isSome)
    (hnew : ∀ m ∈ r'.visits, m ∈ r.visits ∨ Unvisited l m) :
    ∃ l'', seatFrom id k l' = .ok () l'' ∧ Reroutes l id r' l'' := by
  have hr' : l'.route? id = some r' := by rw [hl.route?, route?_setRoute hr]
  obtain ⟨l'', hrun, h''⟩ := seatFrom_run (k := k) hr' (fun m hm => by rw [hl.isSome]; exact hlive m hm) hnodup
  refine ⟨l'', hrun, reroutes_of_alters h hr (hl.trans h'') ?_ hlive hnew ?_ ?_ ?_⟩
  · intro m n
    simp only [seatIn, unseatIn, seatedAt, unseated]
    split <;> split <;> rfl
  · intro i m n hi hn
    have hm : m ∉ out := fun hm => ((hout m).mp hm).2 (List.mem_of_getElem? hi)
    rw [unseatIn, if_neg hm, seatIn_drop hnodup hi]
    split
    · exact ⟨rfl, rfl⟩
    · rename_i hik
      -- Before `k` the visits are the old ones, whose seats are right already.
      obtain ⟨n', hn', h1, h2⟩ := h.seat hr ((hk i (by omega)).symm.trans hi)
      rw [hn] at hn'
      cases hn'
      exact ⟨h1, h2⟩
  · intro m n hm hm'
    have hdrop : m ∉ r'.visits.drop k := fun hmem => hm' (List.mem_of_mem_drop hmem)
    rw [seatIn, if_neg hdrop, unseatIn, if_pos ((hout m).mpr ⟨hm, hm'⟩)]
    exact ⟨rfl, rfl⟩
  · intro m n hm hm'
    have hdrop : m ∉ r'.visits.drop k := fun hmem => hm' (List.mem_of_mem_drop hmem)
    rw [seatIn, if_neg hdrop, unseatIn, if_neg fun hmem => hm ((hout m).mp hmem).1]

/-- The same in terms of the clients: the depots never change. -/
theorem seatFrom_clients {cs : List NodeId} (out : List NodeId) {k : Nat} (h : Seated l) (hr : l.route? id = some r)
    (hl : Alters (unseatIn out) { l with routes := l.routes.set id.key { r with clients := cs } } l')
    (hout : ∀ m, m ∈ out ↔ m ∈ r.clients ∧ m ∉ cs) (hk : ∀ i, i + 1 < k → cs[i]? = r.clients[i]?)
    (hle : k ≤ cs.length + 1) (hle' : k ≤ r.clients.length + 1) (hnodup : cs.Nodup)
    (hlive : ∀ m ∈ cs, (l.node? m).isSome) (hnew : ∀ m ∈ cs, m ∈ r.clients ∨ Unvisited l m) :
    ∃ l'', seatFrom id k l' = .ok () l'' ∧ Reroutes l id { r with clients := cs } l'' := by
  have depot : ∀ m, m ∈ r.visits → m ∉ r.clients → m ∉ cs := fun m hm hm' hcs =>
    (hnew m hcs).elim hm' fun hun => hun id r hr hm
  have hstart : r.start ∉ cs := depot _ (by simp) (h.start_not_mem hr)
  have hfinish : r.finish ∉ cs := depot _ (by simp) (h.finish_not_mem hr)
  refine seatFrom_reroutes h hr hl ?_ ?_ ?_ ?_ ?_
  · intro m
    rw [hout, Route.mem_visits, Route.mem_visits]
    have := h.start_not_mem hr
    have := h.finish_not_mem hr
    constructor
    · rintro ⟨hm, hm'⟩
      refine ⟨Or.inr (Or.inl hm), ?_⟩
      rintro (rfl | h' | rfl) <;> contradiction
    · rintro ⟨rfl | hm | rfl, hm'⟩
      · exact absurd (Or.inl rfl) hm'
      · exact ⟨hm, fun h' => hm' (Or.inr (Or.inl h'))⟩
      · exact absurd (Or.inr (Or.inr rfl)) hm'
  · intro i hi
    cases i with
    | zero => rfl
    | succ i =>
      have hcs : i < cs.length := by omega
      rw [Route.visits_succ (show i < r.clients.length by omega), ← hk i hi]
      exact Route.visits_succ hcs
  · rw [Route.visits_eq, List.nodup_cons, List.nodup_append]
    refine ⟨fun hm => ?_, hnodup, List.nodup_singleton _, fun a ha b hb => ?_⟩
    · rcases List.mem_append.mp hm with hm | hm
      · exact hstart hm
      · exact h.start_ne_finish hr (List.mem_singleton.mp hm)
    · rw [List.mem_singleton] at hb
      rintro rfl
      exact hfinish (hb ▸ ha)
  · intro m hm
    rcases Route.mem_visits.mp hm with rfl | hm | rfl
    · obtain ⟨n, hn, -⟩ := h.live hr (show r.start ∈ r.visits by simp)
      exact Option.isSome_iff_exists.mpr ⟨n, hn⟩
    · exact hlive m hm
    · obtain ⟨n, hn, -⟩ := h.live hr (show r.finish ∈ r.visits by simp)
      exact Option.isSome_iff_exists.mpr ⟨n, hn⟩
  · intro m hm
    rcases Route.mem_visits.mp hm with rfl | hm | rfl
    · exact Or.inl (by simp)
    · exact (hnew m hm).imp_left fun hm => by simp [hm]
    · exact Or.inl (by simp)

theorem Seated.isSome_of_client (h : Seated l) (hr : l.route? id = some r) (hm : m ∈ r.clients) :
    (l.node? m).isSome := by
  obtain ⟨n, hn, -⟩ := h.live hr (show m ∈ r.visits by simp [hm])
  exact Option.isSome_iff_exists.mpr ⟨n, hn⟩

/-- Taking an element out of a list without repetitions by its place. -/
theorem eraseIdx_eq_erase {α : Type} [DecidableEq α] {a : α} {as : List α} {i : Nat} (hnodup : as.Nodup)
    (ha : as[i]? = some a) : as.eraseIdx i = as.erase a := by
  obtain ⟨hi, hget⟩ := List.getElem?_eq_some_iff.mp ha
  rw [← hget, hnodup.erase_getElem]

theorem Seated.mem_eraseIdx {i : Nat} {x : NodeId} (h : Seated l) (hr : l.route? id = some r) (hm : r.clients[i]? = some m) :
    x ∈ r.clients.eraseIdx i ↔ x ≠ m ∧ x ∈ r.clients := by
  rw [eraseIdx_eq_erase (h.nodup_clients hr) hm, (h.nodup_clients hr).mem_erase_iff]

theorem removeAt_run {i : Nat} (h : Seated l) (hr : l.route? id = some r) (hm : r.clients[i]? = some m) :
    ∃ l', removeAt id (i + 1) l = .ok m l' ∧ Reroutes l id { r with clients := r.clients.eraseIdx i } l' := by
  obtain ⟨hi, hget⟩ := List.getElem?_eq_some_iff.mp hm
  have hmem : m ∈ r.clients := List.mem_of_getElem? hm
  obtain ⟨n, hn⟩ := Option.isSome_iff_exists.mp (h.isSome_of_client hr hmem)
  have hclient : r.client? (i + 1) = some m := Route.client?_eq_some_iff.mpr ⟨i, rfl, hm⟩
  obtain ⟨l₁, hrun₁, h₁⟩ := unseat_run
    (l := { l with routes := l.routes.set id.key { r with clients := r.clients.eraseIdx i } }) hn
  have hout : ∀ x, x ∈ [m] ↔ x ∈ r.clients ∧ x ∉ r.clients.eraseIdx i := fun x => by
    rw [List.mem_singleton, h.mem_eraseIdx hr hm]
    constructor
    · rintro rfl
      exact ⟨hmem, fun h' => h'.1 rfl⟩
    · rintro ⟨hx, hx'⟩
      by_contra hne
      exact hx' ⟨hne, hx⟩
  have hk : ∀ j, j + 1 < i + 1 → (r.clients.eraseIdx i)[j]? = r.clients[j]? := fun j hj => by
    rw [List.getElem?_eraseIdx, if_pos (by omega)]
  have hle : i + 1 ≤ (r.clients.eraseIdx i).length + 1 := by
    rw [List.length_eraseIdx_of_lt hi]
    omega
  obtain ⟨l₂, hrun₂, h₂⟩ := seatFrom_clients [m] h hr h₁ hout hk hle (by omega)
    ((h.nodup_clients hr).sublist (List.eraseIdx_sublist _ _))
    (fun x hx => h.isSome_of_client hr (List.mem_of_mem_eraseIdx hx))
    (fun x hx => Or.inl (List.mem_of_mem_eraseIdx hx))
  refine ⟨l₂, ?_, h₂⟩
  unfold removeAt
  rw [bind_ok (route_run hr), hclient]
  simp only
  rw [bind_ok setRoute_run, Nat.add_sub_cancel, bind_ok hrun₁, bind_ok hrun₂]
  rfl

theorem removeAt_refused {position : Nat} (hm : ∀ r, l.route? id = some r → r.client? position = none) :
    ∃ why, removeAt id position l = .error (.refused why) l := by
  unfold removeAt
  cases hr : l.route? id with
  | none => exact ⟨_, bind_error (route_refused hr)⟩
  | some r =>
    rw [bind_ok (route_run hr), hm r hr]
    exact ⟨_, rfl⟩

theorem Seated.isLoose_iff (h : Seated l) : l.isLoose m = true ↔ (l.node? m).isSome ∧ Unvisited l m := by
  unfold isLoose
  cases hn : l.node? m with
  | none => simp
  | some n => simp [h.unvisited_iff hn]

/-- Putting in a node that stands nowhere. -/
theorem insertAt_run {i : Nat} (h : Seated l) (hr : l.route? id = some r) (hi : i ≤ r.clients.length)
    (hlive : (l.node? m).isSome) (hun : Unvisited l m) :
    ∃ l', insertAt id (i + 1) m l = .ok () l' ∧ Reroutes l id { r with clients := r.clients.insertIdx i m } l' := by
  have hmem : m ∉ r.clients := fun hm => hun id r hr (by simp [hm])
  have hloose : l.isLoose m = true := h.isLoose_iff.mpr ⟨hlive, hun⟩
  have hin : ∀ x, x ∈ r.clients.insertIdx i m ↔ x = m ∨ x ∈ r.clients := fun x => List.mem_insertIdx hi
  have hnodup : (r.clients.insertIdx i m).Nodup :=
    ((List.perm_insertIdx m r.clients hi).nodup_iff).mpr (List.nodup_cons.mpr ⟨hmem, h.nodup_clients hr⟩)
  have hlive' : ∀ x ∈ r.clients.insertIdx i m, (l.node? x).isSome := fun x hx => by
    rcases (hin x).mp hx with rfl | hx
    · exact hlive
    · exact h.isSome_of_client hr hx
  have hnew : ∀ x ∈ r.clients.insertIdx i m, x ∈ r.clients ∨ Unvisited l x := fun x hx => by
    rcases (hin x).mp hx with rfl | hx
    · exact Or.inr hun
    · exact Or.inl hx
  obtain ⟨l', hrun, h'⟩ := seatFrom_clients [] (k := i + 1) h hr (.of_id fun m n => by simp [unseatIn])
    (fun x => by simp [hin]; tauto) (fun j hj => List.getElem?_insertIdx_of_lt (by omega))
    (by rw [List.length_insertIdx_of_le_length hi]; omega) (by omega) hnodup hlive' hnew
  refine ⟨l', ?_, h'⟩
  unfold insertAt
  rw [bind_ok (route_run hr), if_neg (by omega), get_bind_run, hloose]
  simp only [if_true, Nat.add_sub_cancel]
  rw [bind_ok setRoute_run, hrun]

theorem insertAt_refused {position : Nat} (hr : l.route? id = some r)
    (hposition : position = 0 ∨ r.clients.length + 1 < position) (m : NodeId) :
    insertAt id position m l = .error (.refused (.insertPosition position r.clients.length)) l := by
  unfold insertAt
  rw [bind_ok (route_run hr), if_pos hposition]
  rfl

theorem append_run (h : Seated l) (hr : l.route? id = some r) (hlive : (l.node? m).isSome) (hun : Unvisited l m) :
    ∃ l', append id m l = .ok () l' ∧ Reroutes l id { r with clients := r.clients ++ [m] } l' := by
  have hmem : m ∉ r.clients := fun hm => hun id r hr (by simp [hm])
  have hnodup : (r.clients ++ [m]).Nodup :=
    List.nodup_append.mpr ⟨h.nodup_clients hr, List.nodup_singleton _, fun a ha b hb heq =>
      hmem (List.mem_singleton.mp hb ▸ heq ▸ ha)⟩
  have hlive' : ∀ x ∈ r.clients ++ [m], (l.node? x).isSome := fun x hx => by
    rcases List.mem_append.mp hx with hx | hx
    · exact h.isSome_of_client hr hx
    · exact List.mem_singleton.mp hx ▸ hlive
  have hnew : ∀ x ∈ r.clients ++ [m], x ∈ r.clients ∨ Unvisited l x := fun x hx => by
    rcases List.mem_append.mp hx with hx | hx
    · exact Or.inl hx
    · exact Or.inr (List.mem_singleton.mp hx ▸ hun)
  obtain ⟨l', hrun, h'⟩ := seatFrom_clients [] (k := r.clients.length + 1) h hr
    (.of_id fun m n => by simp [unseatIn]) (fun x => by simp; tauto)
    (fun j hj => List.getElem?_append_left (by omega)) (by simp) (Nat.le_refl _) hnodup hlive' hnew
  refine ⟨l', ?_, h'⟩
  unfold append
  rw [bind_ok (route_run hr), bind_ok setRoute_run, hrun]

/-! ### Several nodes one after the other -/

theorem insertIdx_eq {α : Type} {as : List α} {i : Nat} (a : α) (h : i ≤ as.length) :
    as.insertIdx i a = as.take i ++ a :: as.drop i := by
  induction as generalizing i with
  | nil =>
    obtain rfl : i = 0 := Nat.le_zero.mp h
    rfl
  | cons b as ih =>
    cases i with
    | zero => rfl
    | succ i => simp [ih (Nat.le_of_succ_le_succ h)]

/-- Taking out `k` clients from a position on. -/
theorem removeMany_run {i k : Nat} (h : Seated l) (hr : l.route? id = some r) (hk : i + k ≤ r.clients.length) :
    ∃ l', removeMany id (i + 1) k l = .ok () l' ∧
      Reroutes l id { r with clients := r.clients.take i ++ r.clients.drop (i + k) } l' := by
  induction k generalizing l r with
  | zero => exact ⟨l, rfl, by simpa using Reroutes.refl h hr⟩
  | succ k ih =>
    have hi : i < r.clients.length := by omega
    obtain ⟨l₁, hrun₁, h₁⟩ := removeAt_run h hr (List.getElem?_eq_getElem hi)
    obtain ⟨l₂, hrun₂, h₂⟩ := ih (r := { r with clients := r.clients.eraseIdx i }) h₁.seated h₁.route_self
      (by simp only [List.length_eraseIdx_of_lt hi]; omega)
    have hclients : (r.clients.eraseIdx i).take i ++ (r.clients.eraseIdx i).drop (i + k) =
        r.clients.take i ++ r.clients.drop (i + (k + 1)) := by
      have hlen : (r.clients.take i).length = i := List.length_take_of_le (Nat.le_of_lt hi)
      rw [List.eraseIdx_eq_take_drop_succ, List.take_left' hlen, List.drop_append, hlen,
        List.drop_eq_nil_of_le (by omega), List.nil_append, List.drop_drop]
      congr 2
      omega
    rw [hclients] at h₂
    refine ⟨l₂, ?_, h₁.trans h₂⟩
    unfold removeMany
    rw [bind_ok hrun₁, hrun₂]

/-- Putting in nodes that stand nowhere, from a position on. -/
theorem insertMany_run {i : Nat} {ms : List NodeId} (h : Seated l) (hr : l.route? id = some r)
    (hi : i ≤ r.clients.length) (hnodup : ms.Nodup) (hlive : ∀ m ∈ ms, (l.node? m).isSome)
    (hun : ∀ m ∈ ms, Unvisited l m) :
    ∃ l', insertMany id (i + 1) ms l = .ok () l' ∧
      Reroutes l id { r with clients := r.clients.take i ++ ms ++ r.clients.drop i } l' := by
  induction ms generalizing l r i with
  | nil => exact ⟨l, rfl, by simpa using Reroutes.refl h hr⟩
  | cons m ms ih =>
    obtain ⟨hm, hms⟩ := List.nodup_cons.mp hnodup
    obtain ⟨l₁, hrun₁, h₁⟩ := insertAt_run h hr hi (hlive m List.mem_cons_self) (hun m List.mem_cons_self)
    have hlen : (r.clients.take i).length = i := List.length_take_of_le hi
    have hun₁ : ∀ x ∈ ms, Unvisited l₁ x := fun x hx => by
      have hx' := hun x (List.mem_cons_of_mem _ hx)
      have hold := hx' id r hr
      refine h₁.unvisited (fun hmem => ?_) fun y s _ hs => hx' y s hs
      rw [Route.mem_visits] at hmem hold
      rcases hmem with hmem | hmem | hmem
      · exact hold (Or.inl hmem)
      · rcases (List.mem_insertIdx hi).mp hmem with rfl | hmem
        · exact hm hx
        · exact hold (Or.inr (Or.inl hmem))
      · exact hold (Or.inr (Or.inr hmem))
    obtain ⟨l₂, hrun₂, h₂⟩ := ih (r := { r with clients := r.clients.insertIdx i m }) (i := i + 1) h₁.seated
      h₁.route_self (by simp only [List.length_insertIdx_of_le_length hi]; omega) hms
      (fun x hx => by rw [h₁.isSome]; exact hlive x (List.mem_cons_of_mem _ hx)) hun₁
    have hclients : (r.clients.insertIdx i m).take (i + 1) ++ ms ++ (r.clients.insertIdx i m).drop (i + 1) =
        r.clients.take i ++ (m :: ms) ++ r.clients.drop i := by
      rw [insertIdx_eq m hi, List.take_append, List.drop_append, hlen, List.take_take, List.drop_take]
      simp
    rw [hclients] at h₂
    refine ⟨l₂, ?_, h₁.trans h₂⟩
    unfold insertMany
    rw [bind_ok hrun₁, hrun₂]

/-- Putting nodes that stand nowhere before the end depot. -/
theorem appendMany_run {ms : List NodeId} (h : Seated l) (hr : l.route? id = some r) (hnodup : ms.Nodup)
    (hlive : ∀ m ∈ ms, (l.node? m).isSome) (hun : ∀ m ∈ ms, Unvisited l m) :
    ∃ l', appendMany id ms l = .ok () l' ∧ Reroutes l id { r with clients := r.clients ++ ms } l' := by
  induction ms generalizing l r with
  | nil => exact ⟨l, rfl, by simpa using Reroutes.refl h hr⟩
  | cons m ms ih =>
    obtain ⟨hm, hms⟩ := List.nodup_cons.mp hnodup
    obtain ⟨l₁, hrun₁, h₁⟩ := append_run h hr (hlive m List.mem_cons_self) (hun m List.mem_cons_self)
    have hun₁ : ∀ x ∈ ms, Unvisited l₁ x := fun x hx => by
      have hx' := hun x (List.mem_cons_of_mem _ hx)
      have hold := hx' id r hr
      refine h₁.unvisited (fun hmem => ?_) fun y s _ hs => hx' y s hs
      rw [Route.mem_visits, List.mem_append, List.mem_singleton] at hmem
      rw [Route.mem_visits] at hold
      rcases hmem with hmem | (hmem | rfl) | hmem
      · exact hold (Or.inl hmem)
      · exact hold (Or.inr (Or.inl hmem))
      · exact hm hx
      · exact hold (Or.inr (Or.inr hmem))
    obtain ⟨l₂, hrun₂, h₂⟩ := ih (r := { r with clients := r.clients ++ [m] }) h₁.seated h₁.route_self hms
      (fun x hx => by rw [h₁.isSome]; exact hlive x (List.mem_cons_of_mem _ hx)) hun₁
    rw [List.append_assoc, List.singleton_append] at h₂
    refine ⟨l₂, ?_, h₁.trans h₂⟩
    unfold appendMany
    rw [bind_ok hrun₁, hrun₂]

theorem clear_run (h : Seated l) (hr : l.route? id = some r) :
    ∃ l', clear id l = .ok () l' ∧ Reroutes l id { r with clients := [] } l' := by
  have hlive : ∀ m ∈ r.clients, (l.node? m).isSome := fun m hm => h.isSome_of_client hr hm
  obtain ⟨l₁, hrun₁, h₁⟩ := unseatAll_run (l := { l with routes := l.routes.set id.key { r with clients := [] } }) hlive
  obtain ⟨l₂, hrun₂, h₂⟩ := seatFrom_clients r.clients (k := 1) h hr h₁ (by simp) (by simp) (by simp) (by simp)
    List.nodup_nil (by simp) (by simp)
  refine ⟨l₂, ?_, h₂⟩
  unfold clear
  rw [bind_ok (route_run hr), bind_ok setRoute_run, bind_ok hrun₁, hrun₂]

/-! ### Totals -/

theorem reroutes_totals (h : Seated l) (hr : l.route? id = some r) (totals : Totals) :
    Reroutes l id { r with totals } { l with routes := l.routes.set id.key { r with totals } } := by
  have hlive : ∀ m ∈ r.visits, (l.node? m).isSome := fun m hm => by
    obtain ⟨n, hn, -⟩ := h.live hr hm
    exact Option.isSome_iff_exists.mpr ⟨n, hn⟩
  refine reroutes_of_alters (g := fun _ n => n) h hr (.of_id fun _ _ => rfl) (fun _ _ => rfl) hlive
    (fun m hm => Or.inl hm) (fun i m n hi hn => ?_) (fun m n hm hm' => absurd hm hm') (fun _ _ _ _ => rfl)
  obtain ⟨n', hn', h1, h2⟩ := h.seat hr hi
  rw [hn] at hn'
  cases hn'
  exact ⟨h1, h2⟩

theorem seatFrom_zero_run (h : Seated l) (hr : l.route? id = some r) :
    ∃ l', seatFrom id 0 l = .ok () l' ∧ Reroutes l id r l' := by
  have hset : l.routes.set id.key r = l.routes := Pool.set_self hr
  have hsame : Alters (unseatIn []) { l with routes := l.routes.set id.key { r with clients := r.clients } } l := by
    rw [show ({ r with clients := r.clients } : Route) = r from rfl, hset]
    exact .of_id fun m n => by simp [unseatIn]
  exact seatFrom_clients [] h hr hsame (by simp) (by simp) (by simp) (by simp) (h.nodup_clients hr)
    (fun m hm => h.isSome_of_client hr hm) fun m hm => Or.inl hm

/-- Computing the totals of a route again gives those of its tour and changes nothing else. -/
theorem refresh_run {p : Problem} {totals : Totals} (h : Seated l) (hr : l.route? id = some r)
    (ht : Totals.ofTour p r.vehicleType.toNat (l.locations r) = .ok totals) :
    ∃ l', refresh p id l = .ok () l' ∧ Reroutes l id { r with totals } l' := by
  obtain ⟨l₁, hrun₁, h₁⟩ := seatFrom_zero_run h hr
  refine ⟨_, ?_, h₁.trans (reroutes_totals h₁.seated h₁.route_self totals)⟩
  unfold refresh
  rw [bind_ok hrun₁, bind_ok (route_run h₁.route_self), get_bind_run, h₁.locations, ht]
  rfl

/-- Computing the totals of a route again ends with the fault of its tour, if that has one. -/
theorem refresh_error {p : Problem} {fault : Fault} (h : Seated l) (hr : l.route? id = some r)
    (ht : Totals.ofTour p r.vehicleType.toNat (l.locations r) = .error fault) :
    ∃ l', refresh p id l = .error fault l' := by
  obtain ⟨l₁, hrun₁, h₁⟩ := seatFrom_zero_run h hr
  refine ⟨l₁, ?_⟩
  unfold refresh
  rw [bind_ok hrun₁, bind_ok (route_run h₁.route_self), get_bind_run, h₁.locations, ht]
  rfl

theorem refresh_fares {p : Problem} (h : Seated l) (hr : l.route? id = some r)
    (ht : Computes (fun _ => True) (Totals.ofTour p r.vehicleType.toNat (l.locations r))) :
    Fares (fun _ l' => ∃ totals, Totals.ofTour p r.vehicleType.toNat (l.locations r) = .ok totals ∧
      Reroutes l id { r with totals } l') (refresh p id l) := by
  cases htour : Totals.ofTour p r.vehicleType.toNat (l.locations r) with
  | ok totals =>
    obtain ⟨l', hrun, h'⟩ := refresh_run h hr htour
    exact .of_ok hrun ⟨totals, rfl, h'⟩
  | error fault =>
    rw [htour] at ht
    cases ht
    obtain ⟨l', hrun⟩ := refresh_error h hr htour
    rw [hrun]
    exact .overflow

end Layout
end Fleet
