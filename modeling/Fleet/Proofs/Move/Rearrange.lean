import Fleet.Proofs.Move.Rule

/-! What making a move does to its two routes.

    Nodes are taken out and put in one by one; in the end the clients of both routes are those of the rule. -/

namespace Fleet
namespace Move

open Layout

variable {l l' l₁ : Layout} {a b x : RouteId} {ra rb ra' rb' : Route} {m : NodeId}

/-! ### Two routes at once -/

/-- `l'` has the nodes of `l`, and its routes, except that the routes `a` and `b` are now `ra` and `rb`. -/
structure ReroutesBoth (l : Layout) (a : RouteId) (ra : Route) (b : RouteId) (rb : Route) (l' : Layout) : Prop
    extends Reseats l l' where
  route : ∀ x, l'.route? x = if x = a then some ra else if x = b then some rb else l.route? x

namespace ReroutesBoth

theorem of_reroutes (hab : a ≠ b) (h : Reroutes l a ra l₁) (h' : Reroutes l₁ b rb l') :
    ReroutesBoth l a ra b rb l' where
  toReseats := h.toReseats.trans h'.toReseats
  route x := by
    rw [h'.route, h.route]
    by_cases hxa : x = a
    · rw [if_pos hxa, if_pos hxa, if_neg (fun hxb => hab (hxa.symm.trans hxb))]
    · rw [if_neg hxa, if_neg hxa]

theorem route_left (h : ReroutesBoth l a ra b rb l') : l'.route? a = some ra := by
  rw [h.route, if_pos rfl]

theorem route_right (hab : a ≠ b) (h : ReroutesBoth l a ra b rb l') : l'.route? b = some rb := by
  rw [h.route, if_neg hab.symm, if_pos rfl]

theorem route_of_ne (h : ReroutesBoth l a ra b rb l') (hxa : x ≠ a) (hxb : x ≠ b) : l'.route? x = l.route? x := by
  rw [h.route, if_neg hxa, if_neg hxb]

theorem then_left (h : ReroutesBoth l a ra b rb l₁) (h' : Reroutes l₁ a ra' l') :
    ReroutesBoth l a ra' b rb l' where
  toReseats := h.toReseats.trans h'.toReseats
  route x := by
    rw [h'.route, h.route]
    split <;> rfl

theorem then_right (hab : a ≠ b) (h : ReroutesBoth l a ra b rb l₁) (h' : Reroutes l₁ b rb' l') :
    ReroutesBoth l a ra b rb' l' where
  toReseats := h.toReseats.trans h'.toReseats
  route x := by
    rw [h'.route, h.route]
    by_cases hxa : x = a
    · rw [if_pos hxa, if_pos hxa, if_neg (fun hxb => hab (hxa.symm.trans hxb))]
    · rw [if_neg hxa, if_neg hxa]
      split <;> rfl

/-- A node that neither of the two routes visits now, nor any other route before, is unvisited. -/
theorem unvisited (h : ReroutesBoth l a ra b rb l') (hma : m ∉ ra.visits) (hmb : m ∉ rb.visits)
    (hother : ∀ y s, y ≠ a → y ≠ b → l.route? y = some s → m ∉ s.visits) : Unvisited l' m := by
  intro y s hs
  rw [h.route] at hs
  split at hs
  · cases hs
    exact hma
  · rename_i hya
    split at hs
    · cases hs
      exact hmb
    · rename_i hyb
      exact hother y s hya hyb hs

theorem symm (hab : a ≠ b) (h : ReroutesBoth l b rb a ra l') : ReroutesBoth l a ra b rb l' where
  toReseats := h.toReseats
  route x := by
    rw [h.route]
    by_cases hxa : x = a
    · rw [if_pos hxa, if_pos hxa, if_neg fun hxb => hab (hxa.symm.trans hxb)]
    · rw [if_neg hxa, if_neg hxa]

theorem trans (h : ReroutesBoth l a ra b rb l₁) (h' : ReroutesBoth l₁ a ra' b rb' l') :
    ReroutesBoth l a ra' b rb' l' where
  toReseats := h.toReseats.trans h'.toReseats
  route x := by
    rw [h'.route, h.route]
    split
    · rfl
    · split <;> rfl

theorem keepsRuns (h : ReroutesBoth l a ra' b rb' l') (ha : l.route? a = some ra) (hb : l.route? b = some rb)
    (hsa : SameRun ra ra') (hsb : SameRun rb rb') : KeepsRuns l l' where
  toReseats := h.toReseats
  onward {x s} hx := by
    by_cases hxa : x = a
    · rw [hxa, ha] at hx
      cases hx
      exact ⟨ra', by rw [hxa, h.route_left], hsa⟩
    · by_cases hxb : x = b
      · rw [hxb, hb] at hx
        cases hx
        exact ⟨rb', by rw [h.route, if_neg hxa, if_pos hxb], hsb⟩
      · exact ⟨s, by rw [h.route_of_ne hxa hxb, hx], .refl s⟩
  back {x s} hx := by
    rw [h.route] at hx
    split at hx
    · rename_i hxa
      cases hx
      exact ⟨ra, hxa ▸ ha, hsa⟩
    · split at hx
      · rename_i hxb
        cases hx
        exact ⟨rb, hxb ▸ hb, hsb⟩
      · exact ⟨s, hx, .refl s⟩

/-- The totals are right everywhere if they are right in the two new routes. -/
theorem current {p : Problem} (h : ReroutesBoth l a ra b rb l') (hl : Current p l)
    (hta : Totals.ofTour p ra.vehicleType.toNat (l.locations ra) = .ok ra.totals)
    (htb : Totals.ofTour p rb.vehicleType.toNat (l.locations rb) = .ok rb.totals) : Current p l' := by
  intro x s hs _
  rw [h.locations]
  rw [h.route] at hs
  split at hs
  · cases hs
    exact hta
  · split at hs
    · cases hs
      exact htb
    · exact hl.totals hs

end ReroutesBoth

theorem mem_visits_of_sublist {cs : List NodeId} (hs : cs.Sublist ra.clients)
    (hm : m ∈ ({ ra with clients := cs } : Route).visits) : m ∈ ra.visits := by
  rw [Route.mem_visits] at hm ⊢
  rcases hm with hm | hm | hm
  · exact Or.inl hm
  · exact Or.inr (Or.inl (hs.subset hm))
  · exact Or.inr (Or.inr hm)

/-- After some clients have left two routes, each of them is unvisited. -/
theorem unvisited_of_left {cs ds : List NodeId} (h : Seated l) (hab : a ≠ b) (ha : l.route? a = some ra)
    (hb : l.route? b = some rb) (hcs : cs.Sublist ra.clients) (hds : ds.Sublist rb.clients)
    (h' : ReroutesBoth l a { ra with clients := cs } b { rb with clients := ds } l')
    (hm : m ∈ ra.clients ∧ m ∉ cs ∨ m ∈ rb.clients ∧ m ∉ ds) : Unvisited l' m := by
  rcases hm with ⟨hm, hnot⟩ | ⟨hm, hnot⟩
  · have hva : m ∈ ra.visits := by simp [hm]
    refine h'.unvisited (h.not_mem_visits ha (.of_clients ra cs) hm hnot) (fun hmem => ?_) fun y s hya _ hs hmem => ?_
    · exact hab.symm (h.route_unique ha hb hva (mem_visits_of_sublist hds hmem))
    · exact hya (h.route_unique ha hs hva hmem)
  · have hvb : m ∈ rb.visits := by simp [hm]
    refine h'.unvisited (fun hmem => ?_) (h.not_mem_visits hb (.of_clients rb ds) hm hnot) fun y s _ hyb hs hmem => ?_
    · exact hab (h.route_unique hb ha hvb (mem_visits_of_sublist hcs hmem))
    · exact hyb (h.route_unique hb hs hvb hmem)

theorem not_mem_around {as : List NodeId} {k n : Nat} (hnodup : as.Nodup) (hm : m ∈ (as.drop k).take n) :
    m ∉ as.take k ++ as.drop (k + n) := by
  have hparts : as = as.take k ++ ((as.drop k).take n ++ as.drop (k + n)) := by
    rw [← List.drop_drop, List.take_append_drop, List.take_append_drop]
  rw [hparts] at hnodup
  obtain ⟨-, hrest, hdisj⟩ := List.nodup_append.mp hnodup
  obtain ⟨-, -, hdisj'⟩ := List.nodup_append.mp hrest
  rw [List.mem_append, not_or]
  exact ⟨fun h => hdisj m h m (List.mem_append_left _ hm) rfl, fun h => hdisj' m hm m h rfl⟩

theorem sublist_around {as : List NodeId} {k n : Nat} : (as.take k ++ as.drop (k + n)).Sublist as := by
  conv_rhs => rw [← List.take_append_drop k as]
  refine (List.Sublist.refl _).append ?_
  rw [← List.drop_drop]
  exact List.drop_sublist _ _

theorem take_around {as : List NodeId} {k n : Nat} (h : k ≤ as.length) :
    (as.take k ++ as.drop (k + n)).take k = as.take k :=
  List.take_left' (List.length_take_of_le h)

theorem drop_around {as : List NodeId} {k n : Nat} (h : k ≤ as.length) :
    (as.take k ++ as.drop (k + n)).drop k = as.drop (k + n) :=
  List.drop_left' (List.length_take_of_le h)

/-- Some clients of a route, taken from its visits. -/
theorem take_drop_visits {r : Route} {k n : Nat} (h : k + n ≤ r.clients.length) :
    (r.visits.drop (k + 1)).take n = (r.clients.drop k).take n := by
  rw [Route.visits_eq, List.drop_succ_cons, List.drop_append_of_le_length (by omega),
    List.take_append_of_le_length (by rw [List.length_drop]; omega)]

/-- Nodes that stand nowhere still do so after others have been put into a route. -/
theorem unvisited_of_joined {cs ms : List NodeId} (h : Reroutes l b { rb with clients := cs } l')
    (hb : l.route? b = some rb) (hcs : ∀ x ∈ cs, x ∈ rb.clients ∨ x ∈ ms) (hun : Unvisited l m) (hm : m ∉ ms) :
    Unvisited l' m := by
  have hold := hun b rb hb
  rw [Route.mem_visits] at hold
  refine h.unvisited (fun hmem => ?_) fun y s _ hs => hun y s hs
  rcases Route.mem_visits.mp hmem with hmem | hmem | hmem
  · exact hold (Or.inl hmem)
  · rcases hcs m hmem with hmem | hmem
    · exact hold (Or.inr (Or.inl hmem))
    · exact hm hmem
  · exact hold (Or.inr (Or.inr hmem))

/-! ### Making a move -/

/-- Clients taken out of both routes. Nothing is taken out of the other route when `m` is 0, wherever `j` is. -/
theorem removeBoth_run {k n q m j : Nat} (h : Seated l) (hab : a ≠ b) (ha : l.route? a = some ra)
    (hb : l.route? b = some rb) (hk : k + n ≤ ra.clients.length) (hq : q + m ≤ rb.clients.length)
    (hj : m = 0 ∨ j = q + 1) :
    ∃ l₁ l₂, removeMany a (k + 1) n l = .ok () l₁ ∧ removeMany b j m l₁ = .ok () l₂ ∧
      ReroutesBoth l a { ra with clients := ra.clients.take k ++ ra.clients.drop (k + n) }
        b { rb with clients := rb.clients.take q ++ rb.clients.drop (q + m) } l₂ := by
  obtain ⟨l₁, hrun₁, h₁⟩ := removeMany_run h ha hk
  have hb₁ : l₁.route? b = some rb := by rw [h₁.route_of_ne hab.symm, hb]
  rcases hj with rfl | rfl
  · refine ⟨l₁, l₁, hrun₁, rfl, .of_reroutes hab h₁ ?_⟩
    simpa using Reroutes.refl h₁.seated hb₁
  · obtain ⟨l₂, hrun₂, h₂⟩ := removeMany_run h₁.seated hb₁ hq
    exact ⟨l₁, l₂, hrun₁, hrun₂, .of_reroutes hab h₁ h₂⟩

/-- Clients of each of two routes, once they have been taken out, can be put in anywhere. -/
theorem loose_of_removed {k n : Nat} {ds : List NodeId} (h : Seated l) (hab : a ≠ b) (ha : l.route? a = some ra)
    (hb : l.route? b = some rb) (hds : ds.Sublist rb.clients)
    (h' : ReroutesBoth l a { ra with clients := ra.clients.take k ++ ra.clients.drop (k + n) }
      b { rb with clients := ds } l') :
    ((ra.clients.drop k).take n).Nodup ∧ (∀ x ∈ (ra.clients.drop k).take n, (l'.node? x).isSome) ∧
      ∀ x ∈ (ra.clients.drop k).take n, Unvisited l' x := by
  have hsub : ((ra.clients.drop k).take n).Sublist ra.clients :=
    (List.take_sublist _ _).trans (List.drop_sublist _ _)
  have hnodup := h.nodup_clients ha
  refine ⟨hnodup.sublist hsub, fun x hx => ?_, fun x hx => ?_⟩
  · rw [h'.isSome]
    exact h.isSome_of_client ha (hsub.subset hx)
  · exact unvisited_of_left h hab ha hb sublist_around hds h' (Or.inl ⟨hsub.subset hx, not_mem_around hnodup hx⟩)

/-- The clients of an exchange, put in where those of the other route were. -/
theorem insertBoth_run {k q : Nat} {ms ns : List NodeId} (h : Seated l) (hab : a ≠ b) (ha : l.route? a = some ra)
    (hb : l.route? b = some rb) (hk : k ≤ ra.clients.length) (hq : q ≤ rb.clients.length)
    (hms : ms.Nodup ∧ (∀ x ∈ ms, (l.node? x).isSome) ∧ ∀ x ∈ ms, Unvisited l x)
    (hns : ns.Nodup ∧ (∀ x ∈ ns, (l.node? x).isSome) ∧ ∀ x ∈ ns, Unvisited l x) (hdisj : ∀ x ∈ ns, x ∉ ms) :
    ∃ l₁ l₂, insertMany b (q + 1) ms l = .ok () l₁ ∧ insertMany a (k + 1) ns l₁ = .ok () l₂ ∧
      ReroutesBoth l a { ra with clients := ra.clients.take k ++ ns ++ ra.clients.drop k }
        b { rb with clients := rb.clients.take q ++ ms ++ rb.clients.drop q } l₂ := by
  obtain ⟨l₁, hrun₁, h₁⟩ := insertMany_run h hb hq hms.1 hms.2.1 hms.2.2
  have ha₁ : l₁.route? a = some ra := by rw [h₁.route_of_ne hab, ha]
  have hjoined : ∀ x ∈ rb.clients.take q ++ ms ++ rb.clients.drop q, x ∈ rb.clients ∨ x ∈ ms := fun x hx => by
    simp only [List.mem_append] at hx
    rcases hx with (hx | hx) | hx
    · exact Or.inl (List.mem_of_mem_take hx)
    · exact Or.inr hx
    · exact Or.inl (List.mem_of_mem_drop hx)
  obtain ⟨l₂, hrun₂, h₂⟩ := insertMany_run h₁.seated ha₁ hk hns.1 (fun x hx => by rw [h₁.isSome]; exact hns.2.1 x hx)
    fun x hx => unvisited_of_joined h₁ hb hjoined (hns.2.2 x hx) (hdisj x hx)
  refine ⟨l₁, l₂, hrun₁, hrun₂, ?_⟩
  exact (ReroutesBoth.of_reroutes hab.symm h₁ h₂).symm hab

theorem appendBoth_run {ms ns : List NodeId} (h : Seated l) (hab : a ≠ b) (ha : l.route? a = some ra)
    (hb : l.route? b = some rb) (hms : ms.Nodup ∧ (∀ x ∈ ms, (l.node? x).isSome) ∧ ∀ x ∈ ms, Unvisited l x)
    (hns : ns.Nodup ∧ (∀ x ∈ ns, (l.node? x).isSome) ∧ ∀ x ∈ ns, Unvisited l x) (hdisj : ∀ x ∈ ns, x ∉ ms) :
    ∃ l₁ l₂, appendMany a ms l = .ok () l₁ ∧ appendMany b ns l₁ = .ok () l₂ ∧
      ReroutesBoth l a { ra with clients := ra.clients ++ ms } b { rb with clients := rb.clients ++ ns } l₂ := by
  obtain ⟨l₁, hrun₁, h₁⟩ := appendMany_run h ha hms.1 hms.2.1 hms.2.2
  have hb₁ : l₁.route? b = some rb := by rw [h₁.route_of_ne hab.symm, hb]
  obtain ⟨l₂, hrun₂, h₂⟩ := appendMany_run h₁.seated hb₁ hns.1 (fun x hx => by rw [h₁.isSome]; exact hns.2.1 x hx)
    fun x hx => unvisited_of_joined h₁ ha (fun y hy => List.mem_append.mp hy) (hns.2.2 x hx) (hdisj x hx)
  exact ⟨l₁, l₂, hrun₁, hrun₂, .of_reroutes hab h₁ h₂⟩

/-- Making a move changes the clients of its two routes by the rule and nothing else. -/
theorem rearrange_run {move : Move} {i j : Nat} (h : Seated l) (hab : a ≠ b) (ha : l.route? a = some ra)
    (hb : l.route? b = some rb) (hfits : move.fits i ra.clients.length j rb.clients.length = .ok true) :
    ∃ l', move.rearrange ⟨a, i⟩ ⟨b, j⟩ ra rb l = .ok () l' ∧
      ReroutesBoth l a { ra with clients := (move.newClients ra.clients rb.clients i j).1 }
        b { rb with clients := (move.newClients ra.clients rb.clients i j).2 } l' := by
  cases move with
  | exchange n m pos le =>
    obtain ⟨⟨k, rfl, hk⟩, hj, hq⟩ := fits_exchange hfits
    have hstay : m.toNat = 0 ∨ j = staying m.toNat j + 1 := by
      rw [← target_eq hj]
      unfold target
      split
      · exact Or.inl ‹_›
      · exact Or.inr rfl
    obtain ⟨l₁, l₂, hrun₁, hrun₂, h₂⟩ := removeBoth_run h hab ha hb hk hq hstay
    have hfromU := loose_of_removed h hab ha hb sublist_around h₂
    have hfromV := loose_of_removed h hab.symm hb ha sublist_around (h₂.symm hab.symm)
    have hdisj : ∀ x ∈ (rb.clients.drop (staying m.toNat j)).take m.toNat,
        x ∉ (ra.clients.drop k).take n.toNat := fun x hx hx' => hab (h.client_unique hb ha (List.mem_of_mem_drop (List.mem_of_mem_take hx))
        (List.mem_of_mem_drop (List.mem_of_mem_take hx')))
    obtain ⟨l₃, l₄, hrun₃, hrun₄, h₄⟩ := insertBoth_run h₂.seated hab h₂.route_left (h₂.route_right hab)
      (k := k) (q := staying m.toNat j) (by simp only [List.length_append, List.length_take]; omega)
      (by simp only [List.length_append, List.length_take]; omega) hfromU hfromV hdisj
    refine ⟨l₄, ?_, ?_⟩
    · have hvisits : (rb.visits.drop j).take m.toNat = (rb.clients.drop (staying m.toNat j)).take m.toNat := by
        rcases hstay with hm | hstay
        · rw [hm, List.take_zero, List.take_zero]
        · conv_lhs => rw [hstay]
          exact take_drop_visits hq
      simp only [rearrange, take_drop_visits hk, hvisits, target_eq hj]
      rw [bind_ok hrun₁, bind_ok hrun₂, bind_ok hrun₃, hrun₄]
    · have h₄ := h₂.trans h₄
      simp only [take_around (show k ≤ ra.clients.length by omega), drop_around (show k ≤ ra.clients.length by omega),
        take_around (show staying m.toNat j ≤ rb.clients.length by omega),
        drop_around (show staying m.toNat j ≤ rb.clients.length by omega)] at h₄
      exact h₄
  | swapTails =>
    obtain ⟨hi, hj, -⟩ := fits_swapTails hfits
    obtain ⟨l₁, l₂, hrun₁, hrun₂, h₂⟩ := removeBoth_run (k := i) (n := ra.clients.length - i) (q := j)
      (m := rb.clients.length - j) h hab ha hb (by omega) (by omega) (Or.inr rfl)
    have hfromU := loose_of_removed h hab ha hb sublist_around h₂
    have hfromV := loose_of_removed h hab.symm hb ha sublist_around (h₂.symm hab.symm)
    have htail : ∀ {as : List NodeId} {k : Nat}, (as.drop k).take (as.length - k) = as.drop k := fun {as k} =>
      List.take_of_length_le (by rw [List.length_drop])
    rw [htail] at hfromU hfromV
    simp only [Nat.add_sub_cancel' hi, Nat.add_sub_cancel' hj, List.drop_length, List.append_nil] at h₂
    have hdisj : ∀ x ∈ ra.clients.drop i, x ∉ rb.clients.drop j := fun x hx hx' =>
      hab (h.client_unique hb ha (List.mem_of_mem_drop hx') (List.mem_of_mem_drop hx))
    obtain ⟨l₃, l₄, hrun₃, hrun₄, h₄⟩ := appendBoth_run h₂.seated hab h₂.route_left (h₂.route_right hab)
      hfromV hfromU hdisj
    refine ⟨l₄, ?_, h₂.trans h₄⟩
    simp only [rearrange, List.length_drop]
    rw [bind_ok hrun₁, bind_ok hrun₂, bind_ok hrun₃, hrun₄]

end Move
end Fleet
