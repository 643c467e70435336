import Fleet.Plan
import Fleet.Proofs.Problem

/-! Which plans are accepted.

    What the check has seen is told by the vehicle types of the tours and the locations of their visits, in the
    order in which it met them. They fit as long as nothing has been wrong, and then they fit at every point
    before; so the check accepts a plan exactly if everything in it fits. -/

namespace Fleet

/-- A tour is possible for a vehicle of the problem that visits clients only. -/
structure Tour.Possible (p : Problem) (t : Tour) : Prop where
  vehicle : ∃ v, p.vehicleTypes[t.vehicleType.toNat]? = some v
  clients : ∀ location ∈ t.visits, p.isClient location.toNat = true

namespace Plan

variable {ε α β : Type}

/-- Vehicle types and locations as the tours of a plan may have them: known types, none of them too often, and
    clients only, none of them twice. -/
structure Fits (p : Problem) (types locations : List Nat) : Prop where
  known : ∀ k ∈ types, k < p.vehicleTypes.size
  available : ∀ {k v}, p.vehicleTypes[k]? = some v → types.count k ≤ v.numAvailable.toNat
  clients : ∀ x ∈ locations, p.isClient x = true
  nodup : locations.Nodup

def types (plan : Plan) : List Nat := plan.routes.map (·.vehicleType.toNat)

def locations (plan : Plan) : List Nat := plan.routes.flatMap fun tour => tour.visits.map (·.toNat)

theorem locations_eq (plan : Plan) : plan.locations = (plan.routes.flatMap (·.visits)).map (·.toNat) := by
  unfold locations
  rw [List.map_flatMap]

theorem nodup_locations_iff {plan : Plan} : plan.locations.Nodup ↔ (plan.routes.flatMap (·.visits)).Nodup := by
  rw [locations_eq]
  exact List.nodup_map_iff fun _ _ => UInt64.toNat_inj.mp

variable {p : Problem} {tally : Tally p} {types locations : List Nat}

namespace Fits

theorem nil : Fits p [] [] where
  known _ hk := by cases hk
  available _ := by simp
  clients _ hx := by cases hx
  nodup := List.nodup_nil

theorem of_append {types' locations' : List Nat} (h : Fits p (types ++ types') (locations ++ locations')) :
    Fits p types locations where
  known k hk := h.known k (List.mem_append_left _ hk)
  available {k _} hv := le_trans (by rw [List.count_append]; omega) (h.available (k := k) hv)
  clients x hx := h.clients x (List.mem_append_left _ hx)
  nodup := h.nodup.of_append_left

theorem type_iff {k : Nat} (h : Fits p types locations) : Fits p (types ++ [k]) locations ↔
    ∃ v, p.vehicleTypes[k]? = some v ∧ types.count k + 1 ≤ v.numAvailable.toNat := by
  constructor
  · intro h'
    have hk : k < p.vehicleTypes.size := h'.known k (by simp)
    have havailable := h'.available (Array.getElem?_eq_getElem hk)
    rw [List.count_append, List.count_singleton_self] at havailable
    exact ⟨_, Array.getElem?_eq_getElem hk, havailable⟩
  · rintro ⟨v, hv, hcount⟩
    refine ⟨fun k' hk' => ?_, fun {k' v'} hv' => ?_, h.clients, h.nodup⟩
    · rcases List.mem_append.mp hk' with hk' | hk'
      · exact h.known k' hk'
      · rw [List.mem_singleton.mp hk']
        exact (Array.getElem?_eq_some_iff.mp hv).1
    · rw [List.count_append]
      by_cases hk : k' = k
      · rw [hk, hv] at hv'
        cases hv'
        rw [hk, List.count_singleton_self]
        exact hcount
      · rw [List.count_singleton, if_neg (by simpa using Ne.symm hk)]
        exact h.available hv'

theorem location_iff {x : Nat} (h : Fits p types locations) : Fits p types (locations ++ [x]) ↔
    p.isClient x = true ∧ x ∉ locations := by
  constructor
  · intro h'
    refine ⟨h'.clients x (by simp), fun hx => ?_⟩
    exact List.disjoint_of_nodup_append h'.nodup hx (List.mem_singleton_self x)
  · rintro ⟨hclient, hx⟩
    refine ⟨h.known, h.available, fun y hy => ?_, ?_⟩
    · rcases List.mem_append.mp hy with hy | hy
      · exact h.clients y hy
      · rw [List.mem_singleton.mp hy]
        exact hclient
    · rw [← List.concat_eq_append]
      exact h.nodup.concat hx

/-- The order of the visits, and which tour they are in, does not matter. -/
theorem perm {locations' : List Nat} (h : Fits p types locations) (hperm : locations.Perm locations') :
    Fits p types locations' :=
  ⟨h.known, h.available, fun x hx => h.clients x (hperm.mem_iff.mpr hx), hperm.nodup_iff.mp h.nodup⟩

end Fits

/-! ### What the check has seen -/

/-- The tally is that of the vehicle types and the locations. -/
structure Tally.Shows (tally : Tally p) (types locations : List Nat) : Prop where
  used : ∀ k (_ : k < p.vehicleTypes.size), tally.used[k] = types.count k
  visited : ∀ x (_ : x < p.numLocations), tally.visited[x] = true ↔ x ∈ locations

theorem Tally.shows_start (p : Problem) : (Tally.start p).Shows [] [] where
  used k hk := by simp [Tally.start]
  visited x hx := by simp [Tally.start]

/-- One tour more of a vehicle type is counted. -/
theorem Tally.Shows.count {k : Nat} (h : tally.Shows types locations) (hk : k < p.vehicleTypes.size) :
    Tally.Shows { tally with used := tally.used.set k (types.count k + 1) } (types ++ [k]) locations := by
  refine ⟨fun k' hk' => ?_, h.visited⟩
  show (tally.used.set k (types.count k + 1))[k'] = _
  rw [List.count_append, Vector.getElem_set]
  by_cases heq : k = k'
  · subst heq
    rw [if_pos rfl, List.count_singleton_self]
  · rw [if_neg heq, h.used k' hk', List.count_singleton, if_neg (by simpa using heq), Nat.add_zero]

/-- One location more is marked. -/
theorem Tally.Shows.mark {x : Nat} (h : tally.Shows types locations) (hx : x < p.numLocations) :
    Tally.Shows { tally with visited := tally.visited.set x true } types (locations ++ [x]) := by
  refine ⟨h.used, fun y hy => ?_⟩
  show (tally.visited.set x true)[y] = true ↔ _
  rw [List.mem_append, List.mem_singleton, Vector.getElem_set]
  by_cases heq : x = y
  · subst heq
    simp
  · rw [if_neg heq, h.visited y hy, or_iff_left (Ne.symm heq)]

/-- A result as `post` says if `cond` holds, and an error otherwise. -/
inductive Decides (cond : Prop) (post : α → Prop) : Except ε α → Prop
  | ok {a : α} (h : cond) (h' : post a) : Decides cond post (.ok a)
  | error {e : ε} (h : ¬cond) : Decides cond post (.error e)

/-- A condition on all of a computation decides its first part if it is no weaker there. -/
theorem Decides.bind {cond cond' : Prop} {post : α → Prop} {post' : β → Prop} {r : Except ε α} {f : α → Except ε β}
    (h : Decides cond post r) (hcond : cond' → cond) (next : ∀ a, cond → post a → Decides cond' post' (f a)) :
    Decides cond' post' (r >>= f) := by
  cases h with
  | ok h h' => exact next _ h h'
  | error h => exact .error fun h' => h (hcond h')

theorem Tally.use_decides {route k : Nat} (h : tally.Shows types locations) (hfits : Fits p types locations) :
    Decides (Fits p (types ++ [k]) locations) (fun tally' => tally'.Shows (types ++ [k]) locations)
      (tally.use p route k) := by
  unfold use
  split
  · rename_i hk
    have hv := Array.getElem?_eq_getElem hk
    simp only [h.used k hk]
    split
    · rename_i hmany
      refine .error fun h' => ?_
      obtain ⟨v', hv', hcount⟩ := hfits.type_iff.mp h'
      rw [hv] at hv'
      cases hv'
      omega
    · rename_i hmany
      exact .ok (hfits.type_iff.mpr ⟨_, hv, by omega⟩) (h.count hk)
  · rename_i hk
    refine .error fun h' => hk ?_
    obtain ⟨_, hv, -⟩ := hfits.type_iff.mp h'
    exact (Array.getElem?_eq_some_iff.mp hv).1

theorem Tally.visit_decides {route x : Nat} (h : tally.Shows types locations) (hfits : Fits p types locations) :
    Decides (Fits p types (locations ++ [x])) (fun tally' => tally'.Shows types (locations ++ [x]))
      (tally.visit p route x) := by
  unfold visit
  split
  · rename_i hclient
    have hx := Problem.lt_of_isClient hclient
    dsimp only
    split
    · rename_i hvisited
      exact .error fun h' => (hfits.location_iff.mp h').2 ((h.visited x hx).mp hvisited)
    · rename_i hvisited
      exact .ok (hfits.location_iff.mpr ⟨hclient, fun hmem => hvisited ((h.visited x hx).mpr hmem)⟩) (h.mark hx)
  · rename_i hclient
    exact .error fun h' => hclient (hfits.location_iff.mp h').1

theorem Tally.visits_decide {route : Nat} {visits : List UInt64} : ∀ {tally : Tally p} {locations : List Nat},
    tally.Shows types locations → Fits p types locations →
    Decides (Fits p types (locations ++ visits.map (·.toNat)))
      (fun tally' => tally'.Shows types (locations ++ visits.map (·.toNat)))
      (visits.foldlM (fun tally location => tally.visit p route location.toNat) tally) := by
  induction visits with
  | nil =>
    intro tally locations h hfits
    rw [List.map_nil, List.append_nil]
    exact .ok hfits h
  | cons x visits ih =>
    intro tally locations h hfits
    rw [List.foldlM_cons, List.map_cons, List.append_cons]
    refine (visit_decides h hfits).bind (fun h' => ?_) fun tally' hfits' h' => ih h' hfits'
    have h' : Fits p (types ++ []) ((locations ++ [x.toNat]) ++ visits.map (·.toNat)) := by rwa [List.append_nil]
    exact h'.of_append

theorem Tally.tour_decides {tour : Tour × Nat} (h : tally.Shows types locations) (hfits : Fits p types locations) :
    Decides (Fits p (types ++ [tour.1.vehicleType.toNat]) (locations ++ tour.1.visits.map (·.toNat)))
      (fun tally' => tally'.Shows (types ++ [tour.1.vehicleType.toNat]) (locations ++ tour.1.visits.map (·.toNat)))
      (tally.tour p tour) := by
  unfold Tally.tour
  refine (use_decides h hfits).bind (fun h' => ?_) fun tally' hfits' h' => visits_decide h' hfits'
  have h' : Fits p ((types ++ [tour.1.vehicleType.toNat]) ++ []) (locations ++ tour.1.visits.map (·.toNat)) := by
    rwa [List.append_nil]
  exact h'.of_append

theorem Tally.tours_decide {tours : List Tour} : ∀ {i : Nat} {tally : Tally p} {types locations : List Nat},
    tally.Shows types locations → Fits p types locations →
    Decides (Fits p (types ++ (Plan.mk tours).types) (locations ++ (Plan.mk tours).locations))
      (fun tally' => tally'.Shows (types ++ (Plan.mk tours).types) (locations ++ (Plan.mk tours).locations))
      ((tours.zipIdx i).foldlM (Tally.tour p) tally) := by
  induction tours with
  | nil =>
    intro i tally types locations h hfits
    simp only [Plan.types, Plan.locations, List.map_nil, List.flatMap_nil, List.append_nil]
    exact .ok hfits h
  | cons tour tours ih =>
    intro i tally types locations h hfits
    have htypes : types ++ (Plan.mk (tour :: tours)).types =
        (types ++ [tour.vehicleType.toNat]) ++ (Plan.mk tours).types := by simp [Plan.types]
    have hlocations : locations ++ (Plan.mk (tour :: tours)).locations =
        (locations ++ tour.visits.map (·.toNat)) ++ (Plan.mk tours).locations := by simp [Plan.locations]
    rw [List.zipIdx_cons, List.foldlM_cons, htypes, hlocations]
    exact (tour_decides h hfits).bind Fits.of_append fun tally' hfits' h' => ih h' hfits'

/-- A plan is accepted exactly if its vehicle types and its visits fit the problem. -/
theorem check_decides (plan : Plan) (p : Problem) :
    Decides (Fits p plan.types plan.locations) (fun _ => True) (plan.check p) := by
  unfold check
  refine (Tally.tours_decide (i := 0) (Tally.shows_start p) Fits.nil).bind ?_ fun _ _ _ => ?_
  · exact id
  · exact .ok ‹_› trivial

theorem check_eq_ok_iff {plan : Plan} : plan.check p = .ok () ↔ Fits p plan.types plan.locations := by
  have h := check_decides plan p
  generalize plan.check p = r at h
  cases h with
  | ok h => exact iff_of_true rfl h
  | error h => exact iff_of_false (by simp) h

/-! ### The tours of a plan -/

theorem Fits.possible {plan : Plan} (h : Fits p plan.types plan.locations) : ∀ t ∈ plan.routes, t.Possible p := by
  intro t ht
  constructor
  · have hk := h.known t.vehicleType.toNat (List.mem_map_of_mem ht)
    exact ⟨_, Array.getElem?_eq_getElem hk⟩
  · intro location hlocation
    exact h.clients _ (List.mem_flatMap.mpr ⟨t, ht, List.mem_map_of_mem hlocation⟩)

end Plan
end Fleet
