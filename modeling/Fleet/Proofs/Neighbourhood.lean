import Fleet.Neighbourhood.Nearest
import Fleet.Proofs.Neighbourhood.Passes

/-! Neighbours can always be found.

    Every table of scores is as wide and as high as there are locations, so all its entries are there; and a
    location is only ever given locations of the problem as neighbours. -/

namespace Fleet

namespace Neighbourhood

open Scores

variable {p : Problem} {s : Scores} {params : NeighbourhoodParameters} {i j k x : Nat}

/-! ### Proximity -/

theorem window_succeeds (hi : i < p.numLocations) : Succeeds (fun _ => True) (p.window i) := by
  obtain ⟨w, hw⟩ := Problem.window_run hi
  exact ⟨w, hw, trivial⟩

theorem charges_succeed (p : Problem) : Succeeds (Square p.numLocations) (charges p) :=
  (charges_each p).imp fun _ h => ⟨h.1, h.2.square⟩

theorem shortestDurations_succeed (p : Problem) : Succeeds (Square p.numLocations) (shortestDurations p) :=
  (shortestDurations_each p).imp fun _ h => ⟨h.1, h.2.square⟩

theorem addTimes_succeeds {shortest charges : Scores} (hs : shortest.Square p.numLocations)
    (hc : charges.Square p.numLocations) :
    Succeeds (Square p.numLocations) (addTimes p params shortest charges) := by
  refine tabulate_succeeds fun i j hi hj => (hs.entry_succeeds hi hj).bind fun duration _ => ?_
  have hwait : Succeeds (fun _ => True) (leastWait p duration i j) :=
    (window_succeeds hi).bind fun _ _ => (window_succeeds hj).bind fun _ _ => ⟨_, rfl, trivial⟩
  have hwarp : Succeeds (fun _ => True) (leastWarp p duration i j) :=
    (window_succeeds hi).bind fun _ _ => (window_succeeds hj).bind fun _ _ => ⟨_, rfl, trivial⟩
  exact hwait.bind fun _ _ => hwarp.bind fun _ _ => (hc.entry_succeeds hi hj).bind fun _ _ => ⟨_, rfl, trivial⟩

theorem symmetrize_succeeds (hs : s.Square p.numLocations) : Succeeds (Square p.numLocations) (symmetrize p s) := by
  refine tabulate_succeeds fun i j hi hj => ?_
  have hmin : min i j < p.numLocations := lt_of_le_of_lt (min_le_left i j) hi
  have hmax : max i j < p.numLocations := max_lt hi hj
  exact (hs.entry_succeeds hmin hmax).bind fun _ _ => (hs.entry_succeeds hmax hmin).bind fun _ _ => ⟨_, rfl, trivial⟩

theorem markGroups_succeed (hs : s.Square p.numLocations) : Succeeds (Square p.numLocations) (markGroups p s) :=
  (marks_markGroups p _ _ s hs.each.over).imp fun _ h => ⟨h.1, h.2.square⟩

theorem dropSelfAndDepots_succeeds (hs : s.Square p.numLocations) :
    Succeeds (Square p.numLocations) (dropSelfAndDepots p s) := by
  refine tabulate_succeeds fun i j hi hj => ?_
  split
  · exact ⟨_, rfl, trivial⟩
  · exact hs.entry_succeeds hi hj

theorem scores_succeed (p : Problem) (params : NeighbourhoodParameters) :
    Succeeds (Square p.numLocations) (scores p params) := by
  refine (charges_succeed p).bind fun charges hcharges => ?_
  refine (shortestDurations_succeed p).bind fun shortest hshortest => ?_
  refine (addTimes_succeeds hshortest hcharges).bind fun s hs => ?_
  have hrest : ∀ s : Scores, s.Square p.numLocations → Succeeds (Square p.numLocations) (do
      let scores ← markGroups p s
      dropSelfAndDepots p scores) := fun s hs =>
    (markGroups_succeed hs).bind fun s hs => dropSelfAndDepots_succeeds hs
  show Succeeds _ (if _ then _ else _)
  split
  · exact (symmetrize_succeeds hs).bind hrest
  · exact hrest s hs

/-! ### Lists of neighbours -/

theorem mem_place {a b : Candidate} {best : List Candidate} : b ∈ place a best ↔ b = a ∨ b ∈ best := by
  induction best with
  | nil => simp [place]
  | cons c best ih =>
    unfold place
    split
    · simp
    · rw [List.mem_cons, ih, List.mem_cons]
      tauto

/-- Only candidates are among the nearest. -/
theorem mem_of_mem_nearest {candidates : List Candidate} {a : Candidate} (h : a ∈ nearest k candidates) :
    a ∈ candidates := by
  suffices hfold : ∀ best, a ∈ candidates.foldl (fun best a => (place a best).take k) best → a ∈ best ∨ a ∈ candidates by
    simpa using hfold [] h
  clear h
  induction candidates with
  | nil => exact fun best h => Or.inl h
  | cons b candidates ih =>
    intro best h
    rcases ih _ h with h | h
    · rcases mem_place.mp (List.mem_of_mem_take h) with rfl | h
      · exact Or.inr List.mem_cons_self
      · exact Or.inl h
    · exact Or.inr (List.mem_cons_of_mem _ h)

theorem listOf_succeeds (hs : s.Square p.numLocations) (hi : i < p.numLocations) :
    Succeeds (fun list => ∀ x ∈ list, x < p.numLocations) (listOf p k s i) := by
  unfold listOf
  split
  · exact ⟨[], rfl, by simp⟩
  · refine (hs.row_succeeds hi).bind fun row hrow => ?_
    have hlt : ∀ j ∈ (List.range' p.numDepots p.numClients).filter (· ≠ i), j < p.numLocations := fun j hj => by
      obtain ⟨step, hstep, rfl⟩ := List.mem_range'.mp (List.mem_of_mem_filter hj)
      show _ < p.depots.size + p.clients.size
      unfold Problem.numDepots
      unfold Problem.numClients at hstep
      omega
    refine (Succeeds.mapM fun j hj => show Succeeds (fun c : Candidate => c.location < p.numLocations) _ from ?_).bind
      fun candidates hcandidates => ⟨_, rfl, fun x hx => ?_⟩
    · rw [Array.getElem?_eq_getElem (hrow ▸ hlt j hj)]
      exact ⟨_, rfl, hlt j hj⟩
    · obtain ⟨c, hc, rfl⟩ := List.mem_map.mp hx
      obtain ⟨index, hindex, rfl⟩ := List.mem_iff_getElem.mp (mem_of_mem_nearest hc)
      exact hcandidates.get (hcandidates.length_eq ▸ hindex) hindex

/-- There is a list for each of `n` locations, of such locations. -/
structure Within (n : Nat) (lists : Array (List Nat)) : Prop where
  size : lists.size = n
  lt : ∀ {i x : Nat} {list : List Nat}, lists[i]? = some list → x ∈ list → x < n

theorem mem_includeAscending {list : List Nat} : x ∈ includeAscending j list ↔ x = j ∨ x ∈ list := by
  induction list with
  | nil => simp [includeAscending]
  | cons l list ih =>
    unfold includeAscending
    split
    · simp
    · split
      · rename_i heq
        simp [heq]
      · rw [List.mem_cons, ih, List.mem_cons]
        tauto

theorem Within.modify {n : Nat} {lists : Array (List Nat)} (h : Within n lists) (i : Nat) (hj : j < n) :
    Within n (lists.modify i (includeAscending j)) where
  size := by rw [Array.size_modify, h.size]
  lt {k x list} hk hx := by
    rw [Array.getElem?_modify] at hk
    split at hk
    · obtain ⟨list', hlist', rfl⟩ := Option.map_eq_some_iff.mp hk
      rcases mem_includeAscending.mp hx with rfl | hx
      · exact hj
      · exact h.lt hlist' hx
    · exact h.lt hk hx

theorem Within.link {n : Nat} {lists : Array (List Nat)} (h : Within n lists) (hi : i < n) (hj : j < n) :
    Within n (link i lists j) :=
  (h.modify i hj).modify j hi

theorem Within.symmetricLists {n : Nat} {lists : Array (List Nat)} (h : Within n lists) : Within n (symmetricLists lists) := by
  unfold Neighbourhood.symmetricLists
  have hstart : Within n (Array.replicate lists.size ([] : List Nat)) := by
    refine ⟨by rw [Array.size_replicate, h.size], fun {i x list} hi hx => ?_⟩
    rw [Array.getElem?_replicate] at hi
    split at hi
    · cases hi
      cases hx
    · cases hi
  refine List.foldlRecOn _ _ hstart fun linked hlinked entry hentry => ?_
  obtain ⟨list, i⟩ := entry
  have hlist : lists[i]? = some list := by
    rw [← Array.getElem?_toList]
    exact List.mk_mem_zipIdx_iff_getElem?.mp hentry
  have hi : i < n := h.size ▸ (Array.getElem?_eq_some_iff.mp hlist).1
  exact List.foldlRecOn _ _ hlinked fun linked hlinked j hj => hlinked.link hi (h.lt hlist hj)

theorem lists_succeed (p : Problem) (params : NeighbourhoodParameters) :
    Succeeds (Within p.numLocations) (lists p params) := by
  refine (scores_succeed p params).bind fun s hs => ?_
  have hlists : ∀ i ∈ List.range p.numLocations, Succeeds (fun list => ∀ x ∈ list, x < p.numLocations)
      (listOf p (listLength p params) s i) := fun i hi => listOf_succeeds hs (List.mem_range.mp hi)
  refine (Succeeds.mapM hlists).bind fun lists hlists => ?_
  have hwithin : Within p.numLocations lists.toArray := by
    refine ⟨by rw [List.size_toArray, ← hlists.length_eq, List.length_range], fun {i x list} hi hx => ?_⟩
    rw [List.getElem?_toArray] at hi
    obtain ⟨hi', rfl⟩ := List.getElem?_eq_some_iff.mp hi
    have hlist := hlists.get (hlists.length_eq ▸ hi') hi'
    exact hlist x hx
  refine ⟨_, rfl, ?_⟩
  split
  · exact hwithin.symmetricLists
  · exact hwithin

end Neighbourhood
end Fleet
