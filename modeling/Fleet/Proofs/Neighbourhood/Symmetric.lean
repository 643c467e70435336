import Fleet.Proofs.Neighbourhood.Nearest

/-! Making lists of neighbours symmetric adds to each list the locations that have its own as a neighbour, and nothing
    else.

    A link adds one neighbour to each of two lists. Every list is gone through once, so in the end there is a link for
    each neighbour of each location. -/

namespace Fleet

namespace Neighbourhood

open Scores

variable {p : Problem} {params : NeighbourhoodParameters} {ls : Array (List Nat)} {list : List Nat} {a b i j n : Nat}

/-- `j` is in the list of `i`. -/
def Neighbour (ls : Array (List Nat)) (i j : Nat) : Prop := ∃ list, ls[i]? = some list ∧ j ∈ list

/-! ### Ascending lists -/

theorem pairwise_includeAscending (j : Nat) (h : list.Pairwise (· < ·)) :
    (includeAscending j list).Pairwise (· < ·) := by
  induction list with
  | nil => exact List.pairwise_singleton _ _
  | cons l list ih =>
    obtain ⟨hl, hlist⟩ := List.pairwise_cons.mp h
    unfold includeAscending
    split
    · rename_i hlt
      exact List.pairwise_cons.mpr ⟨List.forall_mem_cons.mpr ⟨hlt, fun x hx => hlt.trans (hl x hx)⟩, h⟩
    · rename_i hge
      split
      · exact h
      · rename_i hne
        refine List.pairwise_cons.mpr ⟨fun x hx => ?_, ih hlist⟩
        rcases mem_includeAscending.mp hx with rfl | hx
        · omega
        · exact hl x hx

/-- All lists are in ascending order, without repetitions. -/
def Ascending (ls : Array (List Nat)) : Prop := ∀ (i : Nat) list, ls[i]? = some list → list.Pairwise (· < ·)

theorem Ascending.modify (h : Ascending ls) (i j : Nat) : Ascending (ls.modify i (includeAscending j)) := by
  intro k list hk
  rw [Array.getElem?_modify] at hk
  split at hk
  · obtain ⟨list', hlist', rfl⟩ := Option.map_eq_some_iff.mp hk
    exact pairwise_includeAscending j (h k list' hlist')
  · exact h k list hk

theorem Ascending.link (h : Ascending ls) (i j : Nat) : Ascending (link i ls j) := (h.modify i j).modify j i

theorem ascending_symmetricLists (ls : Array (List Nat)) : Ascending (symmetricLists ls) := by
  unfold symmetricLists
  have hstart : Ascending (.replicate ls.size []) := fun i list hi => by
    rw [Array.getElem?_replicate] at hi
    split at hi
    · cases hi
      exact .nil
    · cases hi
  exact List.foldlRecOn _ _ hstart fun _ h e _ => List.foldlRecOn _ _ h fun _ h j _ => h.link e.2 j

/-! ### Links -/

theorem neighbour_modify (hi : i < ls.size) :
    Neighbour (ls.modify i (includeAscending j)) a b ↔ Neighbour ls a b ∨ a = i ∧ b = j := by
  unfold Neighbour
  rw [Array.getElem?_modify]
  split
  · rename_i heq
    subst heq
    rw [Array.getElem?_eq_getElem hi, Option.map_some]
    simp only [Option.some.injEq, exists_eq_left', mem_includeAscending, true_and]
    tauto
  · rename_i hne
    simp [Ne.symm hne]

theorem size_link (i j : Nat) (ls : Array (List Nat)) : (link i ls j).size = ls.size := by
  unfold link
  rw [Array.size_modify, Array.size_modify]

theorem neighbour_link (hi : i < ls.size) (hj : j < ls.size) :
    Neighbour (link i ls j) a b ↔ Neighbour ls a b ∨ a = i ∧ b = j ∨ b = i ∧ a = j := by
  unfold link
  rw [neighbour_modify (by rwa [Array.size_modify]), neighbour_modify hi]
  tauto

/-- Linking `i` with all locations of a list. -/
theorem neighbour_foldl_link (hi : i < n) (hlist : ∀ j ∈ list, j < n) (hn : ls.size = n) :
    (list.foldl (link i) ls).size = n ∧
      (Neighbour (list.foldl (link i) ls) a b ↔ Neighbour ls a b ∨ a = i ∧ b ∈ list ∨ b = i ∧ a ∈ list) := by
  induction list generalizing ls with
  | nil => simp [hn]
  | cons j list ih =>
    obtain ⟨hj, hlist⟩ := List.forall_mem_cons.mp hlist
    obtain ⟨hsize, hiff⟩ := ih hlist (show (link i ls j).size = n from (size_link i j ls).trans hn)
    refine ⟨hsize, ?_⟩
    rw [List.foldl_cons, hiff, neighbour_link (hn ▸ hi) (hn ▸ hj), List.mem_cons, List.mem_cons]
    tauto

/-- Doing so for several locations with their lists. -/
theorem neighbour_foldl {entries : List (List Nat × Nat)} (h : ∀ e ∈ entries, e.2 < n ∧ ∀ j ∈ e.1, j < n)
    (hn : ls.size = n) :
    Neighbour (entries.foldl (fun linked e => e.1.foldl (link e.2) linked) ls) a b ↔
      Neighbour ls a b ∨ ∃ e ∈ entries, a = e.2 ∧ b ∈ e.1 ∨ b = e.2 ∧ a ∈ e.1 := by
  induction entries generalizing ls with
  | nil => simp
  | cons e entries ih =>
    obtain ⟨⟨he, hlist⟩, hentries⟩ := List.forall_mem_cons.mp h
    obtain ⟨hsize, hiff⟩ := neighbour_foldl_link (a := a) (b := b) he hlist hn
    rw [List.foldl_cons, ih hentries hsize, hiff, List.exists_mem_cons_iff, or_assoc]

/-- The symmetric lists are the symmetric closure of the lists. -/
theorem neighbour_symmetricLists (h : Within n ls) :
    Neighbour (symmetricLists ls) a b ↔ Neighbour ls a b ∨ Neighbour ls b a := by
  have hentry : ∀ e ∈ ls.toList.zipIdx, ls[e.2]? = some e.1 := fun e he => by
    rw [← Array.getElem?_toList]
    exact List.mk_mem_zipIdx_iff_getElem?.mp he
  have hbounds : ∀ e ∈ ls.toList.zipIdx, e.2 < ls.size ∧ ∀ j ∈ e.1, j < ls.size := fun e he =>
    ⟨(Array.getElem?_eq_some_iff.mp (hentry e he)).1, fun j hj => h.size ▸ h.lt (hentry e he) hj⟩
  have hstart : ¬ Neighbour (.replicate ls.size []) a b := by
    rintro ⟨list, hlist, hb⟩
    rw [Array.getElem?_replicate] at hlist
    split at hlist
    · cases hlist
      cases hb
    · cases hlist
  have hlinked : Neighbour (symmetricLists ls) a b ↔
      Neighbour (.replicate ls.size []) a b ∨ ∃ e ∈ ls.toList.zipIdx, a = e.2 ∧ b ∈ e.1 ∨ b = e.2 ∧ a ∈ e.1 :=
    neighbour_foldl hbounds Array.size_replicate
  refine hlinked.trans ((or_iff_right hstart).trans ⟨?_, ?_⟩)
  · rintro ⟨e, he, ⟨rfl, hb⟩ | ⟨rfl, ha⟩⟩
    · exact Or.inl ⟨e.1, hentry e he, hb⟩
    · exact Or.inr ⟨e.1, hentry e he, ha⟩
  · have hmem : ∀ {i : Nat} {list}, ls[i]? = some list → (list, i) ∈ ls.toList.zipIdx := fun hi => by
      rwa [List.mk_mem_zipIdx_iff_getElem?, Array.getElem?_toList]
    rintro (⟨list, hlist, hb⟩ | ⟨list, hlist, ha⟩)
    · exact ⟨(list, a), hmem hlist, Or.inl ⟨rfl, hb⟩⟩
    · exact ⟨(list, b), hmem hlist, Or.inr ⟨rfl, ha⟩⟩

/-! ### The lists of a problem -/

theorem lists_symmetric (h : lists p { params with symmetricNeighbours := false } = .ok ls) :
    lists p { params with symmetricNeighbours := true } = .ok (symmetricLists ls) := by
  obtain ⟨s, hs, h⟩ := bind_eq_ok h
  obtain ⟨rows, hrows, h⟩ := bind_eq_ok h
  obtain rfl := Except.ok.inj h
  show scores p { params with symmetricNeighbours := false } >>= _ = _
  rw [hs, ok_bind]
  show (List.range p.numLocations).mapM (listOf p (listLength p { params with symmetricNeighbours := false }) s) >>= _ = _
  rw [hrows, ok_bind]
  rfl

/-- A neighbour is a client, and so is whoever has it, another one. -/
theorem clients_of_neighbour (hsymmetric : params.symmetricNeighbours = false) (hls : lists p params = .ok ls)
    (h : Neighbour ls i j) : p.isClient i = true ∧ p.isClient j = true ∧ j ≠ i := by
  obtain ⟨s, hs, hsquare⟩ := scores_succeed p params
  obtain ⟨ls', hls', hsize, hlist⟩ := lists_run hs hsquare hsymmetric
  obtain rfl := Except.ok.inj (hls.symm.trans hls')
  obtain ⟨list, hi, hj⟩ := h
  have hlt : i < p.numLocations := hsize ▸ (Array.getElem?_eq_some_iff.mp hi).1
  obtain ⟨list', hi', hrun⟩ := hlist i hlt
  obtain rfl := Option.some.inj (hi.symm.trans hi')
  cases hdepot : p.isDepot i with
  | true =>
    rw [listOf_depot hdepot] at hrun
    cases hrun
    cases hj
  | false =>
    have hclient : p.isClient i = true := Problem.isClient_iff.mpr ⟨Nat.not_lt.mp (of_decide_eq_false hdepot), hlt⟩
    rw [listOf_eq hsquare hclient] at hrun
    cases hrun
    exact ⟨hclient, mem_others.mp ((byNearness_perm p s i).mem_iff.mp (List.mem_of_mem_take hj))⟩

/-- The symmetric lists have the neighbours of the plain ones and whoever has one as a neighbour. So they are symmetric;
    depots have no neighbours and are none, no location is its own neighbour, and all lists are in ascending order. -/
theorem symmetric_of_lists (p : Problem) (params : NeighbourhoodParameters) :
    ∃ ls ls', lists p { params with symmetricNeighbours := false } = .ok ls ∧
      lists p { params with symmetricNeighbours := true } = .ok ls' ∧
      ls.size = p.numLocations ∧ ls'.size = p.numLocations ∧
      (∀ i j, Neighbour ls' i j ↔ Neighbour ls i j ∨ Neighbour ls j i) ∧
      (∀ i j, Neighbour ls' i j ↔ Neighbour ls' j i) ∧
      (∀ (i : Nat) list list', ls[i]? = some list → ls'[i]? = some list' → list ⊆ list') ∧
      (∀ i, p.isDepot i = true → ls'[i]? = some [] ∧ ∀ j, ¬ Neighbour ls' j i) ∧
      (∀ i, ¬ Neighbour ls' i i) ∧
      Ascending ls' := by
  obtain ⟨ls, hls, hwithin⟩ := lists_succeed p { params with symmetricNeighbours := false }
  have hclosure : ∀ i j, Neighbour (symmetricLists ls) i j ↔ Neighbour ls i j ∨ Neighbour ls j i := fun i j =>
    neighbour_symmetricLists hwithin
  have hclients : ∀ i j, Neighbour (symmetricLists ls) i j → p.isClient i = true ∧ p.isClient j = true ∧ j ≠ i :=
    fun i j h => by
      rcases (hclosure i j).mp h with h | h
      · exact clients_of_neighbour rfl hls h
      · obtain ⟨hj, hi, hne⟩ := clients_of_neighbour rfl hls h
        exact ⟨hi, hj, hne.symm⟩
  refine ⟨ls, symmetricLists ls, hls, lists_symmetric hls, hwithin.size, hwithin.symmetricLists.size, hclosure,
    fun i j => ?_, fun i list list' hi hi' j hj => ?_, fun i hi => ⟨?_, fun j h => ?_⟩, fun i h => ?_,
    ascending_symmetricLists ls⟩
  · rw [hclosure, hclosure, or_comm]
  · obtain ⟨list'', hi'', hj'⟩ := (hclosure i j).mpr (Or.inl ⟨list, hi, hj⟩)
    rwa [Option.some.inj (hi'.symm.trans hi'')]
  · have hlt : i < (symmetricLists ls).size := hwithin.symmetricLists.size ▸ Problem.lt_of_depot (of_decide_eq_true hi)
    rw [Array.getElem?_eq_getElem hlt]
    refine congrArg some (List.eq_nil_iff_forall_not_mem.mpr fun j hj => ?_)
    exact not_isClient hi (hclients i j ⟨_, Array.getElem?_eq_getElem hlt, hj⟩).1
  · exact not_isClient hi (hclients j i h).2.1
  · exact (hclients i i h).2.2 rfl

end Neighbourhood

end Fleet
