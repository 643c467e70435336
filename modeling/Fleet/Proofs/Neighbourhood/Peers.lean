import Fleet.Proofs.Acceptance
import Fleet.Proofs.Neighbourhood.Proximity

/-! A client's nearest neighbours are the clients that it excludes.

    Their score is the lowest finite one, and the score of no way falls that far. They all have the same score, so among
    them the numbers decide. -/

namespace Fleet

namespace Neighbourhood

open Scores Score Double

variable {p : Problem} {params : NeighbourhoodParameters} {s : Scores} {group : Group} {g i j k l : Nat} {x : Float}

/-- The clients of a group other than `i`, in ascending order. -/
def peers (p : Problem) (group : Group) (i : Nat) : List Nat := (others p i).filter fun j => group.Has j

theorem isClient_of_has (hgroup : group ∈ p.groups) (h : group.Has j) : p.isClient j = true := by
  obtain ⟨l, hl, rfl⟩ := h
  exact Problem.isClient_iff.mpr (Problem.range_of_member (Array.mem_toList_iff.mpr hgroup) hl)

theorem mem_peers (hgroup : group ∈ p.groups) : j ∈ peers p group i ↔ j ≠ i ∧ group.Has j := by
  unfold peers
  rw [List.mem_filter, mem_others, decide_eq_true_iff]
  exact ⟨fun ⟨⟨_, hne⟩, hj⟩ => ⟨hne, hj⟩, fun ⟨hne, hj⟩ => ⟨⟨isClient_of_has hgroup hj, hne⟩, hj⟩⟩

theorem pairwise_peers (p : Problem) (group : Group) (i : Nat) : (peers p group i).Pairwise (· < ·) :=
  (pairwise_others p i).filter _

/-- No client is in two groups. -/
theorem has_of_excludes (hg : p.groups[g]? = some group) (hi : group.Has i) (h : p.Excludes i j) : group.Has j := by
  obtain ⟨group', hgroup', -, hi', hj⟩ := h
  obtain ⟨g', hg'⟩ := Array.mem_iff_getElem?.mp hgroup'
  obtain rfl : g = g' := Problem.Lists.unique ⟨group, hg, hi⟩ ⟨group', hg', hi'⟩
  rwa [Option.some.inj (hg.symm.trans hg')]

theorem eq_exclusive (h : PairScore p params i j x) (hkeep : ¬ Dropped p i j) (hexcludes : p.Excludes i j) :
    x = exclusive := by
  cases h with
  | never hdrop => exact absurd hdrop hkeep
  | exclusive => rfl
  | oneWay _ hfree | bothWays _ hfree => exact absurd hexcludes hfree

theorem rank_exclusive_lt_pair (hw : Weighted params) (h : PairScore p params i j x) (hkeep : ¬ Dropped p i j)
    (hfree : ¬ p.Excludes i j) : rank exclusive < rank x := by
  have hway : ∀ {i j}, WayScore p params i j x → rank exclusive < rank x := fun h =>
    rank_exclusive_lt ((h.bounded hw).1.mono (by norm_num))
  cases h with
  | never hdrop => exact absurd hdrop hkeep
  | exclusive _ hexcludes => exact absurd hexcludes hfree
  | oneWay _ _ _ hx => exact hway hx
  | bothWays _ _ _ hx => exact hx.1.elim hway hway

theorem rankAt_of_entry (h : s.entry i j = .ok x) : s.rankAt i j = rank x := by
  unfold Scores.rankAt
  rw [h]

/-- The other clients of a group come before everything else. -/
theorem nearer_of_group (hw : Weighted params) (hs : s.Each p.numLocations (PairScore p params))
    (hg : p.groups[g]? = some group) (hexclusive : group.mutuallyExclusive = true) (hi : group.Has i) :
    (peers p group i).Pairwise (s.Nearer i) ∧
      ∀ j ∈ peers p group i, ∀ l ∈ others p i, l ∉ peers p group i → s.Nearer i j l := by
  have hgroup : group ∈ p.groups := Array.mem_of_getElem? hg
  have hclient := isClient_of_has hgroup hi
  have hlt : i < p.numLocations := Problem.lt_of_isClient hclient
  have hpeer : ∀ j ∈ peers p group i, s.rankAt i j = rank exclusive := fun j hj => by
    obtain ⟨hne, hj⟩ := (mem_peers hgroup).mp hj
    have hclientj := isClient_of_has hgroup hj
    obtain ⟨x, hx, hpair⟩ := hs.entry hlt (Problem.lt_of_isClient hclientj)
    rw [rankAt_of_entry hx,
      eq_exclusive hpair (not_dropped hclient hclientj hne) ⟨group, hgroup, hexclusive, hi, hj⟩]
  refine ⟨(pairwise_peers p group i).imp_of_mem fun ha hb hlt => Or.inr ⟨(hpeer _ ha).trans (hpeer _ hb).symm, hlt⟩,
    fun j hj l hl hnot => Or.inl ?_⟩
  obtain ⟨hclientl, hne⟩ := mem_others.mp hl
  obtain ⟨x, hx, hpair⟩ := hs.entry hlt (Problem.lt_of_isClient hclientl)
  rw [hpeer j hj, rankAt_of_entry hx]
  exact rank_exclusive_lt_pair hw hpair (not_dropped hclient hclientl hne) fun h =>
    hnot ((mem_peers hgroup).mpr ⟨hne, has_of_excludes hg hi h⟩)

/-- The neighbours of a client of a group that admits only one of its clients are first the other clients of the group,
    those with the lowest numbers first, and only then any others. -/
theorem peers_of_lists (hvalid : params.validate = .ok ()) (hwait : params.waitWeight.isFinite = true)
    (hwarp : params.warpWeight.isFinite = true) (hsymmetric : params.symmetricNeighbours = false) :
    ∃ ls, lists p params = .ok ls ∧ ∀ (g i : Nat) group, p.groups[g]? = some group →
      group.mutuallyExclusive = true → p.Names g i → ∃ members list : List Nat, members.Pairwise (· < ·) ∧
        (∀ j, j ∈ members ↔ j ≠ i ∧ ∃ l ∈ group.clients, l.toNat = j) ∧ ls[i]? = some list ∧
        list.length = min params.numNeighbours.toNat (p.numClients - 1) ∧
        list.take (min list.length members.length) = members.take (min list.length members.length) ∧
        list.Pairwise fun a b => b ∈ members → a ∈ members := by
  have hw := weighted_of_validate hvalid hwait hwarp
  obtain ⟨s, hs, heach⟩ := scores_each p hw
  obtain ⟨ls, hls, hsize, hlist⟩ := lists_run hs heach.square hsymmetric
  refine ⟨ls, hls, fun g i group hg hexclusive hnames => ?_⟩
  have hgroup : group ∈ p.groups := Array.mem_of_getElem? hg
  have hi : group.Has i := by
    obtain ⟨group', hg', hi⟩ := Problem.lists_iff_names.mpr hnames
    rwa [Option.some.inj (hg.symm.trans hg')]
  have hclient := isClient_of_has hgroup hi
  obtain ⟨list, hli, hrun⟩ := hlist i (Problem.lt_of_isClient hclient)
  rw [listOf_eq heach.square hclient] at hrun
  cases hrun
  obtain ⟨hpeers, hrest⟩ := nearer_of_group hw heach hg hexclusive hi
  have horder := byNearness_pairwise p s i
  have hmem : ∀ {j}, j ∈ byNearness p s i ↔ j ∈ others p i := (byNearness_perm p s i).mem_iff
  have hfirst : peers p group i = (byNearness p s i).take (peers p group i).length :=
    eq_take_of_nearer horder hpeers (fun j hj => hmem.mpr (List.mem_of_mem_filter hj)) fun j hj l hl hnot =>
      hrest j hj l (hmem.mp hl) hnot
  have htake : ∀ n, n ≤ listLength p params → n ≤ (peers p group i).length →
      ((byNearness p s i).take (listLength p params)).take n = (peers p group i).take n := fun n hn hn' =>
    calc ((byNearness p s i).take (listLength p params)).take n
      _ = (byNearness p s i).take n := by rw [List.take_take, Nat.min_eq_left hn]
      _ = ((byNearness p s i).take (peers p group i).length).take n := by rw [List.take_take, Nat.min_eq_left hn']
      _ = (peers p group i).take n := by rw [← hfirst]
  refine ⟨peers p group i, _, pairwise_peers p group i, fun j => mem_peers hgroup, hli,
    (nearest_take s hclient (min_le_right _ _)).length,
    htake _ (min_le_of_left_le (List.length_take_le _ _)) (min_le_right _ _), ?_⟩
  refine horder.take.imp_of_mem fun {a b} ha hb hab hb' => ?_
  by_contra hnot
  exact hab.asymm (hrest b hb' a (hmem.mp (List.mem_of_mem_take ha)) hnot)

/-- The third client is the farthest from the first, but they exclude each other. -/
theorem peers_in_sample : Sample.twoEach.validate = .ok () ∧ Sample.twoEach.waitWeight.isFinite = true ∧
    Sample.twoEach.warpWeight.isFinite = true ∧ Sample.twoEach.symmetricNeighbours = false ∧ Sample.problem.Names 0 1 ∧
    ∃ ls : Array (List Nat), lists Sample.problem Sample.twoEach = .ok ls ∧ ∃ list, ls[1]? = some list ∧
      list.take 1 = [3] := by
  have hvalid : Sample.twoEach.validate = .ok () := by rfl
  have hwait : Sample.twoEach.waitWeight.isFinite = true := by decide +kernel
  have hwarp : Sample.twoEach.warpWeight.isFinite = true := by decide +kernel
  have hnames : Sample.problem.Names 0 1 := ⟨{ x := 1, y := 0, group := some 0 }, rfl, rfl⟩
  obtain ⟨ls, hls, hpeers⟩ := peers_of_lists (p := Sample.problem) hvalid hwait hwarp rfl
  obtain ⟨members, list, hascending, hmembers, hlist, hlength, htake, -⟩ :=
    hpeers 0 1 { clients := [3, 1, 3] } rfl rfl hnames
  have hperm : members.Perm [3] := by
    refine (List.perm_ext_iff_of_nodup (hascending.imp Nat.ne_of_lt) (List.nodup_singleton 3)).mpr fun j => ?_
    rw [hmembers]
    simp only [List.mem_cons, List.not_mem_nil, or_false, exists_eq_or_imp, UInt64.reduceToNat, ↓existsAndEq, true_and]
    omega
  obtain rfl := List.perm_singleton.mp hperm
  rw [show list.length = 2 from hlength] at htake
  exact ⟨hvalid, hwait, hwarp, rfl, hnames, ls, hls, list, hlist, htake⟩

end Neighbourhood

end Fleet
