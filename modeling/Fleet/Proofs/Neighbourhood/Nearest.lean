import Fleet.Proofs.Neighbourhood
import Mathlib

/-! Each client's neighbours are the clients nearest to it.

    Going through the candidates while keeping the best ones gives the first of them in their order (`nearest_eq`),
    and there is only one way to bring clients into that order, because no two of them are at the same place of it. So
    it does not matter whether all are sorted, or only those that a selection leaves over, and a stable sort by score
    alone gives the same. -/

namespace Fleet

namespace Scores

/-- The rank of the score in row `i` and column `j`; that of no score is the lowest. -/
def rankAt (s : Scores) (i j : Nat) : Nat :=
  match s.entry i j with
  | .ok x => Score.rank x
  | .error _ => 0

/-- Seen from `i`, `j` comes before `l`: it has the lower score, or the same score and the lower number. -/
def Nearer (s : Scores) (i j l : Nat) : Prop := s.rankAt i j < s.rankAt i l ∨ s.rankAt i j = s.rankAt i l ∧ j < l

variable {s : Scores} {i j l m n : Nat}

theorem Nearer.trans (h : s.Nearer i j l) (h' : s.Nearer i l m) : s.Nearer i j m := by
  unfold Nearer at *
  omega

theorem Nearer.asymm (h : s.Nearer i j l) : ¬ s.Nearer i l j := by
  unfold Nearer at *
  omega

theorem nearer_of_not (hne : j ≠ l) (h : ¬ s.Nearer i l j) : s.Nearer i j l := by
  unfold Nearer at *
  omega

end Scores

namespace Neighbourhood

open Scores

variable {p : Problem} {params : NeighbourhoodParameters} {s : Scores} {i j k l n : Nat}

/-! ### Sorting and selecting -/

/-- What a sort of `list` has to give: the same elements, none after one that it comes before. -/
structure Sorted (before : Nat → Nat → Prop) (list sorted : List Nat) : Prop where
  perm : sorted.Perm list
  ordered : sorted.Pairwise fun a b => ¬ before b a

/-- What the selection of the element at place `k` has to give: the same elements, with one at that place that comes
    neither before an element on its left nor after one on its right. -/
structure Selected (before : Nat → Nat → Prop) (k : Nat) (list selected : List Nat) : Prop where
  perm : selected.Perm list
  split : ∃ left pivot right, selected = left ++ pivot :: right ∧ left.length = k ∧
    (∀ a ∈ left, ¬ before pivot a) ∧ ∀ a ∈ right, ¬ before a pivot

/-- The first `k` elements, sorted; if there are more, they are first selected. -/
inductive Picks (before : Nat → Nat → Prop) (list : List Nat) : Nat → List Nat → Prop
  | none : Picks before list 0 []
  | some {k : Nat} {selected picked : List Nat} : k + 1 < list.length → Selected before k list selected →
      Sorted before (selected.take (k + 1)) picked → Picks before list (k + 1) picked
  | all {k : Nat} {picked : List Nat} : list.length ≤ k + 1 → Sorted before list picked →
      Picks before list (k + 1) picked

theorem Sorted.nearer {list sorted : List Nat} (h : Sorted (s.Nearer i) list sorted) (hnodup : list.Nodup) :
    sorted.Pairwise (s.Nearer i) := by
  have hne : sorted.Pairwise (· ≠ ·) := h.perm.nodup_iff.mpr hnodup
  exact (hne.and h.ordered).imp fun ⟨hne, hnot⟩ => nearer_of_not hne hnot

/-- There is only one order by nearness. -/
theorem eq_of_nearer {list list' : List Nat} (hperm : list.Perm list') (h : list.Pairwise (s.Nearer i))
    (h' : list'.Pairwise (s.Nearer i)) : list = list' :=
  hperm.eq_of_pairwise (fun _ _ _ _ hab hba => (hab.asymm hba).elim) h h'

theorem nodup_of_nearer {list : List Nat} (h : list.Pairwise (s.Nearer i)) : list.Nodup :=
  h.imp fun h => by
    rintro rfl
    exact h.asymm h

theorem sorted_of_nearer {list sorted : List Nat} (hperm : sorted.Perm list) (h : sorted.Pairwise (s.Nearer i)) :
    Sorted (s.Nearer i) list sorted :=
  ⟨hperm, h.imp Nearer.asymm⟩

/-- What comes out of selecting and sorting is nearer than all that is left. -/
theorem nearer_of_selected {list selected picked : List Nat} (hnodup : list.Nodup)
    (h : Selected (s.Nearer i) k list selected) (hsorted : Sorted (s.Nearer i) (selected.take (k + 1)) picked)
    (hj : j ∈ picked) (hl : l ∈ list) (hnot : l ∉ picked) : s.Nearer i j l := by
  obtain ⟨hperm, left, pivot, right, rfl, rfl, hleft, hright⟩ := h
  have htake : (left ++ pivot :: right).take (left.length + 1) = left ++ [pivot] := List.take_length_add_append 1
  have hmem : ∀ {a}, a ∈ picked ↔ a ∈ left ++ [pivot] := fun {a} => htake ▸ hsorted.perm.mem_iff
  rw [← hperm.nodup_iff, List.nodup_append, List.nodup_cons] at hnodup
  rw [hmem] at hj hnot
  obtain ⟨-, ⟨hpivot, -⟩, hne⟩ := hnodup
  have hl : l ∈ right := by
    have hl := hperm.mem_iff.mpr hl
    simp only [List.mem_append, List.mem_cons, List.not_mem_nil, or_false] at hl hnot
    tauto
  have hnearer : s.Nearer i pivot l := nearer_of_not (fun h => hpivot (h ▸ hl)) (hright l hl)
  rcases List.mem_append.mp hj with hj | hj
  · exact (nearer_of_not (hne j hj pivot List.mem_cons_self) (hleft j hj)).trans hnearer
  · rwa [List.mem_singleton.mp hj]

/-- The elements of an order that is split this way are split by their place. -/
theorem eq_take_of_nearer {order picked : List Nat} (horder : order.Pairwise (s.Nearer i))
    (hpicked : picked.Pairwise (s.Nearer i)) (hsub : ∀ j ∈ picked, j ∈ order)
    (hrest : ∀ j ∈ picked, ∀ l ∈ order, l ∉ picked → s.Nearer i j l) : picked = order.take picked.length := by
  have hwhole : (picked ++ order.filter (· ∉ picked)).Pairwise (s.Nearer i) := by
    refine List.pairwise_append.mpr ⟨hpicked, horder.filter _, fun a ha b hb => ?_⟩
    obtain ⟨hb, hnot⟩ := List.mem_filter.mp hb
    exact hrest a ha b hb (of_decide_eq_true hnot)
  have hperm : (picked ++ order.filter (· ∉ picked)).Perm order := by
    refine (List.perm_ext_iff_of_nodup (nodup_of_nearer hwhole) (nodup_of_nearer horder)).mpr fun a => ?_
    rw [List.mem_append, List.mem_filter, decide_eq_true_iff]
    have hsub := hsub a
    tauto
  conv_rhs => rw [← eq_of_nearer hperm hwhole horder]
  exact List.take_left.symm

/-- What is picked begins the only order by nearness. -/
theorem picks_iff {list order picked : List Nat} (hperm : order.Perm list) (horder : order.Pairwise (s.Nearer i)) :
    Picks (s.Nearer i) list k picked ↔ picked = order.take k := by
  have hnodup : list.Nodup := hperm.nodup_iff.mp (nodup_of_nearer horder)
  constructor
  · rintro (_ | ⟨hk, hselected, hsorted⟩ | ⟨hk, hsorted⟩)
    · rfl
    · rename_i k selected
      have hlength : picked.length = k + 1 := by
        rw [hsorted.perm.length_eq, List.length_take, hselected.perm.length_eq]
        omega
      have htake : (selected.take (k + 1)).Nodup := (hselected.perm.nodup_iff.mpr hnodup).take
      have hpicked := eq_take_of_nearer horder (hsorted.nearer htake)
        (fun j hj => hperm.mem_iff.mpr (hselected.perm.mem_iff.mp (List.mem_of_mem_take (hsorted.perm.mem_iff.mp hj))))
        fun j hj l hl hnot => nearer_of_selected hnodup hselected hsorted hj (hperm.mem_iff.mp hl) hnot
      rwa [hlength] at hpicked
    · rw [List.take_of_length_le (hperm.length_eq.trans_le hk)]
      exact eq_of_nearer (hsorted.perm.trans hperm.symm) (hsorted.nearer hnodup) horder
  · rintro rfl
    rcases k with _ | k
    · exact .none
    rcases Nat.lt_or_ge (k + 1) list.length with hk | hk
    · have hlt : k < order.length := hperm.length_eq ▸ Nat.lt_of_succ_lt hk
      have hsplit : order = order.take k ++ order[k] :: order.drop (k + 1) := by
        rw [← List.drop_eq_getElem_cons hlt, List.take_append_drop]
      have hparts := horder
      rw [hsplit, List.pairwise_append, List.pairwise_cons] at hparts
      refine .some hk ⟨hperm, _, _, _, hsplit, by rw [List.length_take]; omega, fun a ha => ?_, fun a ha => ?_⟩
        (sorted_of_nearer (List.Perm.refl _) horder.take)
      · exact (hparts.2.2 a ha _ List.mem_cons_self).asymm
      · exact (hparts.2.1.1 a ha).asymm
    · rw [List.take_of_length_le (hperm.length_eq.trans_le hk)]
      exact .all hk (sorted_of_nearer hperm horder)

/-! ### Stable sorting -/

/-- A stable sort of clients in ascending order by their scores puts the nearer ones first. -/
theorem pairwise_mergeSort {list : List Nat} (h : list.Pairwise (· < ·)) :
    (list.mergeSort fun j l => s.rankAt i j ≤ s.rankAt i l).Pairwise (s.Nearer i) := by
  have hnodup : (list.zipIdx.mergeSort (List.zipIdxLE fun j l => s.rankAt i j ≤ s.rankAt i l)).Pairwise
      fun a b => a.1 ≠ b.1 := by
    rw [← List.pairwise_map (R := (· ≠ ·)), List.mergeSort_zipIdx]
    exact (List.mergeSort_perm _ _).nodup_iff.mpr (h.imp Nat.ne_of_lt)
  have htrans : ∀ a b c, decide (s.rankAt i a ≤ s.rankAt i b) = true → decide (s.rankAt i b ≤ s.rankAt i c) = true →
      decide (s.rankAt i a ≤ s.rankAt i c) = true := fun a b c hab hbc =>
    decide_eq_true (Nat.le_trans (of_decide_eq_true hab) (of_decide_eq_true hbc))
  have htotal : ∀ a b, (decide (s.rankAt i a ≤ s.rankAt i b) || decide (s.rankAt i b ≤ s.rankAt i a)) = true :=
    fun a b => by simpa using Nat.le_total _ _
  have hordered := List.pairwise_mergeSort (List.zipIdxLE_trans htrans) (List.zipIdxLE_total htotal) list.zipIdx
  rw [← List.mergeSort_zipIdx, List.pairwise_map]
  refine (hnodup.and hordered).imp_of_mem fun {a b} ha hb ⟨hne, hle⟩ => ?_
  obtain ⟨j, x⟩ := a
  obtain ⟨l, y⟩ := b
  rw [List.mem_mergeSort, List.mk_mem_zipIdx_iff_getElem?] at ha hb
  obtain ⟨hx, rfl⟩ := List.getElem?_eq_some_iff.mp ha
  obtain ⟨hy, rfl⟩ := List.getElem?_eq_some_iff.mp hb
  unfold List.zipIdxLE at hle
  split at hle
  · rename_i hrank
    rcases Nat.lt_or_eq_of_le (of_decide_eq_true hrank) with hlt | heq
    · exact Or.inl hlt
    · -- Of two equal scores the one that was first stays first.
      rw [if_pos (decide_eq_true heq.ge)] at hle
      have hxy : x < y := Nat.lt_of_le_of_ne (of_decide_eq_true hle) fun h => hne (by subst h; rfl)
      exact Or.inr ⟨heq, List.pairwise_iff_getElem.mp h x y hx hy hxy⟩
  · exact absurd hle Bool.false_ne_true

/-! ### Keeping the best -/

theorem before_iff {a b : Candidate} :
    a.before b = true ↔ a.rank < b.rank ∨ a.rank = b.rank ∧ a.location < b.location := by
  unfold Candidate.before
  simp

theorem perm_place (a : Candidate) (best : List Candidate) : (place a best).Perm (a :: best) := by
  induction best with
  | nil => exact .refl _
  | cons b best ih =>
    unfold place
    split
    · exact .refl _
    · exact (ih.cons b).trans (.swap a b best)

theorem pairwise_place (a : Candidate) {best : List Candidate} (h : best.Pairwise fun b c => c.before b = false) :
    (place a best).Pairwise fun b c => c.before b = false := by
  induction best with
  | nil => exact List.pairwise_singleton _ _
  | cons b best ih =>
    obtain ⟨hb, hbest⟩ := List.pairwise_cons.mp h
    unfold place
    split
    · rename_i hab
      have htrans : ∀ c : Candidate, c.before b = false → c.before a = false := fun c hc => by
        rw [← Bool.not_eq_true, before_iff] at hc ⊢
        rw [before_iff] at hab
        omega
      have hba : b.before b = false := by
        rw [← Bool.not_eq_true, before_iff]
        omega
      exact List.pairwise_cons.mpr ⟨List.forall_mem_cons.mpr ⟨htrans b hba, fun c hc => htrans c (hb c hc)⟩, h⟩
    · rename_i hab
      refine List.pairwise_cons.mpr ⟨fun c hc => ?_, ih hbest⟩
      rcases mem_place.mp hc with rfl | hc
      · exact eq_false_of_ne_true hab
      · exact hb c hc

theorem take_place (a : Candidate) (best : List Candidate) (k : Nat) :
    (place a (best.take k)).take k = (place a best).take k := by
  induction best generalizing k with
  | nil => rw [List.take_nil]
  | cons b best ih =>
    cases k with
    | zero => rfl
    | succ k =>
      rw [List.take_succ_cons]
      unfold place
      split
      · show a :: ((b :: best).take (k + 1)).take k = a :: (b :: best).take k
        rw [List.take_take, Nat.min_eq_left (Nat.le_succ k)]
      · rw [List.take_succ_cons, List.take_succ_cons, ih]

/-- Dropping all but the best candidates while going through them loses none of the best. -/
theorem nearest_eq (k : Nat) (candidates : List Candidate) :
    nearest k candidates = (candidates.foldl (fun best a => place a best) []).take k := by
  unfold nearest
  suffices hfold : ∀ best : List Candidate, candidates.foldl (fun best a => (place a best).take k) (best.take k) =
      (candidates.foldl (fun best a => place a best) best).take k by
    simpa using hfold []
  induction candidates with
  | nil => exact fun _ => rfl
  | cons a candidates ih =>
    intro best
    rw [List.foldl_cons, List.foldl_cons, take_place, ih]

theorem foldl_place (candidates : List Candidate) :
    (candidates.foldl (fun best a => place a best) []).Perm candidates ∧
      (candidates.foldl (fun best a => place a best) []).Pairwise fun b c => c.before b = false := by
  suffices hfold : ∀ best : List Candidate, best.Pairwise (fun b c => c.before b = false) →
      (candidates.foldl (fun best a => place a best) best).Perm (candidates ++ best) ∧
        (candidates.foldl (fun best a => place a best) best).Pairwise fun b c => c.before b = false by
    simpa using hfold [] .nil
  induction candidates with
  | nil => exact fun best h => ⟨.refl _, h⟩
  | cons a candidates ih =>
    intro best h
    obtain ⟨hperm, hpairwise⟩ := ih _ (pairwise_place a h)
    refine ⟨hperm.trans ?_, hpairwise⟩
    exact ((perm_place a best).append_left candidates).trans List.perm_middle

/-! ### The lists -/

/-- The clients other than `i`, in ascending order. -/
def others (p : Problem) (i : Nat) : List Nat := (List.range' p.numDepots p.numClients).filter (· ≠ i)

/-- The clients other than `i`, the nearest one first. -/
def byNearness (p : Problem) (s : Scores) (i : Nat) : List Nat :=
  (others p i).mergeSort fun j l => s.rankAt i j ≤ s.rankAt i l

theorem not_isClient (h : p.isDepot i = true) : ¬ p.isClient i = true := by
  unfold Problem.isClient
  simp [h]

theorem mem_others : j ∈ others p i ↔ p.isClient j = true ∧ j ≠ i := by
  have hlocations : p.numLocations = p.numDepots + p.numClients := rfl
  unfold others
  rw [List.mem_filter, List.mem_range'_1, Problem.isClient_iff, hlocations, decide_eq_true_iff]

theorem pairwise_others (p : Problem) (i : Nat) : (others p i).Pairwise (· < ·) := (List.pairwise_lt_range' 1).filter _

theorem length_others (hi : p.isClient i = true) : (others p i).length = p.numClients - 1 := by
  have hlocations : p.numLocations = p.numDepots + p.numClients := rfl
  have hmem : i ∈ List.range' p.numDepots p.numClients := by
    rw [List.mem_range'_1]
    rwa [Problem.isClient_iff, hlocations] at hi
  have herase : others p i = (List.range' p.numDepots p.numClients).erase i := by
    rw [List.Nodup.erase_eq_filter List.nodup_range']
    exact List.filter_congr fun j _ => by by_cases h : j = i <;> simp [h]
  rw [herase, List.length_erase_of_mem hmem, List.length_range']

theorem byNearness_perm (p : Problem) (s : Scores) (i : Nat) : (byNearness p s i).Perm (others p i) :=
  List.mergeSort_perm _ _

theorem byNearness_pairwise (p : Problem) (s : Scores) (i : Nat) : (byNearness p s i).Pairwise (s.Nearer i) :=
  pairwise_mergeSort (pairwise_others p i)

theorem candidates_eq {row : Array Float} (hs : s.Square p.numLocations) (hrow : s.rows[i]? = some row) :
    candidates p row i = .ok ((others p i).map fun j => ⟨s.rankAt i j, j⟩) := by
  have hcandidates : Succeeds (fun cs => List.Forall₂ (fun j c => ⟨s.rankAt i j, j⟩ = c) (others p i) cs)
      (candidates p row i) := by
    refine Succeeds.mapM fun j hj => ?_
    have hlt : j < row.size := hs.columns hrow ▸ Problem.lt_of_isClient (mem_others.mp hj).1
    have hentry : s.entry i j = .ok row[j] := by
      unfold Scores.entry
      rw [hrow]
      simp only [Array.getElem?_eq_getElem hlt]
    rw [Array.getElem?_eq_getElem hlt]
    refine ⟨_, rfl, ?_⟩
    unfold Scores.rankAt
    rw [hentry]
  obtain ⟨cs, hrun, hcs⟩ := hcandidates
  rw [← List.forall₂_map_left_iff, List.forall₂_eq_eq_eq] at hcs
  rw [hcs]
  exact hrun

/-- The list of a client begins the order by nearness. -/
theorem listOf_eq (hs : s.Square p.numLocations) (hi : p.isClient i = true) (k : Nat) :
    listOf p k s i = .ok ((byNearness p s i).take k) := by
  obtain ⟨hdepot, hlt⟩ := Problem.isClient_iff.mp hi
  obtain ⟨row, hrun, -⟩ := hs.row_succeeds hlt
  have hrow : s.rows[i]? = some row := by
    unfold Scores.row at hrun
    split at hrun
    · rename_i row' hrow
      rwa [← Except.ok.inj hrun]
    · cases hrun
  have hnot : p.isDepot i = false := decide_eq_false (Nat.not_lt.mpr hdepot)
  unfold listOf
  rw [hnot, hrun, if_neg Bool.false_ne_true, ok_bind, candidates_eq hs hrow, ok_bind]
  show Except.ok _ = _
  rw [nearest_eq, List.map_take]
  congr 2
  -- The candidates come out in the order of their scores.
  obtain ⟨hperm, hpairwise⟩ := foldl_place ((others p i).map fun j => ⟨s.rankAt i j, j⟩)
  generalize List.foldl _ _ _ = best at hperm hpairwise ⊢
  have hmap := hperm.map Candidate.location
  rw [List.map_map, show Candidate.location ∘ (fun j => ⟨s.rankAt i j, j⟩) = id from rfl, List.map_id] at hmap
  have hrank : ∀ c ∈ best, c.rank = s.rankAt i c.location := fun c hc => by
    obtain ⟨j, -, rfl⟩ := List.mem_map.mp (hperm.mem_iff.mp hc)
    rfl
  have hsorted : Sorted (s.Nearer i) (others p i) (best.map Candidate.location) := by
    refine ⟨hmap, List.pairwise_map.mpr (hpairwise.imp_of_mem fun {b c} hb hc hbefore => ?_)⟩
    unfold Nearer
    rwa [← hrank b hb, ← hrank c hc, ← before_iff, Bool.not_eq_true]
  exact eq_of_nearer (hmap.trans (byNearness_perm p s i).symm)
    (hsorted.nearer ((pairwise_others p i).imp Nat.ne_of_lt)) (byNearness_pairwise p s i)

theorem listOf_depot (hi : p.isDepot i = true) : listOf p k s i = .ok [] := by
  unfold listOf
  rw [hi]
  rfl

/-- A shorter list begins each longer one. -/
theorem prefix_of_listOf {list list' : List Nat} (hs : s.Square p.numLocations) (hi : i < p.numLocations) (hkl : k ≤ l)
    (hrun : listOf p k s i = .ok list) (hrun' : listOf p l s i = .ok list') : list <+: list' := by
  cases hdepot : p.isDepot i with
  | true =>
    rw [listOf_depot hdepot] at hrun
    cases hrun
    exact List.nil_prefix
  | false =>
    have hclient : p.isClient i = true := Problem.isClient_iff.mpr ⟨Nat.not_lt.mp (of_decide_eq_false hdepot), hi⟩
    rw [listOf_eq hs hclient] at hrun hrun'
    cases hrun
    cases hrun'
    exact List.take_prefix_take_left hkl

/-- The `k` clients nearest to `i`, the nearest one first. -/
structure Nearest (p : Problem) (s : Scores) (i k : Nat) (list : List Nat) : Prop where
  length : list.length = k
  clients : ∀ j ∈ list, p.isClient j = true ∧ j ≠ i
  nodup : list.Nodup
  ascending : list.Pairwise (s.Nearer i)
  rest : ∀ l, p.isClient l = true → l ≠ i → l ∉ list → ∀ j ∈ list, s.Nearer i j l
  /-- A stable sort of all the others by their scores begins with them. -/
  stable : list = ((others p i).mergeSort fun j l => s.rankAt i j ≤ s.rankAt i l).take k
  /-- They are what comes out of every selection and every sort, and nothing else does. -/
  picked : ∀ list', Picks (s.Nearer i) (others p i) k list' ↔ list' = list

theorem nearest_take (s : Scores) (hi : p.isClient i = true) (hk : k ≤ p.numClients - 1) :
    Nearest p s i k ((byNearness p s i).take k) where
  length := by
    rw [List.length_take, (byNearness_perm p s i).length_eq, length_others hi]
    omega
  clients j hj := mem_others.mp ((byNearness_perm p s i).mem_iff.mp (List.mem_of_mem_take hj))
  nodup := (nodup_of_nearer (byNearness_pairwise p s i)).take
  ascending := (byNearness_pairwise p s i).take
  rest l hl hne hnot j hj := by
    have hsplit := byNearness_pairwise p s i
    have hl := (byNearness_perm p s i).mem_iff.mpr (mem_others.mpr ⟨hl, hne⟩)
    rw [← List.take_append_drop k (byNearness p s i)] at hsplit hl
    exact (List.pairwise_append.mp hsplit).2.2 j hj l ((List.mem_append.mp hl).resolve_left hnot)
  stable := rfl
  picked _ := picks_iff (byNearness_perm p s i) (byNearness_pairwise p s i)

/-- With lists that are not made symmetric, each list is that of its location. -/
theorem lists_run (hs : scores p params = .ok s) (hsquare : s.Square p.numLocations)
    (hsymmetric : params.symmetricNeighbours = false) : ∃ ls, lists p params = .ok ls ∧ ls.size = p.numLocations ∧
      ∀ i < p.numLocations, ∃ list, ls[i]? = some list ∧ listOf p (listLength p params) s i = .ok list := by
  have hlists : ∀ i ∈ List.range p.numLocations, Succeeds (fun list => listOf p (listLength p params) s i = .ok list)
      (listOf p (listLength p params) s i) := fun i hi => by
    obtain ⟨list, hrun, -⟩ := listOf_succeeds (k := listLength p params) hsquare (List.mem_range.mp hi)
    exact ⟨list, hrun, hrun⟩
  obtain ⟨ls, hrun, hls⟩ := Succeeds.mapM hlists
  have hlength : ls.length = p.numLocations := by rw [← hls.length_eq, List.length_range]
  refine ⟨ls.toArray, ?_, hlength, fun i hi => ?_⟩
  · unfold lists
    rw [hs, ok_bind, hrun, ok_bind, hsymmetric]
    rfl
  · have hlt : i < ls.length := hlength ▸ hi
    have hlist := hls.get (hls.length_eq ▸ hlt) hlt
    rw [List.get_eq_getElem, List.get_eq_getElem, List.getElem_range] at hlist
    exact ⟨ls[i], by rw [List.getElem?_toArray, List.getElem?_eq_getElem hlt], hlist⟩

/-- Each client's neighbours are the clients nearest to it, as many as there shall be, and those that there are when
    there shall be more begin with them. -/
theorem nearest_of_lists (p : Problem) (params : NeighbourhoodParameters) (h : params.symmetricNeighbours = false) :
    ∃ s ls, scores p params = .ok s ∧ lists p params = .ok ls ∧ s.Square p.numLocations ∧ ls.size = p.numLocations ∧
      (∀ i, p.isDepot i = true → ls[i]? = some []) ∧
      (∀ i, p.isClient i = true → ∃ list, ls[i]? = some list ∧
        Nearest p s i (min params.numNeighbours.toNat (p.numClients - 1)) list) ∧
      ∀ m, params.numNeighbours ≤ m → ∃ ls', lists p { params with numNeighbours := m } = .ok ls' ∧
        ls'.size = p.numLocations ∧
        ∀ (i : Nat) list list', ls[i]? = some list → ls'[i]? = some list' → list <+: list' := by
  obtain ⟨s, hs, hsquare⟩ := scores_succeed p params
  obtain ⟨ls, hls, hsize, hlist⟩ := lists_run hs hsquare h
  refine ⟨s, ls, hs, hls, hsquare, hsize, fun i hi => ?_, fun i hi => ?_, fun m hm => ?_⟩
  · obtain ⟨list, hlist, hrun⟩ := hlist i (Problem.lt_of_depot (of_decide_eq_true hi))
    rw [listOf_depot hi] at hrun
    cases hrun
    exact hlist
  · obtain ⟨list, hlist, hrun⟩ := hlist i (Problem.lt_of_isClient hi)
    rw [listOf_eq hsquare hi] at hrun
    cases hrun
    exact ⟨_, hlist, nearest_take s hi (min_le_right _ _)⟩
  · -- The scores do not depend on how many neighbours there shall be.
    have hs' : scores p { params with numNeighbours := m } = .ok s := hs
    obtain ⟨ls', hls', hsize', hlist'⟩ := lists_run hs' hsquare h
    refine ⟨ls', hls', hsize', fun i list list' hi hi' => ?_⟩
    have hlt : i < p.numLocations := hsize ▸ (Array.getElem?_eq_some_iff.mp hi).1
    obtain ⟨_, hi₁, hrun⟩ := hlist i hlt
    obtain ⟨_, hi₂, hrun'⟩ := hlist' i hlt
    obtain rfl := Option.some.inj (hi.symm.trans hi₁)
    obtain rfl := Option.some.inj (hi'.symm.trans hi₂)
    exact prefix_of_listOf hsquare hlt (min_le_min_right _ hm) hrun hrun'

namespace Sample

/-- Four clients; of the first and the third only one shall be visited, and their group lists the third twice. -/
def problem : Problem where
  depots := #[{ x := 0, y := 0 }]
  clients := #[{ x := 1, y := 0, group := some 0 }, { x := 3, y := 0 }, { x := 9, y := 0, group := some 0 },
    { x := 5, y := 0, prize := 2 }]
  vehicleTypes := #[{ capacity := 1 }]
  distances := #[⟨#[#[0, 1, 3, 9, 5], #[1, 0, 2, 8, 4], #[3, 2, 0, 6, 2], #[9, 8, 6, 0, 4], #[5, 4, 2, 4, 0]],
    by decide⟩]
  durations := #[⟨.replicate 5 (.replicate 5 0), by decide⟩]
  groups := #[{ clients := [3, 1, 3] }]
  flawless := by decide +kernel

def twoEach : NeighbourhoodParameters := { numNeighbours := 2 }

theorem lists_twoEach : lists problem twoEach = .ok #[[], [3, 2], [4, 1], [1, 4], [2, 1]] := by
  have hrun : (lists problem twoEach).toOption = some #[[], [3, 2], [4, 1], [1, 4], [2, 1]] := by decide +kernel
  obtain ⟨ls, hls, -⟩ := lists_succeed problem twoEach
  rw [hls] at hrun ⊢
  exact congrArg Except.ok (Option.some.inj hrun)

end Sample

/-- The first and the third client are equally near to the fourth. -/
theorem nearest_in_sample : Sample.twoEach.symmetricNeighbours = false ∧
    ∃ s, scores Sample.problem Sample.twoEach = .ok s ∧ s.rankAt 4 1 = s.rankAt 4 3 ∧
      Nearest Sample.problem s 4 2 [2, 1] := by
  obtain ⟨s, ls, hs, hls, -, -, -, hclients, -⟩ := nearest_of_lists Sample.problem Sample.twoEach rfl
  obtain ⟨list, hlist, hnearest⟩ := hclients 4 (by decide)
  obtain rfl := Except.ok.inj (hls.symm.trans Sample.lists_twoEach)
  obtain rfl : [2, 1] = list := Option.some.inj hlist
  refine ⟨rfl, s, hs, ?_, hnearest⟩
  have hequal : (scores Sample.problem Sample.twoEach).toOption.map (fun s => decide (s.rankAt 4 1 = s.rankAt 4 3)) =
      some true := by decide +kernel
  rw [hs] at hequal
  exact of_decide_eq_true (Option.some.inj hequal)

end Neighbourhood

end Fleet
