import Fleet.Proofs.Problem

/-! What acceptance does to a draft: it keeps everything and only puts the matrices into square shape.

    So a problem is an accepted draft exactly when its own draft is that draft (`accept_eq_ok_iff`), and what is asked
    of a problem can be read off what was written down. The checks of clients and of groups together make the two ways
    of saying who is in which group agree. -/

namespace Fleet

/-- A list is read element by element exactly when writing the elements gives the list back. -/
theorem mapM_eq_some_iff {α β : Type} {read : α → Option β} {write : β → α}
    (h : ∀ a b, read a = some b ↔ write b = a) {as : List α} {bs : List β} :
    as.mapM read = some bs ↔ bs.map write = as := by
  induction as generalizing bs with
  | nil => cases bs <;> simp
  | cons a as ih =>
    simp only [List.mapM_cons, Option.bind_eq_bind, Option.bind_eq_some_iff, Option.pure_def, Option.some.injEq]
    cases bs with
    | nil => simp
    | cons b bs => simp [← ih, ← h]

namespace Matrix

variable {rows : List (List Int64)} {m : Matrix} {i j : Nat}

theorem toRows_injective {m m' : Matrix} (h : m.toRows = m'.toRows) : m = m' := by
  obtain ⟨rows, hsquare⟩ := m
  obtain ⟨rows', hsquare'⟩ := m'
  have hrows : rows.toList = rows'.toList :=
    List.map_injective_iff.mpr (fun _ _ => Array.toList_inj.mp) (show rows.toList.map _ = rows'.toList.map _ from h)
  cases Array.toList_inj.mp hrows
  rfl

theorem ofRows?_eq_some_iff : ofRows? rows = some m ↔ m.toRows = rows := by
  constructor
  · intro h
    unfold ofRows? at h
    split at h
    · cases h
      simp [toRows, Function.comp_def]
    · cases h
  · rintro rfl
    have hsquare : ∀ row ∈ m.toRows, row.length = m.toRows.length := by
      intro row hrow
      obtain ⟨r, hr, rfl⟩ := List.mem_map.mp hrow
      simpa [toRows] using m.square r (Array.mem_toList_iff.mp hr)
    unfold ofRows?
    rw [dif_pos hsquare]
    refine congrArg some (toRows_injective ?_)
    simp [toRows, Function.comp_def]

/-- The entries of a matrix are those of its rows. -/
theorem entry_eq_ok_iff {x : Int} :
    m.entry i j = .ok x ↔ ∃ row, m.toRows[i]? = some row ∧ row[j]?.map Int64.toInt = some x := by
  unfold entry entry? toRows
  cases hrow : m.rows[i]? with
  | none => simp [hrow]
  | some row =>
    cases hx : row[j]? with
    | none => simp [hrow, hx]
    | some y => simp [hrow, hx]

/-- When all rows have the same length, the rows one after another hold the entries in their order. -/
theorem getElem?_flatten {α : Type} {rows : List (List α)} {n : Nat} (h : ∀ row ∈ rows, row.length = n) (hj : j < n) :
    rows.flatten[i * n + j]? = rows[i]?.bind (·[j]?) := by
  induction rows generalizing i with
  | nil => rfl
  | cons row rows ih =>
    obtain ⟨hrow, hrows⟩ := List.forall_mem_cons.mp h
    rw [List.flatten_cons]
    cases i with
    | zero =>
      rw [Nat.zero_mul, Nat.zero_add, List.getElem?_append_left (hrow ▸ hj)]
      rfl
    | succ i =>
      have hindex : (i + 1) * n + j = n + (i * n + j) := by ring
      rw [hindex, List.getElem?_append_right (by omega), hrow, Nat.add_sub_cancel_left, ih hrows]
      rfl

/-- A matrix holds its rows one after another: row `i` begins behind `i` rows of `size` entries. -/
theorem entry_eq_ok_iff_flatten {x : Int} (h : ofRows? rows = some m) (hj : j < m.size) :
    m.entry i j = .ok x ↔ rows.flatten[i * m.size + j]?.map Int64.toInt = some x := by
  obtain rfl := ofRows?_eq_some_iff.mp h
  have hsquare : ∀ row ∈ m.toRows, row.length = m.size := by
    intro row hrow
    obtain ⟨r, hr, rfl⟩ := List.mem_map.mp hrow
    exact m.square r (Array.mem_toList_iff.mp hr)
  rw [entry_eq_ok_iff, getElem?_flatten hsquare hj, Option.map_bind]
  exact Option.bind_eq_some_iff.symm

end Matrix

namespace Problem

open Parts

variable {draft : Draft} {p : Problem} {location group group' n : Nat}

/-! ### The accepted problem -/

theorem Draft.matrices?_eq_some_iff {matrices : List (List (List Int64))} {ms : Array Matrix} :
    Draft.matrices? matrices = some ms ↔ ms.toList.map Matrix.toRows = matrices := by
  unfold Draft.matrices?
  rw [← mapM_eq_some_iff fun _ _ => Matrix.ofRows?_eq_some_iff, Option.map_eq_some_iff]
  constructor
  · rintro ⟨ms', h, rfl⟩
    exact h
  · exact fun h => ⟨_, h, rfl⟩

/-- Acceptance keeps the whole draft. It turns away what no problem is written down as. -/
theorem Draft.accept_eq_ok_iff : draft.accept = .ok p ↔ p.draft = draft := by
  constructor
  · intro h
    unfold Draft.accept at h
    split at h
    · rename_i distances durations hdistances hdurations
      simp only at h
      split at h
      · cases h
        rw [Draft.matrices?_eq_some_iff] at hdistances hdurations
        simp [Problem.draft, hdistances, hdurations]
      · cases h
    · cases h
  · rintro rfl
    have hdistances : Draft.matrices? p.draft.distances = some p.distances := Draft.matrices?_eq_some_iff.mpr rfl
    have hdurations : Draft.matrices? p.draft.durations = some p.durations := Draft.matrices?_eq_some_iff.mpr rfl
    unfold Draft.accept
    split
    · rename_i distances durations hdistances' hdurations'
      cases hdistances.symm.trans hdistances'
      cases hdurations.symm.trans hdurations'
      simp only
      split
      · rfl
      · rename_i flaw hflaw
        cases p.flawless.symm.trans hflaw
    · rename_i hnone
      exact absurd hdurations (hnone _ _ hdistances)

/-! ### Groups and their clients -/

/-- The group lists the location. -/
def Lists (p : Problem) (group location : Nat) : Prop :=
  ∃ g, p.groups[group]? = some g ∧ ∃ l ∈ g.clients, l.toNat = location

/-- At the location is a client that names the group. -/
def Names (p : Problem) (group location : Nat) : Prop :=
  ∃ c, p.client? location = some c ∧ c.group.map UInt64.toNat = some group

theorem lists_iff_names : p.Lists group location ↔ p.Names group location := by
  constructor
  · rintro ⟨g, hg, l, hl, rfl⟩
    exact client_of_member hg hl
  · rintro ⟨c, hc, hgroup⟩
    obtain ⟨g, hg, rfl⟩ := Option.map_eq_some_iff.mp hgroup
    exact member_of_client hc hg

/-- No client is in two groups, for it names one only. -/
theorem Lists.unique (h : p.Lists group location) (h' : p.Lists group' location) : group = group' := by
  obtain ⟨c, hc, hgroup⟩ := lists_iff_names.mp h
  obtain ⟨c', hc', hgroup'⟩ := lists_iff_names.mp h'
  cases hc.symm.trans hc'
  exact Option.some.inj (hgroup.symm.trans hgroup')

/-! ### Matrices -/

/-- For each profile of `written`, what is found are the entries that were written down, in `n` rows and columns. -/
def Matches (n : Nat) (written : List (List (List Int64))) (found : Nat → Except Fault Matrix) : Prop :=
  ∀ profile i j, profile < written.length → i < n → j < n → ∃ rows row x m, written[profile]? = some rows ∧
    rows[i]? = some row ∧ row[j]? = some x ∧ found profile = .ok m ∧ m.entry i j = .ok x.toInt

theorem matches_of_matrices {ms : Array Matrix} {found : Nat → Except Fault Matrix}
    (hfound : ∀ {k m}, ms[k]? = some m → found k = .ok m) (hsize : ∀ m ∈ ms.toList, m.size = n) :
    Matches n (ms.toList.map Matrix.toRows) found := by
  intro profile i j hprofile hi hj
  rw [List.length_map, Array.length_toList] at hprofile
  have hm := Array.getElem?_eq_getElem hprofile
  have hn := hsize _ (Array.getElem_mem_toList hprofile)
  obtain ⟨y, hentry⟩ := entry_run (hn ▸ hi) (hn ▸ hj)
  obtain ⟨row, hrow, hy⟩ := Matrix.entry_eq_ok_iff.mp hentry
  obtain ⟨x, hx, rfl⟩ := Option.map_eq_some_iff.mp hy
  refine ⟨_, row, x, _, ?_, hrow, hx, hfound hm, hentry⟩
  rw [List.getElem?_map, Array.getElem?_toList, hm, Option.map_some]

theorem matches_distances (p : Problem) : Matches p.numLocations p.draft.distances p.distanceMatrix := by
  refine matches_of_matrices (fun {k m} hm => ?_) fun m hm => (matrixFlaw?_none (List.mem_append_left _ hm)).1
  unfold distanceMatrix
  rw [hm]

theorem matches_durations (p : Problem) : Matches p.numLocations p.draft.durations p.durationMatrix := by
  refine matches_of_matrices (fun {k m} hm => ?_) fun m hm => (matrixFlaw?_none (List.mem_append_right _ hm)).1
  unfold durationMatrix
  rw [hm]

theorem length_distances (p : Problem) : p.draft.distances.length = p.numProfiles := by
  simp [draft, numProfiles]

theorem length_durations (p : Problem) : p.draft.durations.length = p.numProfiles := by
  simp [draft, numProfiles, p.size_durations]

end Problem
end Fleet
