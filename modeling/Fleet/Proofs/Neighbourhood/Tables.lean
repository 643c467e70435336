import Fleet.Proofs.Double.Arithmetic
import Fleet.Proofs.Outcome

/-! Tables of scores, and steps that change their entries.

    A table is as wide as it is high, so all its entries are there (`Square`), and each is what it was made to be
    (`Each`). Some steps only lower scores, and leave at each entry the lowest of all that they have seen there
    (`Lowers`). Others mark pairs: they leave the same score in all of these, and all other entries as they are
    (`Marks`). Several such steps after one another make up a step of the same kind, so nothing needs to be known about
    the order in which they are taken. -/

namespace Fleet

namespace Scores

open Double

variable {s s' : Scores} {n i j a b : Nat} {x : Float} {post : Nat → Nat → Float → Prop}

/-! ### Square tables -/

/-- The table has `n` rows of `n` columns. -/
structure Square (n : Nat) (s : Scores) : Prop where
  rows : s.rows.size = n
  columns : ∀ {i : Nat} {row : Array Float}, s.rows[i]? = some row → row.size = n

theorem Square.row_succeeds (h : s.Square n) (hi : i < n) : Succeeds (fun row => row.size = n) (s.row i) := by
  obtain ⟨row, hrow⟩ : ∃ row, s.rows[i]? = some row := ⟨_, Array.getElem?_eq_getElem (h.rows ▸ hi)⟩
  refine ⟨row, ?_, h.columns hrow⟩
  unfold Scores.row
  rw [hrow]

theorem Square.entry_succeeds (h : s.Square n) (hi : i < n) (hj : j < n) : Succeeds (fun _ => True) (s.entry i j) := by
  obtain ⟨row, hrow⟩ : ∃ row, s.rows[i]? = some row := ⟨_, Array.getElem?_eq_getElem (h.rows ▸ hi)⟩
  obtain ⟨x, hx⟩ : ∃ x, row[j]? = some x := ⟨_, Array.getElem?_eq_getElem (h.columns hrow ▸ hj)⟩
  refine ⟨x, ?_, trivial⟩
  unfold entry
  rw [hrow]
  simp only [hx]

theorem Square.write_succeeds (h : s.Square n) (hi : i < n) (hj : j < n) (x : Float) :
    Succeeds (Square n) (s.write i j x) := by
  obtain ⟨y, hy, -⟩ := h.entry_succeeds hi hj
  unfold write
  rw [hy]
  refine ⟨_, rfl, ?_, fun {k row} hk => ?_⟩
  · rw [Array.size_modify, h.rows]
  · rw [Array.getElem?_modify] at hk
    split at hk
    · obtain ⟨row', hrow', rfl⟩ := Option.map_eq_some_iff.mp hk
      rw [Array.size_setIfInBounds]
      exact h.columns hrow'
    · exact h.columns hk

/-! ### Entries -/

/-- The table has `n` rows of `n` columns, with scores as `post` says. -/
structure Each (n : Nat) (post : Nat → Nat → Float → Prop) (s : Scores) : Prop where
  square : Square n s
  entry : ∀ {i j : Nat}, i < n → j < n → Succeeds (post i j) (s.entry i j)

theorem Each.mono {post' : Nat → Nat → Float → Prop} (h : Each n post s)
    (himp : ∀ i j x, i < n → j < n → post i j x → post' i j x) : Each n post' s where
  square := h.square
  entry hi hj := by
    obtain ⟨x, hx, hpost⟩ := h.entry hi hj
    exact ⟨x, hx, himp _ _ x hi hj hpost⟩

theorem Square.each (h : Square n s) : Each n (fun _ _ _ => True) s := ⟨h, fun hi hj => h.entry_succeeds hi hj⟩

theorem tabulate_each {f : Nat → Nat → Except Fault Float}
    (hf : ∀ i j, i < n → j < n → Succeeds (post i j) (f i j)) : Succeeds (Each n post) (tabulate n f) := by
  unfold tabulate
  have hrow : ∀ i ∈ List.range n,
      Succeeds (fun row : Array Float => row.size = n ∧ ∀ j < n, ∃ x, row[j]? = some x ∧ post i j x)
      (do
        let row ← (List.range n).mapM (f i)
        return row.toArray) := fun i hi => by
    have hentry : ∀ j ∈ List.range n, Succeeds (post i j) (f i j) := fun j hj =>
      hf i j (List.mem_range.mp hi) (List.mem_range.mp hj)
    refine (Succeeds.mapM hentry).bind fun row hrow => ⟨row.toArray, rfl, ?_, fun j hj => ?_⟩
    · rw [List.size_toArray, ← hrow.length_eq, List.length_range]
    · have hj' : j < row.length := by rwa [← hrow.length_eq, List.length_range]
      have hpost := hrow.get (by rwa [List.length_range]) hj'
      rw [List.get_eq_getElem, List.get_eq_getElem, List.getElem_range] at hpost
      exact ⟨row[j], by rw [List.getElem?_toArray, List.getElem?_eq_getElem hj'], hpost⟩
  refine (Succeeds.mapM hrow).bind fun rows hrows => ?_
  have hlength : rows.length = n := by rw [← hrows.length_eq, List.length_range]
  refine ⟨⟨rows.toArray⟩, rfl, ⟨hlength, fun {i row} hi => ?_⟩, fun {i j} hi hj => ?_⟩
  · rw [List.getElem?_toArray] at hi
    obtain ⟨hi', rfl⟩ := List.getElem?_eq_some_iff.mp hi
    exact (hrows.get (hrows.length_eq ▸ hi') hi').1
  · have hi' : i < rows.length := hlength ▸ hi
    have hrow := (hrows.get (hrows.length_eq ▸ hi') hi').2 j hj
    rw [List.get_eq_getElem, List.get_eq_getElem, List.getElem_range] at hrow
    obtain ⟨x, hx, hpost⟩ := hrow
    refine ⟨x, ?_, hpost⟩
    unfold entry
    simp only [List.getElem?_toArray, List.getElem?_eq_getElem hi', hx]

/-- A table can be made if each of its entries can. -/
theorem tabulate_succeeds {f : Nat → Nat → Except Fault Float}
    (hf : ∀ i j, i < n → j < n → Succeeds (fun _ => True) (f i j)) : Succeeds (Square n) (tabulate n f) :=
  (tabulate_each hf).imp fun _ h => ⟨h.1, h.2.square⟩

theorem entry_write (h : s.Square n) (ha : a < n) (hb : b < n) (x : Float) :
    ∃ s', s.write a b x = .ok s' ∧ s'.Square n ∧
      ∀ {i j : Nat}, i < n → j < n → s'.entry i j = if i = a ∧ j = b then .ok x else s.entry i j := by
  obtain ⟨s', hs', hsquare⟩ := h.write_succeeds ha hb x
  refine ⟨s', hs', hsquare, fun {i j} hi hj => ?_⟩
  obtain ⟨y, hy, -⟩ := h.entry_succeeds ha hb
  unfold write at hs'
  rw [hy] at hs'
  obtain rfl := Except.ok.inj hs'
  obtain ⟨row, hrow⟩ : ∃ row, s.rows[i]? = some row := ⟨_, Array.getElem?_eq_getElem (h.rows ▸ hi)⟩
  have hsize : row.size = n := h.columns hrow
  unfold entry
  simp only [Array.getElem?_modify, hrow]
  by_cases hia : i = a
  · subst hia
    simp only [if_pos, Option.map_some, true_and, Array.getElem?_setIfInBounds]
    by_cases hjb : j = b
    · subst hjb
      simp [hsize, hj]
    · simp [hjb, Ne.symm hjb]
  · simp [hia, Ne.symm hia]

/-- The step lowers each score to the scores that `others` says. -/
def Lowers (n : Nat) (others : Nat → Nat → Set Float) (step : Scores → Except Fault Scores) : Prop :=
  ∀ (lowest : Nat → Nat → Set Float) s, (∀ i j, ∀ x ∈ lowest i j, Plain (reading x)) →
    s.Each n (fun i j => IsLeast (lowest i j)) →
      Succeeds (Each n fun i j => IsLeast (lowest i j ∪ others i j)) (step s)

theorem lowers_tabulate {others : Nat → Nat → Set Float} {g : Scores → Nat → Nat → Except Fault Float}
    (h : ∀ i j, i < n → j < n → ∃ y, others i j = {y} ∧ Plain (reading y) ∧
      ∀ (s : Scores) x, s.entry i j = .ok x → Plain (reading x) → g s i j = .ok (Score.lower x y)) :
    Lowers n others fun s => tabulate n (g s) := by
  intro lowest s hplain hs
  refine tabulate_each fun i j hi hj => ?_
  obtain ⟨x, hx, hleast⟩ := hs.entry hi hj
  obtain ⟨y, hy, hplainy, hg⟩ := h i j hi hj
  refine ⟨_, hg s x hx (hplain i j x hleast.1), ?_⟩
  rw [hy, Set.union_singleton]
  exact isLeast_lower (hplain i j) hplainy hleast

/-- Several steps lower each score to all that each of them lowers it to. -/
theorem lowers_foldlM {α : Type} {others : α → Nat → Nat → Set Float} {step : Scores → α → Except Fault Scores}
    {as : List α} (hplain : ∀ a ∈ as, ∀ i j, ∀ x ∈ others a i j, Plain (reading x))
    (h : ∀ a ∈ as, Lowers n (others a) (step · a)) :
    Lowers n (fun i j => {x | ∃ a ∈ as, x ∈ others a i j}) (as.foldlM step ·) := by
  intro lowest
  induction as generalizing lowest with
  | nil => exact fun s _ hs => ⟨s, rfl, hs.mono fun i j x _ _ hx => by simpa using hx⟩
  | cons a as ih =>
    intro s hlowest hs
    obtain ⟨ha, has⟩ := List.forall_mem_cons.mp h
    obtain ⟨hplaina, hplain⟩ := List.forall_mem_cons.mp hplain
    show Succeeds _ ((a :: as).foldlM step s)
    rw [List.foldlM_cons]
    refine (ha lowest s hlowest hs).bind fun s' hs' => ?_
    obtain ⟨s'', hrun, hs''⟩ := ih hplain has _ s' (fun i j x hx => hx.elim (hlowest i j x) (hplaina i j x)) hs'
    refine ⟨s'', hrun, hs''.mono fun i j x _ _ hx => ?_⟩
    rw [Set.union_assoc] at hx
    simpa only [List.exists_mem_cons_iff, Set.ofPred_or, Set.ofPred_mem_eq] using hx

/-- The score that excludes where `marked` says so, a score as `post` says elsewhere. -/
def Over (marked : Nat → Nat → Prop) (post : Nat → Nat → Float → Prop) (i j : Nat) (x : Float) : Prop :=
  marked i j ∧ x = Score.exclusive ∨ ¬ marked i j ∧ post i j x

theorem Over.congr {marked marked' : Nat → Nat → Prop} (h : Over marked post i j x)
    (heq : marked i j ↔ marked' i j) : Over marked' post i j x := by
  unfold Over at *
  rwa [← heq]

/-- At first nothing is marked. -/
theorem Each.over (h : Each n post s) : Each n (Over (fun _ _ => False) post) s :=
  h.mono fun _ _ _ _ _ hx => Or.inr ⟨not_false, hx⟩

/-- The step marks the cells that `cell` says, and leaves all others as they are. -/
def Marks (n : Nat) (cell : Nat → Nat → Prop) (step : Scores → Except Fault Scores) : Prop :=
  ∀ marked post s, s.Each n (Over marked post) →
    Succeeds (Each n (Over (fun i j => marked i j ∨ cell i j) post)) (step s)

theorem Marks.congr {cell cell' : Nat → Nat → Prop} {step : Scores → Except Fault Scores} (h : Marks n cell step)
    (heq : ∀ i j, cell i j ↔ cell' i j) : Marks n cell' step := by
  obtain rfl : cell = cell' := funext₂ fun i j => propext (heq i j)
  exact h

theorem marks_write (ha : a < n) (hb : b < n) :
    Marks n (fun i j => i = a ∧ j = b) (Scores.write · a b Score.exclusive) := by
  intro marked post s h
  obtain ⟨s', hs', hsquare, hentry⟩ := entry_write h.square ha hb Score.exclusive
  refine ⟨s', hs', hsquare, fun {i j} hi hj => ?_⟩
  rw [hentry hi hj]
  split
  · rename_i heq
    exact ⟨_, rfl, Or.inl ⟨Or.inr heq, rfl⟩⟩
  · rename_i hne
    obtain ⟨x, hx, hpost⟩ := h.entry hi hj
    exact ⟨x, hx, hpost.congr (or_iff_left hne).symm⟩

/-- Several steps mark what each of them marks. -/
theorem marks_foldlM {α : Type} {cell : α → Nat → Nat → Prop} {step : Scores → α → Except Fault Scores}
    {as : List α} (h : ∀ a ∈ as, Marks n (cell a) (step · a)) :
    Marks n (fun i j => ∃ a ∈ as, cell a i j) (as.foldlM step ·) := by
  intro marked post
  induction as generalizing marked with
  | nil => exact fun s hs => ⟨s, rfl, hs.mono fun i j x _ _ hx => hx.congr (by simp)⟩
  | cons a as ih =>
    intro s hs
    obtain ⟨ha, has⟩ := List.forall_mem_cons.mp h
    show Succeeds _ ((a :: as).foldlM step s)
    rw [List.foldlM_cons]
    refine (ha marked post s hs).bind fun s' hs' => ?_
    obtain ⟨s'', hrun, hs''⟩ := ih has _ s' hs'
    refine ⟨s'', hrun, hs''.mono fun i j x _ _ hx => hx.congr ?_⟩
    show (_ ∨ _) ∨ (∃ a ∈ as, cell a i j) ↔ _ ∨ ∃ a' ∈ a :: as, cell a' i j
    rw [List.exists_mem_cons_iff, or_assoc]

end Scores

end Fleet
