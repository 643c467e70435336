import Fleet.Pool.Key

/-! Finite maps from keyed things, kept in the order of the keys: equal contents, equal tables. -/

namespace Fleet

structure Table (ι α : Type) [Keyed ι] where
  entries : List (ι × α)
  ascending : entries.Pairwise fun a b => Keyed.rank a.1 < Keyed.rank b.1

namespace Table

variable {ι α : Type} [Keyed ι]

def empty : Table ι α := ⟨[], .nil⟩

instance : EmptyCollection (Table ι α) := ⟨empty⟩

/-- The value bound to `k`. -/
def find? (t : Table ι α) (k : ι) : Option α :=
  (t.entries.find? fun e => Keyed.rank e.1 = Keyed.rank k).map (·.2)

def contains (t : Table ι α) (k : ι) : Bool := (t.find? k).isSome

def size (t : Table ι α) : Nat := t.entries.length

/-- The things with a value, in order. -/
def keys (t : Table ι α) : List ι := t.entries.map (·.1)

/-- `entries` with `v` bound to `k`, in its place in the order. -/
def insertEntry (k : ι) (v : α) : List (ι × α) → List (ι × α)
  | [] => [(k, v)]
  | e :: entries =>
    if Keyed.rank k < Keyed.rank e.1 then (k, v) :: e :: entries
    else if Keyed.rank k = Keyed.rank e.1 then (k, v) :: entries
    else e :: insertEntry k v entries

theorem mem_insertEntry {k : ι} {v : α} {entries : List (ι × α)} {x : ι × α}
    (h : x ∈ insertEntry k v entries) : x = (k, v) ∨ x ∈ entries := by
  induction entries with
  | nil => exact Or.inl (List.mem_singleton.mp h)
  | cons e entries ih =>
    simp only [insertEntry] at h
    split at h
    · exact List.mem_cons.mp h
    · split at h
      · rcases List.mem_cons.mp h with h | h
        · exact Or.inl h
        · exact Or.inr (List.mem_cons_of_mem _ h)
      · rcases List.mem_cons.mp h with h | h
        · exact Or.inr (h ▸ List.mem_cons_self)
        · exact (ih h).imp_right (List.mem_cons_of_mem _)

theorem ascending_insertEntry {k : ι} {v : α} {entries : List (ι × α)}
    (h : entries.Pairwise fun a b => Keyed.rank a.1 < Keyed.rank b.1) :
    (insertEntry k v entries).Pairwise fun a b => Keyed.rank a.1 < Keyed.rank b.1 := by
  induction entries with
  | nil => exact List.pairwise_singleton _ _
  | cons e entries ih =>
    obtain ⟨hhead, htail⟩ := List.pairwise_cons.mp h
    simp only [insertEntry]
    split
    · rename_i hlt
      refine List.pairwise_cons.mpr ⟨fun x hx => ?_, h⟩
      rcases List.mem_cons.mp hx with rfl | hx
      · exact hlt
      · have hx : Keyed.rank e.1 < Keyed.rank x.1 := hhead x hx
        show Keyed.rank k < Keyed.rank x.1
        omega
    · split
      · rename_i heq
        refine List.pairwise_cons.mpr ⟨fun x hx => ?_, htail⟩
        have hx : Keyed.rank e.1 < Keyed.rank x.1 := hhead x hx
        show Keyed.rank k < Keyed.rank x.1
        omega
      · refine List.pairwise_cons.mpr ⟨fun x hx => ?_, ih htail⟩
        rcases mem_insertEntry hx with rfl | hx
        · show Keyed.rank e.1 < Keyed.rank k
          omega
        · exact hhead x hx

/-- Binds `v` to `k`, in place of the value bound to it before, if any. -/
def insert (t : Table ι α) (k : ι) (v : α) : Table ι α :=
  ⟨insertEntry k v t.entries, ascending_insertEntry t.ascending⟩

/-- Takes the entry of `k` away. -/
def erase (t : Table ι α) (k : ι) : Table ι α :=
  ⟨t.entries.filter fun e => Keyed.rank e.1 ≠ Keyed.rank k, t.ascending.filter _⟩

/-- An entry with its value changed if it is the entry of `k`. -/
def modifyEntry (k : ι) (f : α → α) (e : ι × α) : ι × α :=
  if Keyed.rank e.1 = Keyed.rank k then (e.1, f e.2) else e

theorem fst_modifyEntry (k : ι) (f : α → α) (e : ι × α) : (modifyEntry k f e).1 = e.1 := by
  unfold modifyEntry
  split <;> rfl

/-- Changes the value bound to `k`, if there is one. -/
def modify (t : Table ι α) (k : ι) (f : α → α) : Table ι α :=
  ⟨t.entries.map (modifyEntry k f), List.pairwise_map.mpr (t.ascending.imp fun {a b} h => by
    rw [fst_modifyEntry, fst_modifyEntry]
    exact h)⟩

end Table

end Fleet
