import Fleet.Pool.Table
import Mathlib

/-! What a table binds after each change, and its entries as what it binds. -/

namespace Fleet
namespace Table

variable {ι α : Type} [Keyed ι] {t : Table ι α} {k : ι} {v : α}

theorem rank_eq_iff {a b : ι} : Keyed.rank a = Keyed.rank b ↔ a = b :=
  ⟨Keyed.eq_of_rank_eq, fun h => h ▸ rfl⟩

/-! ### Entries -/

theorem nodup_keys (t : Table ι α) : t.keys.Nodup := by
  unfold keys
  refine List.pairwise_map.mpr (t.ascending.imp fun {a b} h heq => ?_)
  rw [heq] at h
  exact Nat.lt_irrefl _ h

/-- The entries are what is bound. -/
theorem mem_entries {e : ι × α} : e ∈ t.entries ↔ t.find? e.1 = some e.2 := by
  obtain ⟨k, v⟩ := e
  constructor
  · intro he
    unfold find?
    cases hfind : t.entries.find? fun x => decide (Keyed.rank x.1 = Keyed.rank k) with
    | none =>
      have := List.find?_eq_none.mp hfind _ he
      simp at this
    | some x =>
      have hx := List.find?_some hfind
      rw [decide_eq_true_eq, rank_eq_iff] at hx
      have := List.inj_on_of_nodup_map t.nodup_keys (List.mem_of_find?_eq_some hfind) he hx
      simp [this]
  · intro h
    unfold find? at h
    obtain ⟨x, hfind, hx⟩ := Option.map_eq_some_iff.mp h
    have hk := List.find?_some hfind
    rw [decide_eq_true_eq, rank_eq_iff] at hk
    have := List.mem_of_find?_eq_some hfind
    obtain ⟨a, b⟩ := x
    simp only at hk hx
    rwa [hk, hx] at this

theorem find?_eq_some_iff : t.find? k = some v ↔ (k, v) ∈ t.entries := (mem_entries (e := (k, v))).symm

theorem mem_keys : k ∈ t.keys ↔ ∃ v, t.find? k = some v := by
  unfold keys
  constructor
  · intro h
    obtain ⟨⟨k', v⟩, he, rfl⟩ := List.mem_map.mp h
    exact ⟨v, mem_entries.mp he⟩
  · rintro ⟨v, h⟩
    exact List.mem_map.mpr ⟨(k, v), find?_eq_some_iff.mp h, rfl⟩

theorem contains_iff : t.contains k = true ↔ ∃ v, t.find? k = some v := Option.isSome_iff_exists

/-! ### Changes -/

theorem mem_insertEntry_iff {entries : List (ι × α)}
    (h : entries.Pairwise fun a b => Keyed.rank a.1 < Keyed.rank b.1) {e : ι × α} :
    e ∈ insertEntry k v entries ↔ e = (k, v) ∨ e.1 ≠ k ∧ e ∈ entries := by
  induction entries with
  | nil => simp [insertEntry]
  | cons x entries ih =>
    obtain ⟨hhead, htail⟩ := List.pairwise_cons.mp h
    have later : ∀ y ∈ entries, Keyed.rank k ≤ Keyed.rank x.1 → y.1 ≠ k := fun y hy hle heq => by
      have := hhead y hy
      rw [heq] at this
      exact absurd this (Nat.not_lt.mpr hle)
    unfold insertEntry
    split
    · rename_i hlt
      rw [List.mem_cons]
      refine or_congr_right ⟨fun he => ⟨?_, he⟩, fun he => he.2⟩
      rcases List.mem_cons.mp he with rfl | he
      · exact fun heq => by rw [heq] at hlt; exact Nat.lt_irrefl _ hlt
      · exact later e he (Nat.le_of_lt hlt)
    · split
      · rename_i heq
        rw [List.mem_cons, List.mem_cons]
        refine or_congr_right ⟨fun he => ⟨later e he (Nat.le_of_eq heq), Or.inr he⟩, ?_⟩
        rintro ⟨hne, rfl | he⟩
        · exact absurd (rank_eq_iff.mp heq).symm hne
        · exact he
      · rename_i hne
        have hx : x.1 ≠ k := fun h' => hne (by rw [h'])
        rw [List.mem_cons, List.mem_cons, ih htail]
        constructor
        · rintro (rfl | h' | ⟨h1, h2⟩)
          · exact Or.inr ⟨hx, Or.inl rfl⟩
          · exact Or.inl h'
          · exact Or.inr ⟨h1, Or.inr h2⟩
        · rintro (h' | ⟨h1, rfl | h2⟩)
          · exact Or.inr (Or.inl h')
          · exact Or.inl rfl
          · exact Or.inr (Or.inr ⟨h1, h2⟩)

theorem find?_eq_of_mem_iff {t' : Table ι α} {k k' : ι} (h : ∀ v, (k', v) ∈ t'.entries ↔ (k, v) ∈ t.entries) :
    t'.find? k' = t.find? k :=
  Option.ext fun v => by rw [find?_eq_some_iff, find?_eq_some_iff, h v]

theorem mem_insert_iff {e : ι × α} : e ∈ (t.insert k v).entries ↔ e = (k, v) ∨ e.1 ≠ k ∧ e ∈ t.entries :=
  mem_insertEntry_iff t.ascending

@[simp] theorem find?_insert_self (t : Table ι α) (k : ι) (v : α) : (t.insert k v).find? k = some v := by
  have h : (k, v) ∈ (t.insert k v).entries := mem_insert_iff.mpr (Or.inl rfl)
  exact find?_eq_some_iff.mpr h

theorem find?_insert_of_ne {k' : ι} (t : Table ι α) (v : α) (h : k' ≠ k) : (t.insert k v).find? k' = t.find? k' :=
  find?_eq_of_mem_iff fun w => by
    rw [mem_insert_iff]
    simp [h]

/-- After a binding its key has the new value, and the other keys have theirs. -/
theorem find?_insert [DecidableEq ι] (t : Table ι α) (k k' : ι) (v : α) :
    (t.insert k v).find? k' = if k' = k then some v else t.find? k' := by
  split
  · rename_i h
    rw [h, find?_insert_self]
  · rename_i h
    exact find?_insert_of_ne t v h

theorem mem_erase_iff {e : ι × α} : e ∈ (t.erase k).entries ↔ e.1 ≠ k ∧ e ∈ t.entries := by
  show e ∈ t.entries.filter _ ↔ _
  rw [List.mem_filter, decide_eq_true_eq, ne_eq, rank_eq_iff, and_comm]

@[simp] theorem find?_erase_self (t : Table ι α) (k : ι) : (t.erase k).find? k = none := by
  rw [Option.eq_none_iff_forall_ne_some]
  intro v h
  exact (mem_erase_iff.mp (find?_eq_some_iff.mp h)).1 rfl

theorem find?_erase_of_ne {k' : ι} (t : Table ι α) (h : k' ≠ k) : (t.erase k).find? k' = t.find? k' :=
  find?_eq_of_mem_iff fun v => by
    rw [mem_erase_iff]
    simp [h]

/-- After an erasure its key has no value, and the other keys have theirs. -/
theorem find?_erase [DecidableEq ι] (t : Table ι α) (k k' : ι) :
    (t.erase k).find? k' = if k' = k then none else t.find? k' := by
  split
  · rename_i h
    rw [h, find?_erase_self]
  · rename_i h
    exact find?_erase_of_ne t h

/-- Equal bindings, equal tables. -/
theorem eq_of_find? {t' : Table ι α} (h : ∀ k, t'.find? k = t.find? k) : t' = t := by
  have hmem : ∀ e, e ∈ t'.entries ↔ e ∈ t.entries := fun e => by rw [mem_entries, mem_entries, h]
  have hperm : t'.entries.Perm t.entries :=
    (List.perm_ext_iff_of_nodup (.of_map _ t'.nodup_keys) (.of_map _ t.nodup_keys)).mpr hmem
  have hentries : t'.entries = t.entries := hperm.eq_of_pairwise
    (fun a b _ _ hab hba => absurd hab (Nat.lt_asymm hba)) t'.ascending t.ascending
  obtain ⟨entries, _⟩ := t
  obtain ⟨entries', _⟩ := t'
  cases hentries
  rfl

end Table
end Fleet
