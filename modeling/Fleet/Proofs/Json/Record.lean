import Fleet.Json.Record
import Fleet.Proofs.Json.Reading

/-! Records read back from their data with all keys in order.

    The writer gives every field of a record, each once; sorting moves them, and the reader looks each one up by its
    name. So a record is recovered when each of its fields is (`Recovers`). -/

namespace Fleet.Json

variable {α : Type} {entries entries' : List (String × Value)} {names : List String} {name : String}

/-! ### Keys in order -/

namespace Value

theorem sortedItems_eq_map (items : List Value) : sortedItems items = items.map sorted := by
  induction items with
  | nil => rfl
  | cons item items ih => rw [sortedItems, ih, List.map_cons]

theorem sortedEntries_eq_map (entries : List (String × Value)) :
    sortedEntries entries = entries.map fun entry => (entry.1, entry.2.sorted) := by
  induction entries with
  | nil => rfl
  | cons entry entries ih => rw [sortedEntries, ih, List.map_cons]

theorem itemsToForms_eq_map (items : List Value) : itemsToForms items = items.map toForm := by
  induction items with
  | nil => rfl
  | cons item items ih => rw [itemsToForms, ih, List.map_cons]

theorem entriesToForms_eq_map (entries : List (String × Value)) :
    entriesToForms entries = entries.map fun entry => (some entry.1, entry.2.toForm) := by
  induction entries with
  | nil => rfl
  | cons entry entries ih => rw [entriesToForms, ih, List.map_cons]

/-- The entries of an object with its keys in order are its entries. -/
theorem perm_sorted (entries : List (String × Value)) :
    ((sortedEntries entries).mergeSort keyLE).Perm (entries.map fun entry => (entry.1, entry.2.sorted)) :=
  sortedEntries_eq_map entries ▸ List.mergeSort_perm _ _

theorem Legible.sorted {v : Value} (h : v.Legible) : v.sorted.Legible := by
  induction h with
  | null => exact .null
  | bool b => exact .bool b
  | number h => exact .number h
  | string s => exact .string s
  | array _ ih =>
    refine .array fun item hitem => ?_
    rw [sortedItems_eq_map] at hitem
    obtain ⟨item', hmem, rfl⟩ := List.mem_map.mp hitem
    exact ih item' hmem
  | object _ ih =>
    refine .object fun entry hentry => ?_
    obtain ⟨entry', hmem, rfl⟩ := List.mem_map.mp ((perm_sorted _).mem_iff.mp hentry)
    exact ih entry' hmem

end Value

/-! ### Fields -/

theorem lookup_of_mem {es : List (String × α)} {a : α} (hnodup : (es.map Prod.fst).Nodup) (h : (name, a) ∈ es) :
    es.lookup name = some a := by
  induction es with
  | nil => cases h
  | cons e es ih =>
    obtain ⟨key, b⟩ := e
    rw [List.map_cons, List.nodup_cons] at hnodup
    rw [List.lookup_cons]
    rcases List.mem_cons.mp h with heq | hmem
    · cases heq
      simp
    · have hne : name ≠ key := by
        rintro rfl
        exact hnodup.1 (List.mem_map.mpr ⟨(name, a), hmem, rfl⟩)
      rw [beq_eq_false_iff_ne.mpr hne]
      exact ih hnodup.2 hmem

/-- What is found under a name does not depend on the order of the entries. -/
theorem lookup_perm {es es' : List (String × α)} (hperm : es.Perm es') (hnodup : (es.map Prod.fst).Nodup) :
    es.lookup name = es'.lookup name := by
  cases h : es'.lookup name with
  | none =>
    rw [List.lookup_eq_none_iff] at h ⊢
    exact fun e he => h e (hperm.mem_iff.mp he)
  | some a =>
    obtain ⟨before, behind, rfl, -⟩ := List.lookup_eq_some_iff.mp h
    exact lookup_of_mem hnodup (hperm.mem_iff.mpr (by simp))

theorem lookup_map {β : Type} (f : α → β) (es : List (String × α)) :
    (es.map fun e => (e.1, f e.2)).lookup name = (es.lookup name).map f := by
  induction es with
  | nil => rfl
  | cons e es ih =>
    rw [List.map_cons, List.lookup_cons, List.lookup_cons, ih]
    split <;> rfl

/-- Fields whose names are known, none of them twice, are all taken. -/
theorem ofEntries?_eq {es : List (String × Form)} (hnodup : (es.map Prod.fst).Nodup)
    (hnames : ∀ e ∈ es, e.1 ∈ names) :
    Fields.ofEntries? names (es.map fun e => (some e.1, e.2)) = some es := by
  induction es with
  | nil => rfl
  | cons e es ih =>
    rw [List.map_cons, List.nodup_cons] at hnodup
    have hfresh : es.lookup e.1 = none := List.lookup_eq_none_iff.mpr fun e' he' => by
      simpa using fun heq : e.1 = e'.1 => hnodup.1 (heq ▸ List.mem_map_of_mem he')
    rw [List.map_cons, Fields.ofEntries?, ih hnodup.2 fun e' he' => hnames e' (List.mem_cons_of_mem _ he')]
    simp [hnames e List.mem_cons_self, hfresh]

/-- The fields of a record, found under their names once its keys are in order. -/
theorem fields?_sorted (hkeys : entries.map Prod.fst = names) (hnodup : names.Nodup) :
    ∃ fields, (Value.object entries).sorted.toForm.fields? names = some fields ∧
      ∀ name, fields.lookup name = (entries.lookup name).map fun value => value.sorted.toForm := by
  let sorted := (Value.sortedEntries entries).mergeSort Value.keyLE
  let es := sorted.map fun entry => (entry.1, entry.2.toForm)
  have hperm : es.Perm (entries.map fun entry => (entry.1, entry.2.sorted.toForm)) := by
    simpa [es, Function.comp_def] using (Value.perm_sorted entries).map fun entry => (entry.1, entry.2.toForm)
  have hkeysPerm : (es.map Prod.fst).Perm names := by
    simpa [Function.comp_def, ← hkeys] using hperm.map Prod.fst
  have hes : Fields.ofEntries? names (es.map fun e => (some e.1, e.2)) = some es :=
    ofEntries?_eq (hkeysPerm.nodup_iff.mpr hnodup) fun e he => hkeysPerm.mem_iff.mp (List.mem_map_of_mem he)
  refine ⟨es, ?_, fun name => ?_⟩
  · show Fields.ofEntries? names (Value.entriesToForms sorted) = some es
    rw [Value.entriesToForms_eq_map, ← hes, List.map_map]
    rfl
  · rw [lookup_perm hperm (hkeysPerm.nodup_iff.mpr hnodup)]
    exact lookup_map (fun value => value.sorted.toForm) entries

/-! ### Reading what was written -/

/-- What `write` makes of something is legible data, from which `read` gets it again once the keys are in order. -/
structure Recovers (read : Form → Option α) (write : α → Value) : Prop where
  legible : ∀ a, (write a).Legible
  read : ∀ a, read (write a).sorted.toForm = some a

namespace Recovers

variable {read : Form → Option α} {write : α → Value} {writeEntries : α → List (String × Value)}

/-- A record is recovered when its fields are, each looked up by its name. -/
theorem record (hnodup : names.Nodup) (hwrite : ∀ a, write a = .object (writeEntries a))
    (hkeys : ∀ a, (writeEntries a).map Prod.fst = names) (hlegible : ∀ a, ∀ entry ∈ writeEntries a, entry.2.Legible)
    (hread : ∀ a form fields, form.fields? names = some fields →
      (∀ name, fields.lookup name = ((writeEntries a).lookup name).map fun value => value.sorted.toForm) →
      read form = some a) : Recovers read write where
  legible a := by
    rw [hwrite]
    exact .object (hlegible a)
  read a := by
    obtain ⟨fields, hfields, hlookup⟩ := fields?_sorted (hkeys a) hnodup
    rw [hwrite]
    exact hread a _ fields hfields hlookup

theorem list (h : Recovers read write) : Recovers (Form.list? read) fun as => .array (as.map write) where
  legible as := .array fun item hitem => by
    obtain ⟨a, -, rfl⟩ := List.mem_map.mp hitem
    exact h.legible a
  read as := by
    show (Value.itemsToForms (Value.sortedItems (as.map write))).mapM read = some as
    rw [Value.sortedItems_eq_map, Value.itemsToForms_eq_map]
    induction as with
    | nil => rfl
    | cons a as ih => simp only [List.map_cons, List.mapM_cons, h.read, ih]; rfl

/-- Something that may be missing is told from nothing as long as it is not written as `null`. -/
theorem maybe_some (h : Recovers read write) {a : α} (hnull : (write a).sorted.toForm ≠ .null) :
    Form.maybe? read (write a).sorted.toForm = some (some a) := by
  have hread := h.read a
  unfold Form.maybe?
  split
  · rename_i heq
    exact absurd heq hnull
  · rw [hread]
    rfl

theorem bool : Recovers Form.bool? .bool where
  legible := .bool
  read _ := rfl

theorem int64 : Recovers Form.int64? .ofInt64 where
  legible _ := .number (Number.legible_whole _)
  read n := by
    have hlt : n.toInt < 0x8000000000000000 := n.toInt_lt
    show (if n.toInt < 0x8000000000000000 then some (Int64.ofInt n.toInt) else none) = some n
    rw [if_pos hlt, Int64.ofInt_toInt]

theorem uint64 : Recovers Form.uint64? .ofUInt64 where
  legible _ := .number (Number.legible_whole _)
  read n := by
    show (if 0 ≤ (n.toNat : Int) then some (UInt64.ofNat (n.toNat : Int).toNat) else none) = some n
    rw [if_pos (Int.natCast_nonneg _), Int.toNat_natCast, UInt64.ofNat_toNat]

end Recovers

end Fleet.Json
