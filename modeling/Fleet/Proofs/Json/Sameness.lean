import Fleet.Proofs.Json.KeyOrder
import Fleet.Proofs.Json.Record

/-! Data up to the order of its keys.

    Objects are compared as maps: each key is bound in both of them, and to the same data, or in none (`Same`). Where no
    object has a key twice, putting the keys in order chooses one of all the data that is the same, so two such data are
    the same exactly if they are equal once their keys are in order. -/

namespace Fleet.Json

/-! ### Entries found by their keys -/

section Lookup

variable {α : Type} {es es' : List (String × α)} {name : String} {a : α}

theorem lookup_cons_eq (name key : String) (a : α) (es : List (String × α)) :
    ((key, a) :: es).lookup name = if name = key then some a else es.lookup name := by
  rw [List.lookup_cons]
  by_cases h : name = key
  · rw [beq_iff_eq.mpr h, if_pos h]
  · rw [beq_eq_false_iff_ne.mpr h, if_neg h]

theorem mem_of_lookup (h : es.lookup name = some a) : (name, a) ∈ es := by
  obtain ⟨before, behind, rfl, -⟩ := List.lookup_eq_some_iff.mp h
  exact List.mem_append_right _ List.mem_cons_self

theorem lookup_iff_mem (hnodup : (es.map Prod.fst).Nodup) : es.lookup name = some a ↔ (name, a) ∈ es :=
  ⟨mem_of_lookup, lookup_of_mem hnodup⟩

/-- Entries in which the same is found under every name are the same entries, in another order. -/
theorem perm_of_lookup_eq (hnodup : (es.map Prod.fst).Nodup) (hnodup' : (es'.map Prod.fst).Nodup)
    (h : ∀ name, es.lookup name = es'.lookup name) : es.Perm es' := by
  refine (List.perm_ext_iff_of_nodup (.of_map _ hnodup) (.of_map _ hnodup')).mpr fun ⟨name, a⟩ => ?_
  rw [← lookup_iff_mem hnodup, ← lookup_iff_mem hnodup', h]

end Lookup

namespace Value

variable {v w u : Value} {items items' : List Value} {entries entries' : List (String × Value)} {P : Value → Prop}

/-- Induction over data, from what an array or an object holds to the array or object. -/
@[elab_as_elim]
theorem ofParts {motive : Value → Prop} (null : motive .null) (bool : ∀ b, motive (.bool b))
    (number : ∀ n, motive (.number n)) (string : ∀ s, motive (.string s))
    (array : ∀ items, (∀ item ∈ items, motive item) → motive (.array items))
    (object : ∀ entries, (∀ entry ∈ entries, motive entry.2) → motive (.object entries)) (v : Value) : motive v := by
  refine @Value.rec motive (fun items => ∀ item ∈ items, motive item) (fun entries => ∀ entry ∈ entries, motive entry.2)
    (fun entry => motive entry.2) null bool number string array object ?_ ?_ ?_ ?_ ?_ v
  · exact fun _ h => nomatch h
  · exact fun item items hitem hitems => List.forall_mem_cons.mpr ⟨hitem, hitems⟩
  · exact fun _ h => nomatch h
  · exact fun entry entries hentry hentries => List.forall_mem_cons.mpr ⟨hentry, hentries⟩
  · exact fun _ _ h => h

/-! ### What holds at every depth -/

/-- What stands in some data, at any depth; the data itself does too. -/
inductive Within (a : Value) : Value → Prop
  | self : Within a a
  | item {items : List Value} {item : Value} (hmem : item ∈ items) (h : Within a item) : Within a (.array items)
  | entry {entries : List (String × Value)} {entry : String × Value} (hmem : entry ∈ entries)
      (h : Within a entry.2) : Within a (.object entries)

/-- All that stands in the data is as `P` says. -/
def Everywhere (P : Value → Prop) (v : Value) : Prop :=
  ∀ a, Within a v → P a

namespace Everywhere

@[simp] theorem null_iff : Everywhere P .null ↔ P .null :=
  ⟨fun h => h _ .self, fun h _ hwithin => by cases hwithin; exact h⟩

@[simp] theorem bool_iff {b : Bool} : Everywhere P (.bool b) ↔ P (.bool b) :=
  ⟨fun h => h _ .self, fun h _ hwithin => by cases hwithin; exact h⟩

@[simp] theorem number_iff {n : Number} : Everywhere P (.number n) ↔ P (.number n) :=
  ⟨fun h => h _ .self, fun h _ hwithin => by cases hwithin; exact h⟩

@[simp] theorem string_iff {s : String} : Everywhere P (.string s) ↔ P (.string s) :=
  ⟨fun h => h _ .self, fun h _ hwithin => by cases hwithin; exact h⟩

@[simp] theorem array_iff : Everywhere P (.array items) ↔ P (.array items) ∧ ∀ item ∈ items, Everywhere P item := by
  constructor
  · exact fun h => ⟨h _ .self, fun item hitem a hwithin => h a (.item hitem hwithin)⟩
  · rintro ⟨hself, hitems⟩ a (_ | ⟨hitem, hwithin⟩)
    · exact hself
    · exact hitems _ hitem a hwithin

@[simp] theorem object_iff :
    Everywhere P (.object entries) ↔ P (.object entries) ∧ ∀ entry ∈ entries, Everywhere P entry.2 := by
  constructor
  · exact fun h => ⟨h _ .self, fun entry hentry a hwithin => h a (.entry hentry hwithin)⟩
  · rintro ⟨hself, hentries⟩ a (_ | _ | ⟨hentry, hwithin⟩)
    · exact hself
    · exact hentries _ hentry a hwithin

end Everywhere

/-- The keys of an object; other data has none. -/
def keys : Value → List String
  | .object entries => entries.map Prod.fst
  | _ => []

/-- No object has a key twice. -/
def Distinct : Value → Prop := Everywhere fun a => a.keys.Nodup

/-- The keys of every object ascend strictly by their bytes. -/
def Ascending : Value → Prop := Everywhere fun a => a.keys.Pairwise fun s t => octets s < octets t

theorem Ascending.distinct (h : v.Ascending) : v.Distinct := by
  intro a hwithin
  refine (h a hwithin).imp ?_
  rintro s _ hlt rfl
  exact List.lt_irrefl _ hlt

theorem Distinct.of_array (h : (array items).Distinct) : ∀ item ∈ items, item.Distinct :=
  (Everywhere.array_iff.mp h).2

theorem Distinct.of_object (h : (object entries).Distinct) :
    (entries.map Prod.fst).Nodup ∧ ∀ entry ∈ entries, entry.2.Distinct :=
  Everywhere.object_iff.mp h

/-! ### Sameness -/

/-- The same data, but for the order of the keys in its objects. -/
inductive Same : Value → Value → Prop
  | null : Same .null .null
  | bool (b : Bool) : Same (.bool b) (.bool b)
  | number (n : Number) : Same (.number n) (.number n)
  | string (s : String) : Same (.string s) (.string s)
  | array {items items' : List Value} (hlength : items.length = items'.length)
      (hitems : ∀ (i : Nat) (a a' : Value), items[i]? = some a → items'[i]? = some a' → Same a a') :
      Same (.array items) (.array items')
  | object {entries entries' : List (String × Value)}
      (hkeys : ∀ key, (entries.lookup key).isSome = (entries'.lookup key).isSome)
      (hvalues : ∀ key a a', entries.lookup key = some a → entries'.lookup key = some a' → Same a a') :
      Same (.object entries) (.object entries')

namespace Same

theorem symm (h : Same v w) : Same w v := by
  induction h with
  | null => exact .null
  | bool b => exact .bool b
  | number n => exact .number n
  | string s => exact .string s
  | array hlength _ ih => exact .array hlength.symm fun i a a' ha ha' => ih i a' a ha' ha
  | object hkeys _ ih => exact .object (fun key => (hkeys key).symm) fun key a a' ha ha' => ih key a' a ha' ha

theorem trans (h : Same v w) (h' : Same w u) : Same v u := by
  induction h generalizing u with
  | null => exact h'
  | bool b => exact h'
  | number n => exact h'
  | string s => exact h'
  | @array items items' hlength _ ih =>
    cases h' with
    | @array _ items'' hlength' hitems' =>
      refine .array (hlength.trans hlength') fun i a a'' ha ha'' => ?_
      have hi : i < items'.length := by
        have := (List.getElem?_eq_some_iff.mp ha).1
        omega
      exact ih i a _ ha (List.getElem?_eq_getElem hi) (hitems' i _ a'' (List.getElem?_eq_getElem hi) ha'')
  | @object entries entries' hkeys _ ih =>
    cases h' with
    | @object _ entries'' hkeys' hvalues' =>
      refine .object (fun key => (hkeys key).trans (hkeys' key)) fun key a a'' ha ha'' => ?_
      obtain ⟨a', ha'⟩ : ∃ a', entries'.lookup key = some a' :=
        Option.isSome_iff_exists.mp (by rw [← hkeys, ha, Option.isSome_some])
      exact ih key a a' ha ha' (hvalues' key a' a'' ha' ha'')

/-- The order of two keys does not matter. -/
theorem swap {key key' : String} {a a' b b' : Value} (hne : key ≠ key') (ha : Same a a') (hb : Same b b') :
    Same (.object [(key, a), (key', b)]) (.object [(key', b'), (key, a')]) := by
  refine .object (fun name => ?_) fun name x x' hx hx' => ?_
  · simp only [lookup_cons_eq, List.lookup_nil]
    split_ifs <;> rfl
  · simp only [lookup_cons_eq, List.lookup_nil] at hx hx'
    split_ifs at hx hx' with hkey hkey'
    · exact absurd (hkey.symm.trans hkey') hne
    · cases hx
      cases hx'
      exact ha
    · cases hx
      cases hx'
      exact hb

end Same

/-! ### Keys in order -/

theorem keyLE_trans (a b c : String × Value) (hab : keyLE a b = true) (hbc : keyLE b c = true) : keyLE a c = true := by
  simp only [keyLE, decide_eq_true_eq] at *
  exact le_trans hab hbc

theorem keyLE_total (a b : String × Value) : (keyLE a b || keyLE b a) = true := by
  simp only [keyLE, Bool.or_eq_true, decide_eq_true_eq]
  exact le_total _ _

theorem pairwise_keyLE (entries : List (String × Value)) :
    (entries.mergeSort keyLE).Pairwise fun a b => keyLE a b = true :=
  List.pairwise_mergeSort keyLE_trans keyLE_total entries

/-- Entries with different keys have one order only. -/
theorem mergeSort_congr (hperm : entries.Perm entries') (hnodup : (entries.map Prod.fst).Nodup) :
    entries.mergeSort keyLE = entries'.mergeSort keyLE := by
  have hperm' : (entries.mergeSort keyLE).Perm (entries'.mergeSort keyLE) :=
    ((List.mergeSort_perm _ _).trans hperm).trans (List.mergeSort_perm _ _).symm
  refine List.Perm.eq_of_pairwise (fun a b ha hb hab hba => ?_) (pairwise_keyLE _) (pairwise_keyLE _) hperm'
  simp only [keyLE, decide_eq_true_eq] at hab hba
  rw [List.mem_mergeSort] at ha
  rw [List.mem_mergeSort, ← hperm.mem_iff] at hb
  exact List.inj_on_of_nodup_map hnodup ha hb (le_antisymm hab hba)

theorem keys_sortedEntries (entries : List (String × Value)) :
    (sortedEntries entries).map Prod.fst = entries.map Prod.fst := by
  rw [sortedEntries_eq_map, List.map_map]
  rfl

theorem lookup_sortedEntries (entries : List (String × Value)) (key : String) :
    (sortedEntries entries).lookup key = (entries.lookup key).map sorted :=
  sortedEntries_eq_map entries ▸ lookup_map sorted entries

theorem Distinct.ascending_sorted (h : v.Distinct) : v.sorted.Ascending := by
  induction v using ofParts with
  | null => exact Everywhere.null_iff.mpr .nil
  | bool b => exact Everywhere.bool_iff.mpr .nil
  | number n => exact Everywhere.number_iff.mpr .nil
  | string s => exact Everywhere.string_iff.mpr .nil
  | array items ih =>
    refine Everywhere.array_iff.mpr ⟨.nil, fun item hitem => ?_⟩
    rw [sortedItems_eq_map] at hitem
    obtain ⟨item', hmem, rfl⟩ := List.mem_map.mp hitem
    exact ih item' hmem (h.of_array item' hmem)
  | object entries ih =>
    obtain ⟨hnodup, hentries⟩ := h.of_object
    refine Everywhere.object_iff.mpr ⟨?_, fun entry hentry => ?_⟩
    · -- The keys ascend, and no two of them are equal.
      have hnodup' : (((sortedEntries entries).mergeSort keyLE).map Prod.fst).Nodup := by
        rw [((List.mergeSort_perm _ _).map _).nodup_iff, keys_sortedEntries]
        exact hnodup
      refine List.pairwise_map.mpr ((pairwise_keyLE _).imp₂ (fun a b hle hne => ?_) (List.pairwise_map.mp hnodup'))
      simp only [keyLE, decide_eq_true_eq] at hle
      exact octets_lt_iff.mpr (lt_of_le_of_ne hle hne)
    · obtain ⟨entry', hmem, rfl⟩ := List.mem_map.mp ((perm_sorted _).mem_iff.mp hentry)
      exact ih entry' hmem (hentries entry' hmem)

theorem Distinct.same_sorted (h : v.Distinct) : Same v v.sorted := by
  induction v using ofParts with
  | null => exact .null
  | bool b => exact .bool b
  | number n => exact .number n
  | string s => exact .string s
  | array items ih =>
    rw [sorted, sortedItems_eq_map]
    refine .array (List.length_map _).symm fun i a a' ha ha' => ?_
    rw [List.getElem?_map, ha] at ha'
    cases ha'
    have hmem := List.mem_of_getElem? ha
    exact ih a hmem (h.of_array a hmem)
  | object entries ih =>
    obtain ⟨hnodup, hentries⟩ := h.of_object
    have hlookup : ∀ key, ((sortedEntries entries).mergeSort keyLE).lookup key = (entries.lookup key).map sorted :=
      fun key => by
        rw [← lookup_sortedEntries]
        exact (lookup_perm (List.mergeSort_perm _ _).symm (keys_sortedEntries entries ▸ hnodup)).symm
    rw [sorted]
    refine .object (fun key => by rw [hlookup, Option.isSome_map]) fun key a a' ha ha' => ?_
    rw [hlookup, ha] at ha'
    cases ha'
    have hmem := mem_of_lookup ha
    exact ih (key, a) hmem (hentries (key, a) hmem)

theorem Same.sorted_eq (h : Same v w) (hv : v.Distinct) (hw : w.Distinct) : v.sorted = w.sorted := by
  induction h with
  | null => rfl
  | bool b => rfl
  | number n => rfl
  | string s => rfl
  | @array items items' hlength _ ih =>
    rw [sorted, sorted, sortedItems_eq_map, sortedItems_eq_map]
    refine congrArg Value.array (List.ext_getElem (by simpa using hlength) fun i hi hi' => ?_)
    rw [List.length_map] at hi hi'
    rw [List.getElem_map, List.getElem_map]
    exact ih i _ _ (List.getElem?_eq_getElem hi) (List.getElem?_eq_getElem hi')
      (hv.of_array _ (List.getElem_mem hi)) (hw.of_array _ (List.getElem_mem hi'))
  | @object entries entries' hkeys _ ih =>
    obtain ⟨hnodup, hentries⟩ := hv.of_object
    obtain ⟨hnodup', hentries'⟩ := hw.of_object
    -- Under every key both objects hold the same once the keys inside it are in order.
    have hlookup : ∀ key, (sortedEntries entries).lookup key = (sortedEntries entries').lookup key := fun key => by
      rw [lookup_sortedEntries, lookup_sortedEntries]
      have hkey := hkeys key
      cases ha : entries.lookup key with
      | none =>
        rw [ha, Option.isSome_none, eq_comm, Option.isSome_eq_false_iff, Option.isNone_iff_eq_none] at hkey
        rw [hkey]
      | some a =>
        rw [ha, Option.isSome_some, eq_comm, Option.isSome_iff_exists] at hkey
        obtain ⟨a', ha'⟩ := hkey
        rw [ha', Option.map_some, Option.map_some,
          ih key a a' ha ha' (hentries _ (mem_of_lookup ha)) (hentries' _ (mem_of_lookup ha'))]
    rw [← keys_sortedEntries] at hnodup hnodup'
    rw [sorted, sorted, mergeSort_congr (perm_of_lookup_eq hnodup hnodup' hlookup) hnodup]

/-- Data without repeated keys is the same exactly if it is equal once all keys are in order. -/
theorem sorted_eq_iff (hv : v.Distinct) (hw : w.Distinct) : v.sorted = w.sorted ↔ Same v w :=
  ⟨fun h => hv.same_sorted.trans (h ▸ hw.same_sorted.symm), fun h => h.sorted_eq hv hw⟩

end Value

end Fleet.Json
