import Fleet.Proofs.Json.Doubles
import Fleet.Proofs.Json.Sameness

/-! The canonical text of data.

    The canonical text has the keys of every object in order, and reads back as the data it was made from, up to that
    order. So two data have one canonical text exactly if they are the same, and what is written from a canonical text
    is that text. Of the numbers only this is taken for granted: each double in the data reads back from its own text. -/

namespace Fleet.Json

variable {v w : Value} {items : List Value} {entries done : List (String × Value)} {entry : String × Value}
  {key : String} {depth : Nat}

/-! ### Data from its form -/

namespace Value

theorem depthOfItems_le : depthOfItems items ≤ depth ↔ ∀ item ∈ items, item.depth ≤ depth := by
  induction items with
  | nil => simp [depthOfItems]
  | cons item items ih => rw [depthOfItems, max_le_iff, ih, List.forall_mem_cons]

theorem depthOfEntries_le : depthOfEntries entries ≤ depth ↔ ∀ entry ∈ entries, entry.2.depth ≤ depth := by
  induction entries with
  | nil => simp [depthOfEntries]
  | cons entry entries ih => rw [depthOfEntries, max_le_iff, ih, List.forall_mem_cons]

theorem depth_array_le (h : (array items).depth ≤ depth + 1) : ∀ item ∈ items, item.depth ≤ depth :=
  depthOfItems_le.mp (Nat.le_of_succ_le_succ h)

theorem depth_object_le (h : (object entries).depth ≤ depth + 1) : ∀ entry ∈ entries, entry.2.depth ≤ depth :=
  depthOfEntries_le.mp (Nat.le_of_succ_le_succ h)

/-- A new key goes to the end. -/
theorem put_fresh (h : key ∉ entries.map Prod.fst) : put key v entries = entries ++ [(key, v)] := by
  induction entries with
  | nil => rfl
  | cons entry entries ih =>
    rw [List.map_cons, List.mem_cons, not_or] at h
    rw [put, if_neg fun heq => h.1 heq.symm, ih h.2, List.cons_append]

theorem keys_put (key : String) (v : Value) (entries : List (String × Value)) : (put key v entries).map Prod.fst =
    if key ∈ entries.map Prod.fst then entries.map Prod.fst else entries.map Prod.fst ++ [key] := by
  induction entries with
  | nil => rfl
  | cons entry entries ih =>
    rw [put]
    by_cases hkey : entry.1 = key
    · simp [hkey]
    · rw [if_neg hkey, List.map_cons, ih, List.map_cons]
      simp only [List.mem_cons, eq_comm (a := key), hkey, false_or]
      split <;> rfl

theorem nodup_put (h : (entries.map Prod.fst).Nodup) : ((put key v entries).map Prod.fst).Nodup := by
  rw [keys_put]
  split
  · exact h
  · rename_i hkey
    exact List.nodup_append.mpr ⟨h, List.nodup_singleton _, fun a ha b hb heq =>
      hkey (List.mem_singleton.mp hb ▸ heq ▸ ha)⟩

theorem mem_put (h : entry ∈ put key v entries) : entry = (key, v) ∨ entry ∈ entries := by
  induction entries with
  | nil => exact .inl (List.mem_singleton.mp h)
  | cons first entries ih =>
    rw [put] at h
    split at h
    · rename_i hkey
      rcases List.mem_cons.mp h with rfl | hmem
      · exact .inl (hkey ▸ rfl)
      · exact .inr (List.mem_cons_of_mem _ hmem)
    · rcases List.mem_cons.mp h with rfl | hmem
      · exact .inr List.mem_cons_self
      · exact (ih hmem).imp_right (List.mem_cons_of_mem _)

end Value

namespace Form

open Value

theorem itemsToValues?_toForms (h : ∀ item ∈ items, item.toForm.toValue? depth = some item) :
    itemsToValues? depth (itemsToForms items) = some items := by
  induction items with
  | nil => rfl
  | cons item items ih =>
    rw [List.forall_mem_cons] at h
    rw [itemsToForms, itemsToValues?, h.1, ih h.2]
    rfl

/-- Entries with different keys are bound one after the other, each at the end. -/
theorem entriesToValues?_toForms (h : ∀ entry ∈ entries, entry.2.toForm.toValue? depth = some entry.2)
    (hnodup : ((done ++ entries).map Prod.fst).Nodup) :
    entriesToValues? depth (entriesToForms entries) done = some (done ++ entries) := by
  induction entries generalizing done with
  | nil => rw [entriesToForms, entriesToValues?, List.append_nil]
  | cons entry entries ih =>
    obtain ⟨key, value⟩ := entry
    rw [List.forall_mem_cons] at h
    have hfresh : key ∉ done.map Prod.fst := by
      rw [List.map_append, List.nodup_append] at hnodup
      exact fun hmem => hnodup.2.2 key hmem key List.mem_cons_self rfl
    rw [List.append_cons] at hnodup ⊢
    rw [entriesToForms, entriesToValues?, h.1]
    simp only [Option.bind_eq_bind, Option.bind_some]
    rw [put_fresh hfresh, ih h.2 hnodup]

/-- The form of data without repeated keys gives the data again. -/
theorem toValue?_toForm (hdistinct : v.Distinct) (hdepth : v.depth ≤ depth) : v.toForm.toValue? depth = some v := by
  induction v using ofParts generalizing depth with
  | null => rfl
  | bool b => rfl
  | number n => rfl
  | string s => rfl
  | array items ih =>
    cases depth with
    | zero => cases hdepth
    | succ depth =>
      have hitems := itemsToValues?_toForms fun item hmem =>
        ih item hmem (hdistinct.of_array item hmem) (depth_array_le hdepth item hmem)
      rw [toForm, toValue?, hitems, Option.map_some]
  | object entries ih =>
    cases depth with
    | zero => cases hdepth
    | succ depth =>
      obtain ⟨hnodup, hentries⟩ := hdistinct.of_object
      have hvalues : entriesToValues? depth (entriesToForms entries) [] = some ([] ++ entries) :=
        entriesToValues?_toForms (fun entry hmem =>
          ih entry hmem (hentries entry hmem) (depth_object_le hdepth entry hmem)) hnodup
      rw [toForm, toValue?, hvalues, Option.map_some, List.nil_append]

theorem of_itemsToValues? {forms : List Form} (h : itemsToValues? depth forms = some items) :
    ∀ item ∈ items, ∃ form : Form, form.toValue? depth = some item := by
  induction forms generalizing items with
  | nil =>
    cases h
    exact fun _ hmem => nomatch hmem
  | cons form forms ih =>
    rw [itemsToValues?] at h
    simp only [Option.bind_eq_bind, Option.bind_eq_some_iff, Option.pure_def, Option.some.injEq] at h
    obtain ⟨item, hitem, items, hitems, rfl⟩ := h
    exact List.forall_mem_cons.mpr ⟨⟨form, hitem⟩, ih hitems⟩

theorem of_entriesToValues? {forms : List (Option String × Form)} (h : entriesToValues? depth forms done = some entries)
    (hnodup : (done.map Prod.fst).Nodup) (hdone : ∀ entry ∈ done, ∃ form : Form, form.toValue? depth = some entry.2) :
    (entries.map Prod.fst).Nodup ∧ ∀ entry ∈ entries, ∃ form : Form, form.toValue? depth = some entry.2 := by
  induction forms generalizing done with
  | nil =>
    cases h
    exact ⟨hnodup, hdone⟩
  | cons first forms ih =>
    obtain ⟨key, form⟩ := first
    rw [entriesToValues?] at h
    simp only [Option.bind_eq_bind, Option.bind_eq_some_iff] at h
    obtain ⟨key, -, value, hvalue, hrest⟩ := h
    refine ih hrest (nodup_put hnodup) fun entry hmem => ?_
    rcases mem_put hmem with rfl | hmem
    · exact ⟨form, hvalue⟩
    · exact hdone entry hmem

/-- What a form gives has no repeated keys and is not nested deeper than was allowed. -/
theorem of_toValue? {form : Form} (h : form.toValue? depth = some v) : v.Distinct ∧ v.depth ≤ depth := by
  induction depth using Nat.strongRecOn generalizing form v with
  | ind depth ih =>
    cases form with
    | null =>
      cases h
      exact ⟨Everywhere.null_iff.mpr .nil, Nat.zero_le _⟩
    | bool b =>
      cases h
      exact ⟨Everywhere.bool_iff.mpr .nil, Nat.zero_le _⟩
    | number n =>
      obtain ⟨n, -, rfl⟩ := Option.map_eq_some_iff.mp h
      exact ⟨Everywhere.number_iff.mpr .nil, Nat.zero_le _⟩
    | string s =>
      obtain ⟨s, -, rfl⟩ := Option.map_eq_some_iff.mp h
      exact ⟨Everywhere.string_iff.mpr .nil, Nat.zero_le _⟩
    | array forms =>
      cases depth with
      | zero => cases h
      | succ depth =>
        obtain ⟨items, hitems, rfl⟩ := Option.map_eq_some_iff.mp h
        have hparts : ∀ item ∈ items, item.Distinct ∧ item.depth ≤ depth := fun item hmem => by
          obtain ⟨form, hform⟩ := of_itemsToValues? hitems item hmem
          exact ih depth (Nat.lt_succ_self _) hform
        exact ⟨Everywhere.array_iff.mpr ⟨.nil, fun item hmem => (hparts item hmem).1⟩,
          Nat.succ_le_succ (depthOfItems_le.mpr fun item hmem => (hparts item hmem).2)⟩
    | object forms =>
      cases depth with
      | zero => cases h
      | succ depth =>
        obtain ⟨entries, hentries, rfl⟩ := Option.map_eq_some_iff.mp h
        obtain ⟨hnodup, hforms⟩ := of_entriesToValues? hentries List.nodup_nil fun _ hmem => nomatch hmem
        have hparts : ∀ entry ∈ entries, entry.2.Distinct ∧ entry.2.depth ≤ depth := fun entry hmem => by
          obtain ⟨form, hform⟩ := hforms entry hmem
          exact ih depth (Nat.lt_succ_self _) hform
        exact ⟨Everywhere.object_iff.mpr ⟨hnodup, fun entry hmem => (hparts entry hmem).1⟩,
          Nat.succ_le_succ (depthOfEntries_le.mpr fun entry hmem => (hparts entry hmem).2)⟩

end Form

/-! ### Canonical texts -/

namespace Value

/-- Every double in the data reads back from its own text. -/
def DoublesReadBack : Value → Prop :=
  Everywhere fun a => ∀ x finite, a = .number (.double x finite) → (Number.double x finite).ReadsBack

/-- Data that a text can hold: no object has a key twice, the nesting is not too deep and the doubles read back. -/
structure Storable (v : Value) : Prop where
  distinct : v.Distinct
  depth : v.depth ≤ Form.maxDepth
  doubles : v.DoublesReadBack

theorem DoublesReadBack.legible (h : v.DoublesReadBack) : v.Legible := by
  induction v using ofParts with
  | null => exact .null
  | bool b => exact .bool b
  | number n =>
    cases n with
    | whole n fits => exact .number (Number.legible_whole fits)
    | double x finite => exact .number (Number.readsBack_iff.mp (h _ .self x finite rfl))
  | string s => exact .string s
  | array items ih => exact .array fun item hmem => ih item hmem ((Everywhere.array_iff.mp h).2 item hmem)
  | object entries ih => exact .object fun entry hmem => ih entry hmem ((Everywhere.object_iff.mp h).2 entry hmem)

theorem depth_sorted_le (h : v.depth ≤ depth) : v.sorted.depth ≤ depth := by
  induction v using ofParts generalizing depth with
  | null => exact h
  | bool b => exact h
  | number n => exact h
  | string s => exact h
  | array items ih =>
    cases depth with
    | zero => cases h
    | succ depth =>
      rw [sorted, sortedItems_eq_map]
      refine Nat.succ_le_succ (depthOfItems_le.mpr fun item hitem => ?_)
      obtain ⟨item', hmem, rfl⟩ := List.mem_map.mp hitem
      exact ih item' hmem (depth_array_le h item' hmem)
  | object entries ih =>
    cases depth with
    | zero => cases h
    | succ depth =>
      rw [sorted]
      refine Nat.succ_le_succ (depthOfEntries_le.mpr fun entry hentry => ?_)
      obtain ⟨entry', hmem, rfl⟩ := List.mem_map.mp ((perm_sorted _).mem_iff.mp hentry)
      exact ih entry' hmem (depth_object_le h entry' hmem)

theorem parse?_render (hlegible : v.Legible) (hdistinct : v.Distinct) (hdepth : v.depth ≤ Form.maxDepth) :
    parse? v.render = some v := by
  unfold parse?
  rw [hlegible.parse?]
  exact Form.toValue?_toForm hdistinct hdepth

theorem of_parse? {text : String} (h : parse? text = some v) : v.Distinct ∧ v.depth ≤ Form.maxDepth := by
  obtain ⟨form, -, hform⟩ := Option.bind_eq_some_iff.mp h
  exact Form.of_toValue? hform

/-- What is read from a canonical text is the data with its keys in order. -/
theorem Storable.parse?_canonical (h : v.Storable) : parse? v.canonical = some v.sorted :=
  parse?_render h.doubles.legible.sorted h.distinct.ascending_sorted.distinct (depth_sorted_le h.depth)

theorem Storable.canonical_eq_iff (hv : v.Storable) (hw : w.Storable) : v.canonical = w.canonical ↔ Same v w := by
  rw [← sorted_eq_iff hv.distinct hw.distinct]
  refine ⟨fun h => ?_, congrArg render⟩
  have hparse := hv.parse?_canonical
  rw [h, hw.parse?_canonical] at hparse
  exact (Option.some.inj hparse).symm

theorem Distinct.canonical_sorted (h : v.Distinct) : v.sorted.canonical = v.canonical :=
  congrArg render (h.same_sorted.sorted_eq h h.ascending_sorted.distinct).symm

/-- The canonical text is a canonical form. It is written from data whose keys ascend in every object, at every depth,
    and reads back as that data, which is the data it was made from but for the order of the keys. Two data have the same
    canonical text exactly if they are the same but for that order. What was read from any text has a canonical text that
    is the canonical text of what is read from it. -/
theorem canonical_form :
    (∀ v : Value, v.Storable →
      ∃ w : Value, v.canonical = w.render ∧ w.Ascending ∧ parse? v.canonical = some w ∧ Same v w) ∧
    (∀ v w : Value, v.Storable → w.Storable → (v.canonical = w.canonical ↔ Same v w)) ∧
    ∀ (text : String) (v : Value), parse? text = some v → v.DoublesReadBack →
      (parse? v.canonical).map canonical = some v.canonical := by
  refine ⟨fun v hv => ?_, fun v w hv hw => hv.canonical_eq_iff hw, fun text v hparse hdoubles => ?_⟩
  · exact ⟨v.sorted, rfl, hv.distinct.ascending_sorted, hv.parse?_canonical, hv.distinct.same_sorted⟩
  · obtain ⟨hdistinct, hdepth⟩ := of_parse? hparse
    have hv : v.Storable := ⟨hdistinct, hdepth, hdoubles⟩
    rw [hv.parse?_canonical, Option.map_some, hdistinct.canonical_sorted]

/-- Keys out of order, within an array too, and not all of them ASCII; control characters, and numbers of both kinds. -/
def sample : Value :=
  .object [("é", .array [.number (.double 1.5 (by decide +kernel)),
      .object [("z", .null), ("Z", .number (.whole (-1) (by decide)))]]),
    ("", .string "\x01\n")]

/-- The sample with all keys in order. -/
def sampleInOrder : Value :=
  .object [("", .string "\x01\n"),
    ("é", .array [.number (.double 1.5 (by decide +kernel)),
      .object [("Z", .number (.whole (-1) (by decide))), ("z", .null)]])]

theorem doublesReadBack_sample : sample.DoublesReadBack ∧ sampleInOrder.DoublesReadBack := by
  have hscan : Numeral.scan (doubles.write 1.5) = some (⟨false, ['1'], ['5'], none⟩, []) := by decide +kernel
  have hreads : ∀ x finite, 1.5 = x → (Number.double x finite).ReadsBack := by
    rintro x finite rfl
    have hvalue : Numeral.value? ⟨false, ['1'], ['5'], none⟩ = some (.double 1.5 finite) := by decide +kernel +revert
    exact Number.readsBack_iff.mpr (Number.legible_of_scan hscan hvalue)
  constructor <;> simpa [DoublesReadBack, sample, sampleInOrder] using hreads

theorem storable_sample : sample.Storable ∧ sampleInOrder.Storable :=
  ⟨⟨by simp [Distinct, sample, keys], by decide, doublesReadBack_sample.1⟩,
    ⟨by simp [Distinct, sampleInOrder, keys], by decide, doublesReadBack_sample.2⟩⟩

theorem same_sample : Same sample sampleInOrder := by
  refine .swap (by decide) (.array rfl fun i a a' ha ha' => ?_) (.string _)
  match i with
  | 0 =>
    cases ha
    cases ha'
    exact .number _
  | 1 =>
    cases ha
    cases ha'
    exact .swap (by decide) .null (.number _)
  | i + 2 => cases ha

theorem canonical_form_in_sample : (sample.Storable ∧ sampleInOrder.Storable) ∧
    Same sample sampleInOrder ∧ sample.canonical = sampleInOrder.canonical ∧
    (∃ w : Value, sample.canonical = w.render ∧ w.Ascending ∧ parse? sample.canonical = some w ∧ Same sample w) ∧
    parse? sample.render = some sample ∧ (parse? sample.canonical).map canonical = some sample.canonical := by
  obtain ⟨reads, unique, again⟩ := canonical_form
  obtain ⟨hsample, hordered⟩ := storable_sample
  have hparse := parse?_render hsample.doubles.legible hsample.distinct hsample.depth
  exact ⟨⟨hsample, hordered⟩, same_sample, (unique sample sampleInOrder hsample hordered).mpr same_sample,
    reads sample hsample, hparse, again sample.render sample hparse hsample.doubles⟩

end Value

end Fleet.Json
