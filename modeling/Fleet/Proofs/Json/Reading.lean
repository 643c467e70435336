import Fleet.Proofs.Json.Spelling

/-! Data reads back as it was written.

    The reader goes through the text of some data exactly once, and two steps of fuel for each character are enough: one
    for the data that begins there and one for the place that it takes in a list. The induction is on the data
    (`Legible`), and inside arrays and objects on the list of what they hold. -/

namespace Fleet.Json

open Form

variable {v : Value} {items : List Value} {entries : List (String × Value)} {c : Char} {cs rest : List Char} {fuel : Nat}

/-- Every number in the data is legible. -/
inductive Value.Legible : Value → Prop
  | null : Legible .null
  | bool (b : Bool) : Legible (.bool b)
  | number {n : Number} (h : n.Legible) : Legible (.number n)
  | string (s : String) : Legible (.string s)
  | array {items : List Value} (h : ∀ item ∈ items, Legible item) : Legible (.array items)
  | object {entries : List (String × Value)} (h : ∀ entry ∈ entries, Legible entry.2) : Legible (.object entries)

/-! ### What data begins with -/

theorem skipBlanks_of_not_blank (h : isBlank c = false) : skipBlanks (c :: cs) = c :: cs := by
  simp [skipBlanks, h]

/-- What a number begins with is neither a blank nor the end of an array. -/
theorem not_blank_of_numeral (h : c = '-' ∨ c.isDigit = true) : isBlank c = false ∧ c ≠ ']' := by
  constructor
  · by_contra hblank
    simp only [isBlank, Bool.not_eq_false, Bool.or_eq_true, decide_eq_true_eq] at hblank
    rcases hblank with ((rfl | rfl) | rfl) | rfl <;> revert h <;> decide
  · rintro rfl
    revert h
    decide

theorem Value.Legible.head (h : v.Legible) : ∃ c cs, v.write = c :: cs ∧ isBlank c = false ∧ c ≠ ']' := by
  cases h with
  | null => exact ⟨'n', _, rfl, rfl, by decide⟩
  | bool b =>
    cases b
    · exact ⟨'f', _, rfl, rfl, by decide⟩
    · exact ⟨'t', _, rfl, rfl, by decide⟩
  | number h =>
    obtain ⟨c, cs, hwrite, hc⟩ := h.head
    exact ⟨c, cs, hwrite, not_blank_of_numeral hc⟩
  | string s => exact ⟨'"', _, rfl, rfl, by decide⟩
  | array _ => exact ⟨'[', _, rfl, rfl, by decide⟩
  | object _ => exact ⟨'\x7b', _, rfl, rfl, by decide⟩

/-! ### Reading one thing -/

/-- With enough fuel the data is read from the front of a text. -/
def Value.Reads (v : Value) : Prop :=
  ∀ fuel rest, 2 * v.write.length ≤ fuel → Closed rest → scan fuel (v.write ++ rest) = some (v.toForm, rest)

theorem scan_number {n : Number} (h : n.Legible) (hrest : Closed rest) :
    scan (fuel + 1) (n.write ++ rest) = some (.number (some n), rest) := by
  obtain ⟨c, cs, hwrite, hc⟩ := h.head
  obtain ⟨numeral, hscan, hvalue⟩ := h.scan hrest
  rw [hwrite, List.cons_append] at hscan ⊢
  unfold scan
  rw [skipBlanks_of_not_blank (not_blank_of_numeral hc).1]
  -- No other kind of data begins with a sign or a digit.
  split
  case h_7 => simp [hscan, hvalue]
  all_goals
    rename_i heq
    obtain ⟨rfl, -⟩ := List.cons.inj heq
    exact absurd hc (by decide)

theorem scan_string (s : String) : scan (fuel + 1) (Literal.write s.toList ++ rest) = some (.string (some s), rest) := by
  obtain ⟨pieces, htext, hwrite⟩ := Literal.scan_write s
  obtain ⟨inner, hinner, hscan⟩ := hwrite rest
  rw [hinner]
  unfold scan
  simp [skipBlanks_of_not_blank (c := '"') rfl, hscan, htext]

theorem scanKey_write (key : String) : scanKey (Literal.write key.toList ++ ':' :: rest) = some (some key, rest) := by
  obtain ⟨pieces, htext, hwrite⟩ := Literal.scan_write key
  obtain ⟨inner, hinner, hscan⟩ := hwrite (':' :: rest)
  rw [hinner]
  unfold scanKey
  simp [skipBlanks_of_not_blank (c := '"') rfl, skipBlanks_of_not_blank (c := ':') rfl, hscan, htext]

theorem closed_cons (h : c.isDigit = false ∧ c ≠ '.' ∧ c ≠ 'e' ∧ c ≠ 'E') : Closed (c :: rest) := fun d hd => by
  cases hd
  exact h

/-! ### Reading what arrays and objects hold -/

theorem Value.writeItems_cons_cons (item next : Value) (items : List Value) :
    writeItems (item :: next :: items) = item.write ++ ',' :: writeItems (next :: items) :=
  writeItems.eq_3 _ _ (List.cons_ne_nil _ _)

theorem Value.writeEntries_cons_cons (key : String) (value : Value) (next : String × Value)
    (entries : List (String × Value)) : writeEntries ((key, value) :: next :: entries) =
      Literal.write key.toList ++ ':' :: value.write ++ ',' :: writeEntries (next :: entries) :=
  writeEntries.eq_3 _ _ _ (List.cons_ne_nil _ _)

theorem scanItems_write (rest : List Char) (hne : items ≠ []) (hitems : ∀ item ∈ items, item.Reads)
    (hfuel : 2 * (Value.writeItems items).length + 1 ≤ fuel) :
    scanItems fuel (Value.writeItems items ++ ']' :: rest) = some (Value.itemsToForms items, rest) := by
  induction items generalizing fuel with
  | nil => exact absurd rfl hne
  | cons item items ih =>
    obtain ⟨fuel, rfl⟩ := Nat.exists_eq_add_one_of_ne_zero (by omega : fuel ≠ 0)
    have hitem := hitems item List.mem_cons_self
    unfold scanItems
    cases items with
    | nil =>
      rw [Value.writeItems] at hfuel ⊢
      rw [hitem _ _ (by omega) (closed_cons (by decide))]
      rfl
    | cons next items =>
      rw [Value.writeItems_cons_cons] at hfuel ⊢
      simp only [List.length_append, List.length_cons] at hfuel
      rw [List.append_assoc, List.cons_append, hitem _ _ (by omega) (closed_cons (by decide))]
      simp only [Option.bind_eq_bind, Option.bind_some, skipBlanks_of_not_blank (c := ',') rfl]
      rw [ih (List.cons_ne_nil _ _) (fun item hmem => hitems item (List.mem_cons_of_mem _ hmem)) (by omega)]
      rfl

theorem scanEntries_write (rest : List Char) (hne : entries ≠ []) (hentries : ∀ entry ∈ entries, entry.2.Reads)
    (hfuel : 2 * (Value.writeEntries entries).length + 1 ≤ fuel) :
    scanEntries fuel (Value.writeEntries entries ++ '\x7d' :: rest) = some (Value.entriesToForms entries, rest) := by
  induction entries generalizing fuel with
  | nil => exact absurd rfl hne
  | cons entry entries ih =>
    obtain ⟨key, value⟩ := entry
    obtain ⟨fuel, rfl⟩ := Nat.exists_eq_add_one_of_ne_zero (by omega : fuel ≠ 0)
    have hvalue := hentries (key, value) List.mem_cons_self
    unfold scanEntries
    cases entries with
    | nil =>
      rw [Value.writeEntries] at hfuel ⊢
      simp only [List.length_append, List.length_cons] at hfuel
      rw [List.append_assoc, List.cons_append, scanKey_write]
      simp only [Option.bind_eq_bind, Option.bind_some]
      rw [hvalue _ _ (by dsimp only; omega) (closed_cons (by decide))]
      rfl
    | cons next entries =>
      rw [Value.writeEntries_cons_cons] at hfuel ⊢
      simp only [List.length_append, List.length_cons] at hfuel
      rw [List.append_assoc, List.append_assoc, List.cons_append, scanKey_write]
      simp only [Option.bind_eq_bind, Option.bind_some, List.cons_append]
      rw [hvalue _ _ (by dsimp only; omega) (closed_cons (by decide))]
      simp only [Option.bind_some, skipBlanks_of_not_blank (c := ',') rfl]
      rw [ih (List.cons_ne_nil _ _) (fun entry hmem => hentries entry (List.mem_cons_of_mem _ hmem)) (by omega)]
      rfl

/-! ### Reading data -/

/-- A step of fuel is always there. -/
theorem Value.Legible.reads_of_step (hv : v.Legible) (h : ∀ fuel rest, 2 * v.write.length ≤ fuel + 1 → Closed rest →
    scan (fuel + 1) (v.write ++ rest) = some (v.toForm, rest)) : v.Reads := by
  intro fuel rest hfuel hrest
  obtain ⟨c, cs, hwrite, -⟩ := hv.head
  have hpos : fuel ≠ 0 := by
    rw [hwrite, List.length_cons] at hfuel
    omega
  obtain ⟨fuel, rfl⟩ := Nat.exists_eq_add_one_of_ne_zero hpos
  exact h fuel rest hfuel hrest

theorem scan_array (hitems : ∀ item ∈ items, item.Legible) (hreads : ∀ item ∈ items, item.Reads)
    (hfuel : 2 * (Value.writeItems items).length + 1 ≤ fuel) :
    scan (fuel + 1) ('[' :: Value.writeItems items ++ [']'] ++ rest) = some (.array (Value.itemsToForms items), rest) := by
  rw [List.append_assoc, List.cons_append, List.singleton_append]
  unfold scan
  rw [skipBlanks_of_not_blank (c := '[') rfl]
  simp only
  cases items with
  | nil => rfl
  | cons item items =>
    have hscan := scanItems_write rest (List.cons_ne_nil item items) hreads hfuel
    -- The items do not begin with the bracket that ends an empty array.
    obtain ⟨c, cs, hwrite, hblank, hclose⟩ : ∃ c cs, Value.writeItems (item :: items) ++ ']' :: rest = c :: cs ∧
        isBlank c = false ∧ c ≠ ']' := by
      obtain ⟨c, cs, hwrite, hc⟩ := (hitems item List.mem_cons_self).head
      cases items with
      | nil => exact ⟨c, _, by rw [Value.writeItems, hwrite, List.cons_append], hc⟩
      | cons next items => exact ⟨c, _, by rw [Value.writeItems_cons_cons, hwrite, List.cons_append, List.cons_append], hc⟩
    rw [hwrite] at hscan ⊢
    rw [skipBlanks_of_not_blank hblank]
    split
    · rename_i heq
      exact absurd (List.cons.inj heq).1 hclose
    · rw [hscan]
      rfl

theorem scan_object (hreads : ∀ entry ∈ entries, entry.2.Reads)
    (hfuel : 2 * (Value.writeEntries entries).length + 1 ≤ fuel) :
    scan (fuel + 1) ('\x7b' :: Value.writeEntries entries ++ ['\x7d'] ++ rest) =
      some (.object (Value.entriesToForms entries), rest) := by
  rw [List.append_assoc, List.cons_append, List.singleton_append]
  unfold scan
  rw [skipBlanks_of_not_blank (c := '\x7b') rfl]
  simp only
  cases entries with
  | nil => rfl
  | cons entry entries =>
    have hscan := scanEntries_write rest (List.cons_ne_nil entry entries) hreads hfuel
    -- The entries begin with the quote of a key.
    obtain ⟨cs, hwrite⟩ : ∃ cs, Value.writeEntries (entry :: entries) ++ '\x7d' :: rest = '"' :: cs := by
      cases entries with
      | nil => exact ⟨_, by rw [Value.writeEntries, Literal.write, List.cons_append]; rfl⟩
      | cons next entries => exact ⟨_, by rw [Value.writeEntries_cons_cons, Literal.write, List.cons_append]; rfl⟩
    rw [hwrite] at hscan ⊢
    rw [skipBlanks_of_not_blank (c := '"') rfl]
    split
    · rename_i heq
      exact absurd (List.cons.inj heq).1 (by decide)
    · rw [hscan]
      rfl

/-- The reader finds the data that was written, and stops where the text of the data ends. -/
theorem Value.Legible.reads (h : v.Legible) : v.Reads := by
  induction h with
  | null => exact Legible.null.reads_of_step fun _ _ _ _ => rfl
  | bool b =>
    refine (Legible.bool b).reads_of_step fun _ _ _ _ => ?_
    cases b <;> rfl
  | number h => exact (Legible.number h).reads_of_step fun _ _ _ hrest => scan_number h hrest
  | string s => exact (Legible.string s).reads_of_step fun _ _ _ _ => scan_string s
  | array hitems ih =>
    refine (Legible.array hitems).reads_of_step fun fuel rest hfuel _ => scan_array hitems ih ?_
    simp only [Value.write, List.length_append, List.length_cons, List.length_nil] at hfuel
    omega
  | object hentries ih =>
    refine (Legible.object hentries).reads_of_step fun fuel rest hfuel _ => scan_object ih ?_
    simp only [Value.write, List.length_append, List.length_cons, List.length_nil] at hfuel
    omega

theorem Value.Legible.first? (h : v.Legible) : Form.first? v.render.toList = some (v.toForm, []) := by
  have hread := h.reads (2 * v.write.length + 1) [] (Nat.le_succ _) (by simp [Closed])
  rw [List.append_nil] at hread
  unfold Form.first? Value.render
  rw [String.toList_ofList, hread]

theorem Value.Legible.parse? (h : v.Legible) : Form.parse? v.render = some v.toForm := by
  unfold Form.parse?
  rw [h.first?]
  rfl

end Fleet.Json
