import Fleet.Proofs.Slots

/-! Pools over a whole run.

    A host puts values in, takes them out, and replaces and swaps them, by any keys it likes. All it needs to remember of
    this is a ledger: the keys that it was given, those by which it took something out, and what it last stored under each
    key. The pool is a map from the keys of the ledger that are still live, and gives out no key twice, unless a slot is
    vacated so often that its generations come round. -/

namespace Fleet
namespace Pool

variable {α : Type} {s t : Pool α} {key k : Key}

/-! ### The ledger -/

/-- What a host remembers of the values that it put into a pool. -/
structure Ledger (α : Type) where
  /-- The keys that it was given, the latest first. -/
  issued : List Key := []
  /-- The keys by which it took a value out, the latest first. -/
  removed : List Key := []
  /-- What it last stored under a key. -/
  stored : Key → Option α := fun _ => none

namespace Ledger

/-- The key was given out, and nothing has been taken out by it since. -/
def Live (g : Ledger α) (key : Key) : Prop := key ∈ g.issued ∧ key ∉ g.removed

instance (g : Ledger α) (key : Key) : Decidable (g.Live key) := inferInstanceAs (Decidable (_ ∧ _))

/-- What is under a key. -/
def find? (g : Ledger α) (key : Key) : Option α := if g.Live key then g.stored key else none

/-- How often a slot has been vacated. -/
def vacations (g : Ledger α) (i : Nat) : Nat := g.removed.countP (·.index = i)

/-- A key is given out, and a value is stored under it. -/
def issue (g : Ledger α) (key : Key) (value : α) : Ledger α :=
  { g with issued := key :: g.issued, stored := Function.update g.stored key (some value) }

def remove (g : Ledger α) (key : Key) : Ledger α := if g.Live key then { g with removed := key :: g.removed } else g

def replace (g : Ledger α) (key : Key) (value : α) : Ledger α :=
  if g.Live key then { g with stored := Function.update g.stored key (some value) } else g

/-- The values under two keys change places. -/
def swap (g : Ledger α) (a b : Key) : Ledger α :=
  if g.Live a ∧ g.Live b then
    { g with stored := Function.update (Function.update g.stored a (g.stored b)) b (g.stored a) }
  else g

end Ledger

/-- The values that two keys reach at once change places, if there are such values. -/
def swap (s : Pool α) (a b : Key) : Pool α :=
  match s.pair? a b with
  | some (x, y) => s.setPair a b (y, x)
  | none => s

theorem outline_swap (s : Pool α) (a b : Key) : (s.swap a b).outline = s.outline := by
  unfold swap
  split
  · exact outline_setPair ..
  · rfl

/-- Each of the two keys reaches what the other one did; a single key still reaches what it did. -/
theorem get?_swap {a b : Key} {x y : α} (ha : s.get? a = some x) (hb : s.get? b = some y) :
    (s.swap a b).get? k = if k = b then some x else if k = a then some y else s.get? k := by
  unfold swap
  by_cases hab : a = b
  · have hnone : s.pair? a b = none := by
      rw [pair?_eq, if_pos (congrArg Key.index hab)]
    rw [hnone]
    by_cases hk : k = b
    · rw [if_pos hk, hk, ← hab]
      exact ha
    · rw [if_neg hk, if_neg (hab ▸ hk)]
  · have hpair : s.pair? a b = some (x, y) := pair?_eq_some_iff.mpr ⟨hab, ha, hb⟩
    rw [hpair]
    refine (get?_setPair hpair _ k).trans ?_
    by_cases hk : k = a
    · rw [if_pos hk, if_neg (hk ▸ hab), if_pos hk]
    · rw [if_neg hk, if_neg hk]

theorem swap_of_not {a b : Key} (h : ¬((s.get? a).isSome ∧ (s.get? b).isSome)) : s.swap a b = s := by
  unfold swap
  split
  · rename_i hpair
    obtain ⟨-, hx, hy⟩ := pair?_eq_some_iff.mp hpair
    exact absurd ⟨by rw [hx]; rfl, by rw [hy]; rfl⟩ h
  · rfl

/-- A pool after anything that a host may have done with it, and the ledger of that. -/
inductive Runs : Pool α → Ledger α → Prop
  | empty : Runs ∅ {}
  | insert {s t : Pool α} {g : Ledger α} {key : Key} (run : Runs s g) (make : Key → α)
      (hrun : s.insert? make = some (key, t)) : Runs t (g.issue key (make key))
  | remove {s : Pool α} {g : Ledger α} (run : Runs s g) (key : Key) : Runs (s.remove key).2 (g.remove key)
  | replace {s : Pool α} {g : Ledger α} (run : Runs s g) (key : Key) (value : α) :
      Runs (s.set key value) (g.replace key value)
  | swap {s : Pool α} {g : Ledger α} (run : Runs s g) (a b : Key) : Runs (s.swap a b) (g.swap a b)

namespace Ledger

variable {g : Ledger α} {v : α} {a b : Key}

theorem find?_eq_some_iff : g.find? key = some v ↔ g.Live key ∧ g.stored key = some v := by
  unfold find?
  split <;> simp_all

theorem find?_eq_none (h : ¬g.Live key) : g.find? key = none := if_neg h

theorem find?_congr {g' : Ledger α} (hlive : g'.Live k ↔ g.Live k) (hstored : g'.stored k = g.stored k) :
    g'.find? k = g.find? k := by
  unfold find?
  rw [hstored]
  exact if_congr hlive rfl rfl

/-- A key that was never given out before has the value that it was given out for. -/
theorem find?_issue (hnew : key ∉ g.issued) (hremoved : g.removed ⊆ g.issued) :
    (g.issue key v).find? k = if k = key then some v else g.find? k := by
  by_cases hk : k = key
  · rw [if_pos hk, hk]
    exact find?_eq_some_iff.mpr ⟨⟨List.mem_cons_self, fun hmem => hnew (hremoved hmem)⟩, Function.update_self ..⟩
  · rw [if_neg hk]
    exact find?_congr (by simp [Live, issue, hk]) (Function.update_of_ne hk ..)

theorem issued_remove : (g.remove key).issued = g.issued := by
  unfold remove
  split <;> rfl

theorem stored_remove : (g.remove key).stored = g.stored := by
  unfold remove
  split <;> rfl

theorem mem_removed_remove : k ∈ (g.remove key).removed ↔ k ∈ g.removed ∨ k = key ∧ g.Live key := by
  unfold remove
  split
  · rename_i hlive
    rw [List.mem_cons, or_comm, and_iff_left hlive]
  · rename_i hlive
    rw [or_iff_left fun h => hlive h.2]

theorem live_remove : (g.remove key).Live k ↔ g.Live k ∧ k ≠ key := by
  unfold Live
  rw [issued_remove, mem_removed_remove]
  constructor
  · rintro ⟨hissued, hremoved⟩
    have hold : g.Live k := ⟨hissued, fun h => hremoved (.inl h)⟩
    exact ⟨hold, fun heq => hremoved (.inr ⟨heq, heq ▸ hold⟩)⟩
  · rintro ⟨hlive, hne⟩
    exact ⟨hlive.1, fun h => h.elim hlive.2 fun h => hne h.1⟩

theorem find?_remove : (g.remove key).find? k = if k = key then none else g.find? k := by
  split
  · rename_i hk
    exact find?_eq_none fun h => (live_remove.mp h).2 hk
  · rename_i hk
    exact find?_congr (live_remove.trans (and_iff_left hk)) (congrFun stored_remove k)

theorem issued_replace : (g.replace key v).issued = g.issued := by
  unfold replace
  split <;> rfl

theorem removed_replace : (g.replace key v).removed = g.removed := by
  unfold replace
  split <;> rfl

theorem find?_replace : (g.replace key v).find? k = if g.Live key ∧ k = key then some v else g.find? k := by
  unfold replace
  by_cases hlive : g.Live key
  · rw [if_pos hlive]
    by_cases hk : k = key
    · rw [if_pos ⟨hlive, hk⟩, hk]
      exact find?_eq_some_iff.mpr ⟨hlive, Function.update_self ..⟩
    · rw [if_neg fun h => hk h.2]
      exact find?_congr Iff.rfl (Function.update_of_ne hk ..)
  · rw [if_neg hlive, if_neg fun h => hlive h.1]

theorem issued_swap : (g.swap a b).issued = g.issued := by
  unfold swap
  split <;> rfl

theorem removed_swap : (g.swap a b).removed = g.removed := by
  unfold swap
  split <;> rfl

theorem find?_swap (ha : g.Live a) (hb : g.Live b) :
    (g.swap a b).find? k = if k = b then g.stored a else if k = a then g.stored b else g.find? k := by
  unfold swap
  rw [if_pos ⟨ha, hb⟩]
  by_cases hkb : k = b
  · rw [if_pos hkb, hkb]
    exact (if_pos hb).trans (Function.update_self ..)
  · rw [if_neg hkb]
    by_cases hka : k = a
    · rw [if_pos hka, hka]
      exact (if_pos ha).trans ((Function.update_of_ne (hka ▸ hkb) ..).trans (Function.update_self ..))
    · rw [if_neg hka]
      exact find?_congr Iff.rfl ((Function.update_of_ne hkb ..).trans (Function.update_of_ne hka ..))

theorem vacations_remove (g : Ledger α) (key : Key) (i : Nat) :
    (g.remove key).vacations i = g.vacations i + if g.Live key ∧ key.index = i then 1 else 0 := by
  unfold remove vacations
  by_cases hlive : g.Live key
  · by_cases hi : key.index = i <;> simp [hlive, hi]
  · simp [hlive]

end Ledger

/-! ### Pool and ledger agree -/

/-- The pool reaches what the ledger has, and every key that was given out has aged since by no more than its slot was
    vacated. -/
structure Agrees (s : Pool α) (g : Ledger α) : Prop where
  wellFormed : s.WellFormed
  find? : ∀ key, s.get? key = g.find? key
  stored : ∀ {key}, g.Live key → (g.stored key).isSome
  aged : ∀ {key}, key ∈ g.issued → ∃ n ≤ g.vacations key.index, s.Aged key.index key.generation n
  removed : g.removed ⊆ g.issued
  distinct : g.issued.Nodup

namespace Agrees

variable {g g' : Ledger α}

theorem isSome_iff (h : Agrees s g) : (s.get? key).isSome ↔ g.Live key := by
  rw [h.find?]
  constructor
  · intro hsome
    obtain ⟨v, hv⟩ := Option.isSome_iff_exists.mp hsome
    exact (Ledger.find?_eq_some_iff.mp hv).1
  · intro hlive
    obtain ⟨v, hv⟩ := Option.isSome_iff_exists.mp (h.stored hlive)
    rw [Ledger.find?_eq_some_iff.mpr ⟨hlive, hv⟩]
    rfl

theorem empty : Agrees (∅ : Pool α) {} where
  wellFormed := wellFormed_empty
  find? key := get?_empty
  stored hlive := by cases hlive.1
  aged hkey := by cases hkey
  removed := List.nil_subset _
  distinct := .nil

/-- The next key is a new one: its slot is empty, and every key that was given out for that slot has aged since. -/
theorem nextKey_not_mem (h : Agrees s g) (hcount : ∀ i, g.vacations i < 2 ^ 32) : s.nextKey ∉ g.issued := by
  intro hmem
  obtain ⟨n, hn, haged⟩ := h.aged hmem
  have hpos := haged.pos_of_none h.wellFormed.get?_nextKey
  rcases h.wellFormed.slot?_nextKey with hslot | hslot
  · obtain ⟨b, hb, -⟩ := haged
    rw [hslot] at hb
    cases hb
  · exact haged.slot?_ne hpos (Nat.lt_of_le_of_lt hn (hcount _)) false hslot

/-- Keys age along with the ledger. -/
theorem aged_step (h : Agrees s g) (hstep : Sheds s t ∨ Fills s t)
    (hcount : ∀ i, g.vacations i + vacations s t i ≤ g'.vacations i) (hkey : key ∈ g.issued) :
    ∃ n ≤ g'.vacations key.index, t.Aged key.index key.generation n := by
  obtain ⟨n, hn, haged⟩ := h.aged hkey
  exact ⟨_, Nat.le_trans (Nat.add_le_add_right hn _) (hcount _), haged.step hstep⟩

theorem insert {make : Key → α} (h : Agrees s g) (hcount : ∀ i, g.vacations i < 2 ^ 32)
    (hrun : s.insert? make = some (key, t)) : Agrees t (g.issue key (make key)) := by
  obtain ⟨hroom, hrun⟩ := insert?_eq_some_iff.mp hrun
  obtain rfl : s.nextKey = key := (insert_fst s make).symm.trans (congrArg Prod.fst hrun)
  obtain rfl : (s.insert make).2 = t := congrArg Prod.snd hrun
  have hnew := h.nextKey_not_mem hcount
  have hfills := Fills.insert h.wellFormed make
  have hget := h.wellFormed.get?_insert make
  refine ⟨h.wellFormed.insert hroom make, fun key => ?_, fun {key} hlive => ?_, fun {key} hkey => ?_,
    fun key hkey => List.mem_cons_of_mem _ (h.removed hkey), List.nodup_cons.mpr ⟨hnew, h.distinct⟩⟩
  · rw [hget, Ledger.find?_issue hnew h.removed, h.find?]
  · by_cases hk : key = s.nextKey
    · simp [Ledger.issue, hk]
    · have hold : g.Live key := ⟨(List.mem_cons.mp hlive.1).resolve_left hk, hlive.2⟩
      simpa [Ledger.issue, hk] using h.stored hold
  · rcases List.mem_cons.mp hkey with rfl | hkey
    · exact ⟨0, Nat.zero_le _, .start (by rw [hget, if_pos rfl]; rfl)⟩
    · refine h.aged_step (.inr hfills) (fun i => ?_) hkey
      rw [vacations_of_fills hfills, Nat.add_zero]
      exact Nat.le_refl _

theorem remove (h : Agrees s g) (key : Key) : Agrees (s.remove key).2 (g.remove key) where
  wellFormed := h.wellFormed.erase key
  find? k := by
    rw [Ledger.find?_remove, ← h.find?]
    exact get?_erase s key k
  stored hlive := by
    rw [Ledger.stored_remove]
    exact h.stored (Ledger.live_remove.mp hlive).1
  aged hk := by
    refine h.aged_step (.inl (.erase s key)) (fun i => ?_) (Ledger.issued_remove ▸ hk)
    rw [Ledger.vacations_remove]
    refine Nat.add_le_add_left ((vacations_erase_le s key i).trans (Nat.le_of_eq ?_)) _
    exact if_congr (and_congr_left' h.isSome_iff) rfl rfl
  removed k hk := by
    rw [Ledger.issued_remove]
    rcases Ledger.mem_removed_remove.mp hk with hk | ⟨rfl, hlive⟩
    · exact h.removed hk
    · exact hlive.1
  distinct := by
    rw [Ledger.issued_remove]
    exact h.distinct

/-- Storing other values under live keys leaves keys and slots as they are. -/
theorem of_outline (h : Agrees s g) (ht : t.outline = s.outline) (hissued : g'.issued = g.issued)
    (hremoved : g'.removed = g.removed) (hfind : ∀ key, t.get? key = g'.find? key) : Agrees t g' := by
  have hlive : ∀ {key}, g'.Live key ↔ g.Live key := by
    intro key
    unfold Ledger.Live
    rw [hissued, hremoved]
  refine ⟨h.wellFormed.of_outline ht, hfind, fun {key} hkey => ?_, fun {key} hkey => ?_, ?_, hissued ▸ h.distinct⟩
  · have halive := h.isSome_iff.mpr (hlive.mp hkey)
    rw [get?_isSome_iff, ← slot?_eq_of_outline ht, ← get?_isSome_iff, hfind] at halive
    unfold Ledger.find? at halive
    rwa [if_pos hkey] at halive
  · refine h.aged_step (.inl (.of_outline ht)) (fun i => ?_) (hissued ▸ hkey)
    rw [vacations_of_slot?_eq (slot?_eq_of_outline ht i)]
    unfold Ledger.vacations
    rw [hremoved]
    exact Nat.le_refl _
  · rw [hissued, hremoved]
    exact h.removed

theorem replace (h : Agrees s g) (key : Key) (value : α) : Agrees (s.set key value) (g.replace key value) := by
  refine h.of_outline (outline_set s key value) Ledger.issued_replace Ledger.removed_replace fun k => ?_
  rw [set_eq_modify, get?_modify, Ledger.find?_replace, ← h.find?]
  by_cases hlive : g.Live key
  · obtain ⟨v, hv⟩ := Option.isSome_iff_exists.mp (h.isSome_iff.mpr hlive)
    simp [hlive, hv]
  · have hnone : s.get? key = none := by simpa using h.isSome_iff.not.mpr hlive
    rw [if_neg (fun hk => hlive hk.1 : ¬(g.Live key ∧ k = key)), hnone]
    split
    · rename_i hk
      rw [hk, hnone, Option.map_none]
    · rfl

theorem swap (h : Agrees s g) (a b : Key) : Agrees (s.swap a b) (g.swap a b) := by
  refine h.of_outline (outline_swap s a b) Ledger.issued_swap Ledger.removed_swap fun k => ?_
  by_cases hlive : g.Live a ∧ g.Live b
  · obtain ⟨x, hx⟩ := Option.isSome_iff_exists.mp (h.isSome_iff.mpr hlive.1)
    obtain ⟨y, hy⟩ := Option.isSome_iff_exists.mp (h.isSome_iff.mpr hlive.2)
    obtain ⟨-, hxs⟩ := Ledger.find?_eq_some_iff.mp ((h.find? a).symm.trans hx)
    obtain ⟨-, hys⟩ := Ledger.find?_eq_some_iff.mp ((h.find? b).symm.trans hy)
    rw [Ledger.find?_swap hlive.1 hlive.2, hxs, hys, get?_swap hx hy, h.find?]
  · rw [swap_of_not fun hsome => hlive ⟨h.isSome_iff.mp hsome.1, h.isSome_iff.mp hsome.2⟩, h.find?]
    unfold Ledger.swap
    rw [if_neg hlive]

end Agrees

variable {g : Ledger α}

/-- While no slot has been vacated `2 ^ 32` times, pool and ledger agree after every step. -/
theorem Runs.agrees (hr : Runs s g) (hcount : ∀ i, g.vacations i < 2 ^ 32) : Agrees s g := by
  induction hr with
  | empty => exact .empty
  | insert run make hrun ih => exact (ih hcount).insert hcount hrun
  | @remove s g run key ih =>
    refine (ih fun i => Nat.lt_of_le_of_lt ?_ (hcount i)).remove key
    rw [Ledger.vacations_remove]
    exact Nat.le_add_right _ _
  | @replace s g run key value ih =>
    unfold Ledger.vacations at hcount
    rw [Ledger.removed_replace] at hcount
    exact (ih hcount).replace key value
  | @swap s g run a b ih =>
    unfold Ledger.vacations at hcount
    rw [Ledger.removed_swap] at hcount
    exact (ih hcount).swap a b

/-! ### A map with keys of its own -/

/-- The pool is the map that the ledger tells of, and its keys are as good as new. -/
structure Mirrors (s : Pool α) (g : Ledger α) : Prop where
  /-- No key was given out twice, nor will the next one have been, and each of them fits its 32 bits. -/
  distinct : g.issued.Nodup
  word : ∀ key ∈ g.issued, key.index < 2 ^ 32
  fresh : ∀ make : Key → α, ∃ key t, s.insert? make = some (key, t) ∧ key ∉ g.issued ∧ t.get? key = some (make key)
  /-- A key reaches the value that was last stored under it exactly if it is live. -/
  get? : ∀ key v, s.get? key = some v ↔ g.Live key ∧ g.stored key = some v
  contains : ∀ key, s.contains key = true ↔ g.Live key
  modify : ∀ key f k, (s.modify key f).get? k = if k = key then (g.find? key).map f else g.find? k
  /-- What is taken out by a key is what it reaches; a key that is not live takes nothing out. -/
  remove : ∀ key, (s.remove key).1 = g.find? key ∧ (¬g.Live key → (s.remove key).2 = s)
  /-- Two live keys reach their values at once, unless they are the same key. -/
  pair? : ∀ a b x y, s.pair? a b = some (x, y) ↔
    a ≠ b ∧ (g.Live a ∧ g.stored a = some x) ∧ (g.Live b ∧ g.stored b = some y)
  setPair : ∀ a b values, a ≠ b → g.Live a → g.Live b → ∀ k,
    (s.setPair a b values).get? k = if k = a then some values.1 else if k = b then some values.2 else g.find? k
  size : s.size = {key | g.Live key}.ncard
  /-- The entries are the live keys with their values, each of them once, by ascending place. -/
  entries : ∀ key v, (key, v) ∈ s.entries ↔ g.Live key ∧ g.stored key = some v
  ascending : (s.entries.map (·.1.index)).Pairwise (· < ·)
  /-- The free list names the empty slots, each of them once. -/
  free : s.free.Nodup ∧ ∀ i, i ∈ s.free ↔ ∃ γ, s.slots[i]? = some ⟨γ, none⟩

theorem Agrees.ncard_live (h : Agrees s g) : s.size = {key | g.Live key}.ncard := by
  have hlive : {key | g.Live key} = ((s.entries.map (·.1)).toFinset : Set Key) := by
    ext key
    rw [Set.mem_ofPred_eq, Finset.mem_coe, List.mem_toFinset, ← h.isSome_iff, Option.isSome_iff_exists, List.mem_map]
    constructor
    · rintro ⟨v, hv⟩
      exact ⟨(key, v), mem_entries.mpr hv, rfl⟩
    · rintro ⟨e, he, rfl⟩
      exact ⟨e.2, mem_entries.mp he⟩
  rw [hlive, Set.ncard_coe_finset, List.toFinset_card_of_nodup s.nodup_entries, List.length_map, h.wellFormed.size_eq]

theorem Agrees.get?_eq_some_iff {v : α} (h : Agrees s g) :
    s.get? key = some v ↔ g.Live key ∧ g.stored key = some v := by
  rw [h.find?, Ledger.find?_eq_some_iff]

theorem Agrees.index_lt (h : Agrees s g) (hkey : key ∈ g.issued) : key.index < s.slots.size := by
  obtain ⟨n, -, b, hslot, -⟩ := h.aged hkey
  unfold slot? at hslot
  obtain ⟨slot, hslot, -⟩ := Option.map_eq_some_iff.mp hslot
  exact (Array.getElem?_eq_some_iff.mp hslot).1

/-- Whatever is done with a pool, by whatever keys, it is the map that the ledger of it tells of, as long as no slot is
    vacated `2 ^ 32` times and there are fewer slots than that. -/
theorem mirrors_of_runs (hr : Runs s g) (hcount : ∀ i, g.vacations i < 2 ^ 32) (hslots : s.slots.size < 2 ^ 32) :
    Mirrors s g := by
  have h := hr.agrees hcount
  exact {
    distinct := h.distinct
    word := fun key hkey => (h.index_lt hkey).trans hslots
    fresh := fun make => by
      have hroom : s.isFull = false := Bool.eq_false_iff.mpr fun hfull => by
        have := (isFull_eq_true_iff.mp hfull).2
        omega
      refine ⟨s.nextKey, _, (insert?_of_not_full hroom make).trans (congrArg some (Prod.ext (insert_fst s make) rfl)),
        h.nextKey_not_mem hcount, ?_⟩
      rw [h.wellFormed.get?_insert, if_pos rfl]
    get? := fun key v => h.get?_eq_some_iff
    contains := fun key => h.isSome_iff
    modify := fun key f k => by rw [get?_modify, h.find?, h.find?]
    remove := fun key => by
      rw [← h.find?, ← h.isSome_iff]
      unfold Pool.remove
      cases s.get? key with
      | some v => exact ⟨rfl, fun hnone => absurd rfl hnone⟩
      | none => exact ⟨rfl, fun _ => rfl⟩
    pair? := fun a b x y => by rw [pair?_eq_some_iff, h.get?_eq_some_iff, h.get?_eq_some_iff]
    setPair := fun a b values hab ha hb k => by
      obtain ⟨x, hx⟩ := Option.isSome_iff_exists.mp (h.isSome_iff.mpr ha)
      obtain ⟨y, hy⟩ := Option.isSome_iff_exists.mp (h.isSome_iff.mpr hb)
      rw [get?_setPair (pair?_eq_some_iff.mpr ⟨hab, hx, hy⟩), h.find?]
    size := h.ncard_live
    entries := fun key v => mem_entries.trans h.get?_eq_some_iff
    ascending := s.ascending_entries
    free := ⟨h.wellFormed.nodup, fun i => h.wellFormed.mem_free_iff⟩ }

namespace Sample

/-- Two values come, the first one goes, and a third one takes its slot; then the two that are left change places. -/
def pool : Pool Nat :=
  (((((∅ : Pool Nat).insert fun _ => 7).2.insert fun _ => 8).2.remove ⟨0, 0⟩).2.insert fun _ => 9).2.swap ⟨0, 1⟩ ⟨1, 0⟩

def ledger : Ledger Nat :=
  ((((({} : Ledger Nat).issue ⟨0, 0⟩ 7).issue ⟨1, 0⟩ 8).remove ⟨0, 0⟩).issue ⟨0, 1⟩ 9).swap ⟨0, 1⟩ ⟨1, 0⟩

theorem runs : Runs pool ledger :=
  ((((Runs.empty.insert (fun _ => 7) rfl).insert (fun _ => 8) rfl).remove ⟨0, 0⟩).insert (fun _ => 9) rfl).swap ⟨0, 1⟩ ⟨1, 0⟩

theorem vacations_lt (i : Nat) : ledger.vacations i < 2 ^ 32 :=
  Nat.lt_of_le_of_lt List.countP_le_length (by decide : ledger.removed.length < 2 ^ 32)

end Sample

theorem mirrors_in_sample :
    (Runs Sample.pool Sample.ledger ∧ (∀ i, Sample.ledger.vacations i < 2 ^ 32) ∧ Sample.pool.slots.size < 2 ^ 32) ∧
    Mirrors Sample.pool Sample.ledger ∧ Sample.pool.get? ⟨0, 1⟩ = some 8 ∧ Sample.pool.contains ⟨0, 0⟩ = false := by
  have hslots : Sample.pool.slots.size < 2 ^ 32 := by decide
  have hmirrors := mirrors_of_runs Sample.runs Sample.vacations_lt hslots
  have hlive : Sample.ledger.Live ⟨0, 1⟩ ∧ Sample.ledger.stored ⟨0, 1⟩ = some 8 := by decide
  have hdead : ¬Sample.ledger.Live ⟨0, 0⟩ := by decide
  refine ⟨⟨Sample.runs, Sample.vacations_lt, hslots⟩, hmirrors, (hmirrors.get? _ _).mpr hlive, ?_⟩
  exact Bool.eq_false_iff.mpr fun hcontains => hdead ((hmirrors.contains _).mp hcontains)

end Pool
end Fleet
