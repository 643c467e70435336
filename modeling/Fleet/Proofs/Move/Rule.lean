import Fleet.Move
import Fleet.Proofs.Layout.Sited

/-! The rule of a move, and its prediction.

    A move is a rule on the clients of two routes (`newClients`). The prediction splices lists of locations
    with the depots at their ends; it follows that rule. -/

namespace Fleet
namespace Move

variable {α β : Type}

/-! ### The rule -/

/-- How many clients of its route stay before the place at `j`: with no clients on that side of an exchange
    the node at `j` stays too. -/
def staying (m j : Nat) : Nat := if m = 0 then j else j - 1

/-- The clients of both routes after the move, made at the positions `i` and `j`. -/
def newClients (move : Move) (us vs : List α) (i j : Nat) : List α × List α :=
  match move with
  | .exchange n m _ _ =>
    (us.take (i - 1) ++ (vs.drop (staying m.toNat j)).take m.toNat ++ us.drop (i - 1 + n.toNat),
      vs.take (staying m.toNat j) ++ (us.drop (i - 1)).take n.toNat ++ vs.drop (staying m.toNat j + m.toNat))
  | .swapTails => (us.take i ++ vs.drop j, vs.take j ++ us.drop i)

theorem newClients_map (move : Move) (f : α → β) (us vs : List α) (i j : Nat) :
    move.newClients (us.map f) (vs.map f) i j =
      ((move.newClients us vs i j).1.map f, (move.newClients us vs i j).2.map f) := by
  cases move <;> simp [newClients, List.map_take, List.map_drop]

/-- No client is lost, doubled or made up. -/
theorem perm_newClients (move : Move) (us vs : List α) (i j : Nat) :
    ((move.newClients us vs i j).1 ++ (move.newClients us vs i j).2).Perm (us ++ vs) := by
  classical
  rw [List.perm_iff_count]
  intro c
  -- A list is what stays before the place, what moves, and what stays behind.
  have parts : ∀ (as : List α) (h k : Nat),
      as.count c = (as.take h).count c + (((as.drop h).take k).count c + (as.drop (h + k)).count c) :=
    fun as h k => by
      rw [← List.count_append, ← List.drop_drop, List.take_append_drop, ← List.count_append, List.take_append_drop]
  cases move with
  | exchange n m pos le =>
    simp only [newClients, List.count_append]
    have hus := parts us (i - 1) n.toNat
    have hvs := parts vs (staying m.toNat j) m.toNat
    omega
  | swapTails =>
    simp only [newClients, List.count_append]
    have hus := congrArg (List.count c) (List.take_append_drop i us)
    have hvs := congrArg (List.count c) (List.take_append_drop j vs)
    simp only [List.count_append] at hus hvs
    omega

/-! ### Where a move fits -/

/-- A place where clients to exchange end is looked at, and its number is out of range. -/
def Exceeds (move : Move) (i clientsU j : Nat) : Prop :=
  match move with
  | .exchange n m _ _ => 0 < i ∧ (2 ^ 64 ≤ i + n.toNat ∨
      i + n.toNat ≤ clientsU + 1 ∧ m.toNat ≠ 0 ∧ 0 < j ∧ 2 ^ 64 ≤ j + m.toNat)
  | .swapTails => False

theorem lastPosition_eq {first count : Nat} (h : 0 < count) :
    lastPosition first count = if 2 ^ 64 ≤ first + count then .error .overflow else .ok (first + count - 1) := by
  unfold lastPosition Quantity.checkedCount
  split
  · rw [if_neg (by omega), ok_bind]
    exact if_pos (by omega)
  · rw [if_pos (by omega)]
    rfl

section Exchange

variable {n m : UInt64} {pos : 0 < n} {le : m ≤ n} {i j cu cv : Nat}

/-- The checks of an exchange, one after the other. -/
theorem fits_exchange_eq : (exchange n m pos le).fits i cu j cv =
    if i = 0 then .ok false
    else if 2 ^ 64 ≤ i + n.toNat then .error .overflow
    else if cu + 1 < i + n.toNat then .ok false
    else if m.toNat = 0 then .ok (decide (j ≤ cv))
    else if j = 0 then .ok false
    else if 2 ^ 64 ≤ j + m.toNat then .error .overflow
    else .ok (decide (j + m.toNat ≤ cv + 1)) := by
  have hn : 0 < n.toNat := UInt64.lt_iff_toNat_lt.mp pos
  unfold fits
  refine ite_congr rfl (fun _ => rfl) fun hi => ?_
  rw [lastPosition_eq hn]
  split
  · rfl
  · have hlast : cu < i + n.toNat - 1 ↔ cu + 1 < i + n.toNat := by omega
    simp only [ok_bind, hlast]
    refine ite_congr rfl (fun _ => rfl) fun _ => ite_congr rfl (fun _ => rfl) fun hm => ite_congr rfl (fun _ => rfl) fun hj => ?_
    rw [lastPosition_eq (Nat.pos_of_ne_zero hm)]
    split
    · rfl
    · have hlast : j + m.toNat - 1 ≤ cv ↔ j + m.toNat ≤ cv + 1 := by omega
      simp only [ok_bind, hlast]
      rfl

/-- The fit of an exchange, as inequations. -/
theorem fits_exchange (h : (exchange n m pos le).fits i cu j cv = .ok true) :
    (∃ k, i = k + 1 ∧ k + n.toNat ≤ cu) ∧ (if m.toNat = 0 then j ≤ cv else 0 < j ∧ j + m.toNat ≤ cv + 1) ∧
      staying m.toNat j + m.toNat ≤ cv := by
  rw [fits_exchange_eq] at h
  obtain ⟨hi, hn, hm⟩ : 0 < i ∧ i + n.toNat ≤ cu + 1 ∧ (if m.toNat = 0 then j ≤ cv else 0 < j ∧ j + m.toNat ≤ cv + 1) := by
    split_ifs at h ⊢ <;> simp_all <;> omega
  refine ⟨⟨i - 1, by omega, by omega⟩, hm, ?_⟩
  unfold staying
  split_ifs at hm ⊢ <;> omega

/-- Among routes whose positions are words an exchange fits if its clients are there. -/
theorem fits_of_exchange (hi : 0 < i) (hn : i + n.toNat ≤ cu + 1)
    (hm : if m.toNat = 0 then j ≤ cv else 0 < j ∧ j + m.toNat ≤ cv + 1) (hcu : cu + 1 < 2 ^ 64) (hcv : cv + 1 < 2 ^ 64) :
    (exchange n m pos le).fits i cu j cv = .ok true := by
  rw [fits_exchange_eq]
  split_ifs at hm ⊢
  all_goals first | omega | exact congrArg Except.ok (decide_eq_true (by omega))

end Exchange

theorem fits_swapTails {i j cu cv : Nat} (h : swapTails.fits i cu j cv = .ok true) :
    i ≤ cu ∧ j ≤ cv ∧ ¬(i = cu ∧ j = cv) := by
  have h := Except.ok.inj h
  simp only [Bool.and_eq_true, decide_eq_true_eq, Bool.not_eq_true', Bool.and_eq_false_iff,
    decide_eq_false_iff_not] at h
  omega

theorem fits_of_swapTails {i j cu cv : Nat} (hi : i ≤ cu) (hj : j ≤ cv) (hends : ¬(i = cu ∧ j = cv)) :
    swapTails.fits i cu j cv = .ok true := by
  refine congrArg Except.ok ?_
  simp only [Bool.and_eq_true, decide_eq_true_eq, Bool.not_eq_true', Bool.and_eq_false_iff, decide_eq_false_iff_not]
  omega

/-- Nothing but a number out of range keeps a move from being tested. -/
theorem fits_cases (move : Move) (i cu j cv : Nat) :
    (¬move.Exceeds i cu j ∧ ∃ fits, move.fits i cu j cv = .ok fits) ∨
      (move.Exceeds i cu j ∧ move.fits i cu j cv = .error .overflow) := by
  cases move with
  | exchange n m pos le =>
    rw [fits_exchange_eq]
    unfold Exceeds
    split_ifs <;> simp <;> omega
  | swapTails => exact .inl ⟨id, _, rfl⟩

/-! ### The prediction -/

theorem slice_run {start stop : Nat} {as : List α} (h : start ≤ stop) (h' : stop ≤ as.length) :
    slice start stop as = .ok ((as.drop start).take (stop - start)) := by
  unfold slice
  rw [if_pos ⟨h, h'⟩]

/-- A list with something at both ends. -/
def between (first last : α) (as : List α) : List α := first :: (as ++ [last])

theorem length_between (first last : α) (as : List α) : (between first last as).length = as.length + 2 := by
  simp [between]

theorem map_between (f : α → β) (first last : α) (as : List α) :
    (between first last as).map f = between (f first) (f last) (as.map f) := by
  simp [between]

theorem visits_eq_between (r : Route) : r.visits = between r.start r.finish r.clients := rfl

theorem slice_head {first last : α} {as : List α} {k : Nat} (h : k ≤ as.length) :
    slice 0 (k + 1) (between first last as) = .ok (first :: as.take k) := by
  rw [slice_run (Nat.zero_le _) (by rw [length_between]; omega)]
  simp [between, List.take_append_of_le_length h]

theorem slice_middle {first last : α} {as : List α} {k n : Nat} (h : k + n ≤ as.length) :
    slice (k + 1) (k + 1 + n) (between first last as) = .ok ((as.drop k).take n) := by
  rw [slice_run (by omega) (by rw [length_between]; omega), Nat.add_sub_cancel_left, between, List.drop_succ_cons,
    List.drop_append_of_le_length (by omega), List.take_append_of_le_length (by rw [List.length_drop]; omega)]

theorem slice_tail {first last : α} {as : List α} {k : Nat} (h : k ≤ as.length) :
    slice (k + 1) (as.length + 2) (between first last as) = .ok (as.drop k ++ [last]) := by
  rw [slice_run (by omega) (by rw [length_between]), between, List.drop_succ_cons, List.drop_append_of_le_length h,
    List.take_of_length_le (by simp only [List.length_append, List.length_drop, List.length_singleton]; omega)]

theorem slice_self {start : Nat} {as : List α} (h : start ≤ as.length) : slice start start as = .ok [] := by
  rw [slice_run (Nat.le_refl _) h, Nat.sub_self, List.take_zero]

/-- The clients of the other route that move, as a part of its tour. -/
theorem slice_moving {first last : α} {as : List α} {m j : Nat}
    (h : if m = 0 then j ≤ as.length else 0 < j ∧ j + m ≤ as.length + 1) :
    slice j (j + m) (between first last as) = .ok ((as.drop (staying m j)).take m) := by
  unfold staying
  split at h
  · rename_i hm
    subst hm
    rw [Nat.add_zero, slice_self (by rw [length_between]; omega), List.take_zero]
  · rename_i hm
    obtain ⟨k, rfl⟩ : ∃ k, j = k + 1 := ⟨j - 1, by omega⟩
    rw [slice_middle (by omega), if_neg hm, Nat.add_sub_cancel]

theorem target_eq {m j k : Nat} (h : if m = 0 then j ≤ k else 0 < j ∧ j + m ≤ k + 1) :
    target m j = staying m j + 1 := by
  unfold target staying
  split at h
  · rename_i hm
    rw [if_pos hm, if_pos hm]
  · rename_i hm
    rw [if_neg hm, if_neg hm]
    omega

/-- The predicted tours are those of the new clients, each between its own two depots. -/
theorem newTours_run {move : Move} {us vs : List Nat} {i j su eu sv ev : Nat}
    (h : move.fits i us.length j vs.length = .ok true) :
    move.newTours (between su eu us) (between sv ev vs) i j =
      .ok (between su eu (move.newClients us vs i j).1, between sv ev (move.newClients us vs i j).2) := by
  cases move with
  | exchange n m pos le =>
    obtain ⟨⟨k, rfl, hk⟩, hj, hq⟩ := fits_exchange h
    simp only [newTours, newClients, length_between, target_eq hj, Nat.add_sub_cancel]
    rw [slice_head (show k ≤ us.length by omega), slice_moving hj, Nat.add_right_comm k 1 n.toNat, slice_tail hk,
      slice_head (show staying m.toNat j ≤ vs.length by omega), Nat.add_right_comm k n.toNat 1, slice_middle hk,
      Nat.add_right_comm _ 1 m.toNat, slice_tail hq]
    simp [between]
  | swapTails =>
    obtain ⟨hi, hj, -⟩ := fits_swapTails h
    have hrest : ∀ {k first last : Nat} {as : List Nat}, k ≤ as.length →
        slice (k + 1) (as.length + 1) (between first last as) = .ok (as.drop k) := fun {k first last as} hle => by
      rw [show as.length + 1 = k + 1 + (as.length - k) by omega, slice_middle (by omega), List.take_of_length_le (by simp)]
    have hlast : ∀ {first last : Nat} {as : List Nat},
        slice (as.length + 1) (as.length + 2) (between first last as) = .ok [last] := fun {first last as} => by
      rw [slice_tail (Nat.le_refl _), List.drop_length, List.nil_append]
    have hless : ∀ {k : Nat}, Quantity.less (k + 2) 1 = .ok (k + 1) := fun {k} => by
      unfold Quantity.less
      rw [if_pos (by omega)]
      rfl
    simp only [newTours, newClients, length_between, hless, ok_bind]
    rw [slice_head hi, hrest hj, hlast, slice_head hj, hrest hi, hlast]
    simp [between]

end Move
end Fleet
