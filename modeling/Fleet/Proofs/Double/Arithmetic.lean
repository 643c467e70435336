import Fleet.Proofs.Double.Rounding

/-! Sign and size of sums and products of doubles.

    The sum of two numbers is at most two binary places longer than they are, and only when both are zero with a
    negative sign is it minus zero. So numbers that are `Small` can be added many times before anything overflows.
    Often only one sign has a bound, as where scores may grow without end but do not fall far: `SmallOn`. -/

namespace Fleet

namespace Double

open Float.Model (UnpackedFloat Format)
open Float.Model.UnpackedFloat

variable {s t : Sign} {m m' n k : Nat} {e e' K L : Int} {u v : UnpackedFloat} {x y : Float}

theorem reading_add (x y : Float) : reading (x + y) = stored (add Format.binary64 (reading x) (reading y)) := rfl

theorem reading_sub (x y : Float) : reading (x - y) = stored (sub Format.binary64 (reading x) (reading y)) := rfl

theorem reading_mul (x y : Float) : reading (x * y) = stored (mul Format.binary64 (reading x) (reading y)) := rfl

theorem reading_neg (x : Float) : reading (-x) = stored (neg (reading x)) := rfl

/-! ### Sums before they are stored -/

/-- It has as many digits as a double can hold. -/
def Precise : UnpackedFloat → Prop
  | .finite _ m e _ => m < 2 ^ 53 ∧ -1074 ≤ e ∧ (2 ^ 52 ≤ m ∨ e = -1074)
  | _ => True

theorem Canonical.precise (h : Canonical u) : Precise u := by
  cases u with
  | finite s m e hm => exact ⟨h.1, h.2.1, h.2.2.2⟩
  | infinity | notANumber | zero => trivial

theorem Precise.neg (h : Precise u) : Precise (neg u) := by
  cases u with
  | finite s m e hm => exact h
  | infinity | notANumber | zero => trivial

theorem apply_neg (s : Sign) (n : Int) : (-s).apply n = -s.apply n := by
  cases s
  · exact (Int.neg_neg n).symm
  · rfl

theorem sub_eq_add_neg (u v : UnpackedFloat) : sub Format.binary64 u v = add Format.binary64 u (neg v) := by
  rcases u with s | _ | s | ⟨s, m, e, hm⟩ <;> rcases v with t | _ | t | ⟨t, m', e', hm'⟩
  case finite.finite =>
    show normalize _ (s.apply _ - t.apply _) _ _ = normalize _ (s.apply _ + (-t).apply _) _ _
    rw [apply_neg, Int.sub_eq_add_neg]
  all_goals rfl

theorem normalize_negative {M : Int} (hM : M < 0) :
    normalize Format.binary64 M e .positive = round Format.binary64 .negative M.natAbs e := by
  have hcompare : compare M 0 = .lt := compare_lt_iff_lt.mpr hM
  unfold UnpackedFloat.normalize
  rw [hcompare]
  show round _ _ (-M).toNat e = _
  congr 1
  omega

theorem normalize_positive {M : Int} (hM : 0 < M) :
    normalize Format.binary64 M e .positive = round Format.binary64 .positive M.natAbs e := by
  have hcompare : compare M 0 = .gt := compare_gt_iff_gt.mpr hM
  unfold UnpackedFloat.normalize
  rw [hcompare]
  show round _ _ M.toNat e = _
  congr 1
  omega

/-- A multiple of a unit, rounded to `u`: it keeps its sign, and it can gain one binary place. -/
inductive Rounds (M e : Int) : UnpackedFloat → Prop
  | zero : M = 0 → Rounds M e (.zero .positive)
  | finite {s : Sign} {m : Nat} {e' : Int} {hm : 0 < m} : Precise (.finite s m e' hm) →
      (s = .negative ∧ M < 0 ∨ s = .positive ∧ 0 < M) →
      (∀ k : Nat, M.natAbs < 2 ^ k → e' ≤ max (k + e - 53) (-1074) + 1) → Rounds M e (.finite s m e' hm)

theorem rounds_round {M : Int} (he : -1074 ≤ e) (hs : s = .negative ∧ M < 0 ∨ s = .positive ∧ 0 < M) :
    Rounds M e (round Format.binary64 s M.natAbs e) := by
  have hne : M ≠ 0 := by omega
  obtain ⟨m', e', h, hrun, hlt, hlow, hfull, hle⟩ := round_eq s (Int.natAbs_pos.mpr hne) he
  rw [hrun]
  refine .finite ⟨hlt, hlow, hfull⟩ hs fun k hk => ?_
  have hlog : M.natAbs.log2 < k := (Nat.log2_lt (Int.natAbs_ne_zero.mpr hne)).mpr hk
  unfold target at hle
  omega

theorem rounds_normalize (M : Int) (he : -1074 ≤ e) : Rounds M e (normalize Format.binary64 M e .positive) := by
  rcases lt_trichotomy M 0 with hM | rfl | hM
  · rw [normalize_negative hM]
    exact rounds_round he (Or.inl ⟨rfl, hM⟩)
  · exact .zero rfl
  · rw [normalize_positive hM]
    exact rounds_round he (Or.inr ⟨rfl, hM⟩)

/-- Two finite numbers are added as multiples of the lesser of their units. -/
theorem rounds_add (s t : Sign) (hm : 0 < m) (hm' : 0 < m') (he : -1074 ≤ e) (he' : -1074 ≤ e') :
    Rounds (s.apply (m * 2 ^ (e - min e e').toNat : Nat) + t.apply (m' * 2 ^ (e' - min e e').toNat : Nat)) (min e e')
      (add Format.binary64 (.finite s m e hm) (.finite t m' e' hm')) := by
  rw [← Nat.shiftLeft_eq, ← Nat.shiftLeft_eq]
  exact rounds_normalize _ (le_min he he')

theorem Rounds.precise {M : Int} (h : Rounds M e u) : Precise u := by
  cases h with
  | zero => trivial
  | finite h => exact h

theorem Precise.add (hu : Precise u) (hv : Precise v) : Precise (add Format.binary64 u v) := by
  rcases u with s | _ | s | ⟨s, m, e, hm⟩ <;> rcases v with t | _ | t | ⟨t, m', e', hm'⟩
  case finite.finite => exact (rounds_add s t hm hm' hu.2.1 hv.2.1).precise
  case infinity.infinity | zero.zero => cases s <;> cases t <;> trivial
  all_goals trivial

/-- Zero, or finite with an exponent of at most `K`. -/
def Small (K : Int) : UnpackedFloat → Prop
  | .zero _ => True
  | .finite _ _ e _ => e ≤ K
  | _ => False

/-- A number; small if its sign is `s`. -/
def SmallOn (s : Sign) (K : Int) (u : UnpackedFloat) : Prop := u ≠ .notANumber ∧ (signOf u = s → Small K u)

theorem Small.mono (h : Small K u) (hle : K ≤ L) : Small L u := by
  cases u with
  | finite => exact Int.le_trans h hle
  | infinity | notANumber => exact h
  | zero => trivial

theorem Small.on (h : Small K u) (s : Sign) : SmallOn s K u := ⟨fun hu => by rw [hu] at h; exact h, fun _ => h⟩

theorem small_of_on (h : ∀ s, SmallOn s K u) : Small K u := (h (signOf u)).2 rfl

theorem Small.neg (h : Small K u) : Small K (neg u) := by
  cases u with
  | finite => exact h
  | infinity | notANumber => exact h
  | zero => trivial

theorem SmallOn.mono (h : SmallOn s K u) (hle : K ≤ L) : SmallOn s L u := ⟨h.1, fun hs => (h.2 hs).mono hle⟩

theorem aligned_lt {T : Int} (hm : m < 2 ^ 53) (he : e ≤ K) : m * 2 ^ (e - T).toNat < 2 ^ (53 + (K - T).toNat) := by
  calc m * 2 ^ (e - T).toNat < 2 ^ 53 * 2 ^ (e - T).toNat := Nat.mul_lt_mul_of_pos_right hm (Nat.two_pow_pos _)
    _ = 2 ^ (53 + (e - T).toNat) := (Nat.pow_add ..).symm
    _ ≤ 2 ^ (53 + (K - T).toNat) := Nat.pow_le_pow_right (by norm_num) (by omega)

/-- A sum with sign `s` is less than twice a bound on the terms with that sign. -/
theorem apply_add_bound {r : Sign} {a b B : Nat} (ha : s = r → a < B) (hb : t = r → b < B)
    (hr : r = .negative ∧ s.apply a + t.apply b < 0 ∨ r = .positive ∧ 0 < s.apply a + t.apply b) :
    (s = r ∨ t = r) ∧ (s.apply a + t.apply b).natAbs < 2 * B := by
  cases s <;> cases t <;> cases r <;>
    simp only [Sign.apply, reduceCtorEq, false_and, true_and, false_or, or_false, forall_const, or_true,
      IsEmpty.forall_iff] at ha hb hr ⊢ <;> omega

theorem eq_of_ne {r : Sign} (hs : s ≠ r) (ht : t ≠ r) : t = s := by
  cases r <;> cases s <;> cases t <;> simp_all

theorem SmallOn.add (hpu : Precise u) (hpv : Precise v) (hu : SmallOn s K u) (hv : SmallOn s K v) :
    SmallOn s (K + 2) (add Format.binary64 u v) := by
  have hK : K ≤ K + 2 := by omega
  rcases u with su | _ | su | ⟨su, m, e, hm⟩
  · rcases v with sv | _ | sv | ⟨sv, m', e', hm'⟩
    · -- Both infinities have the other sign.
      obtain rfl : sv = su := eq_of_ne hu.2 hv.2
      cases sv <;> exact hu.mono hK
    · exact absurd rfl hv.1
    · exact hu.mono hK
    · exact hu.mono hK
  · exact absurd rfl hu.1
  · rcases v with sv | _ | sv | ⟨sv, m', e', hm'⟩
    · exact hv.mono hK
    · exact absurd rfl hv.1
    · cases su <;> cases sv <;> exact ⟨nofun, fun _ => trivial⟩
    · exact hv.mono hK
  · rcases v with sv | _ | sv | ⟨sv, m', e', hm'⟩
    · exact hv.mono hK
    · exact absurd rfl hv.1
    · exact hu.mono hK
    · have hrounds := rounds_add su sv hm hm' hpu.2.1 hpv.2.1
      generalize UnpackedFloat.add Format.binary64 _ _ = w at hrounds ⊢
      cases hrounds with
      | zero => exact ⟨nofun, fun _ => trivial⟩
      | finite hprecise hsign hle =>
        refine ⟨nofun, fun hs => ?_⟩
        obtain rfl : _ = s := hs
        obtain ⟨hor, hlt⟩ := apply_add_bound (fun h => aligned_lt hpu.1 (hu.2 h))
          (fun h => aligned_lt hpv.1 (hv.2 h)) hsign
        rw [← Nat.pow_succ'] at hlt
        have hexp := hle _ hlt
        have hmin : min e e' ≤ K := hor.elim (fun h => (min_le_left e e').trans (hu.2 h)) fun h =>
          (min_le_right e e').trans (hv.2 h)
        have hlow : -1074 ≤ min e e' := le_min hpu.2.1 hpv.2.1
        show _ ≤ K + 2
        omega

theorem Small.add (hpu : Precise u) (hpv : Precise v) (hu : Small K u) (hv : Small K v) :
    Small (K + 2) (add Format.binary64 u v) :=
  small_of_on fun s => SmallOn.add hpu hpv (hu.on s) (hv.on s)

/-- Numbers without a minus add up to one. -/
theorem signed_add (hpu : Precise u) (hpv : Precise v) (hu : Signed .positive u) (hv : Signed .positive v) :
    Signed .positive (add Format.binary64 u v) := by
  rcases u with su | _ | su | ⟨su, m, e, hm⟩ <;> rcases v with sv | _ | sv | ⟨sv, m', e', hm'⟩
  case notANumber.infinity | notANumber.notANumber | notANumber.zero | notANumber.finite => exact absurd rfl hu.2
  case infinity.notANumber | zero.notANumber | finite.notANumber => exact absurd rfl hv.2
  all_goals
    obtain rfl : su = .positive := hu.1
    obtain rfl : sv = .positive := hv.1
  case finite.finite =>
    have hrounds := rounds_add .positive .positive hm hm' hpu.2.1 hpv.2.1
    generalize UnpackedFloat.add Format.binary64 _ _ = w at hrounds ⊢
    cases hrounds with
    | zero => exact ⟨rfl, nofun⟩
    | finite hprecise hsign =>
      simp only [Sign.apply] at hsign
      rcases hsign with ⟨rfl, h⟩ | ⟨rfl, -⟩
      · exact absurd h (by omega)
      · exact ⟨rfl, nofun⟩
  all_goals exact ⟨rfl, nofun⟩

/-- Only two numbers with a minus add up to minus zero. -/
theorem add_ne_negative_zero (hpu : Precise u) (hpv : Precise v) (hu : Signed .positive u) :
    add Format.binary64 u v ≠ .zero .negative := by
  rcases u with su | _ | su | ⟨su, m, e, hm⟩ <;> rcases v with sv | _ | sv | ⟨sv, m', e', hm'⟩
  case finite.finite =>
    have hrounds := rounds_add su sv hm hm' hpu.2.1 hpv.2.1
    generalize UnpackedFloat.add Format.binary64 _ _ = w at hrounds ⊢
    cases hrounds with
    | zero => nofun
    | finite => nofun
  case zero.zero =>
    obtain rfl : su = .positive := hu.1
    cases sv <;> nofun
  case infinity.infinity => cases su <;> cases sv <;> nofun
  all_goals nofun

/-! ### Products before they are stored -/

/-- Zero, or a number without a minus. -/
def Nonneg (u : UnpackedFloat) : Prop := u = .zero .negative ∨ Signed .positive u

theorem Nonneg.smallOn (h : Nonneg u) (K : Int) : SmallOn .negative K u := by
  rcases h with rfl | h
  · exact ⟨nofun, fun _ => trivial⟩
  · exact ⟨h.2, fun hs => absurd (hs.symm.trans h.1) nofun⟩

theorem signed_roundWithAccuracy (s : Sign) (m : Nat) (e : Int) (a : Accuracy) :
    Signed s (roundWithAccuracy Format.binary64 s m e a) := by
  unfold roundWithAccuracy
  dsimp only
  split <;> exact ⟨rfl, nofun⟩

theorem cases_of_isFinite (h : u.isFinite) : (∃ s, u = .zero s) ∨ ∃ s m e hm, u = .finite s m e hm := by
  cases u with
  | infinity | notANumber => exact absurd h Bool.false_ne_true
  | zero s => exact Or.inl ⟨s, rfl⟩
  | finite s m e hm => exact Or.inr ⟨s, m, e, hm, rfl⟩

theorem signed_mul (hu : u.isFinite) (hv : v.isFinite) : Signed (signOf u * signOf v) (mul Format.binary64 u v) := by
  rcases cases_of_isFinite hu with ⟨s, rfl⟩ | ⟨s, m, e, hm, rfl⟩ <;>
    rcases cases_of_isFinite hv with ⟨t, rfl⟩ | ⟨t, m', e', hm', rfl⟩
  · exact ⟨rfl, nofun⟩
  · exact ⟨rfl, nofun⟩
  · exact ⟨rfl, nofun⟩
  · exact signed_roundWithAccuracy ..

theorem nonneg_zero (s : Sign) : Nonneg (.zero s) := by
  cases s
  · exact Or.inl rfl
  · exact Or.inr ⟨rfl, nofun⟩

theorem Nonneg.mul (hu : Nonneg u) (hv : Nonneg v) (hfu : u.isFinite) (hfv : v.isFinite) :
    Nonneg (mul Format.binary64 u v) := by
  rcases hu with rfl | hu
  · rcases cases_of_isFinite hfv with ⟨t, rfl⟩ | ⟨t, m', e', hm', rfl⟩
    · exact nonneg_zero _
    · exact nonneg_zero _
  · rcases hv with rfl | hv
    · rcases cases_of_isFinite hfu with ⟨t, rfl⟩ | ⟨t, m', e', hm', rfl⟩
      · exact nonneg_zero _
      · exact nonneg_zero _
    · have hmul := signed_mul hfu hfv
      rw [hu.1, hv.1] at hmul
      exact Or.inr hmul

/-! ### Results as doubles -/

theorem stored_of_small (hp : Precise u) (h : Small K u) (hK : K ≤ 971) : stored u = u := by
  refine stored_of_canonical ?_
  cases u with
  | finite s m e hm => exact ⟨hp.1, hp.2.1, Int.le_trans h hK, hp.2.2⟩
  | infinity | notANumber | zero => trivial

theorem SmallOn.stored (hp : Precise u) (h : SmallOn s K u) (hK : K ≤ 971) : SmallOn s K (stored u) := by
  rcases u with t | _ | t | ⟨t, m, e, hm⟩
  · rwa [stored_of_canonical (u := .infinity t) trivial]
  · exact absurd rfl h.1
  · rwa [stored_of_canonical (u := .zero t) trivial]
  · rcases le_or_gt e 971 with he | he
    · rwa [stored_of_small hp (K := e) le_rfl he]
    · rw [stored_of_large hm he]
      refine ⟨nofun, fun hs => ?_⟩
      have hle : e ≤ K := h.2 hs
      omega

theorem Nonneg.stored (h : Nonneg u) : Nonneg (stored u) := by
  rcases h with rfl | h
  · rw [stored_of_canonical (u := .zero .negative) trivial]
    exact Or.inl rfl
  · exact Or.inr h.stored

theorem reading_precise (x : Float) : Precise (reading x) := (reading_canonical x).precise

theorem small_add (hx : Small K (reading x)) (hy : Small K (reading y)) (hK : K ≤ 969) :
    Small (K + 2) (reading (x + y)) := by
  have hp := (reading_precise x).add (reading_precise y)
  have hs := Small.add (reading_precise x) (reading_precise y) hx hy
  rwa [reading_add, stored_of_small hp hs (by omega)]

theorem small_sub (hx : Small K (reading x)) (hy : Small K (reading y)) (hK : K ≤ 969) :
    Small (K + 2) (reading (x - y)) := by
  have hp := (reading_precise x).add (reading_precise y).neg
  have hs := Small.add (reading_precise x) (reading_precise y).neg hx hy.neg
  rwa [reading_sub, sub_eq_add_neg, stored_of_small hp hs (by omega)]

theorem smallOn_add (hx : SmallOn s K (reading x)) (hy : SmallOn s K (reading y)) (hK : K ≤ 969) :
    SmallOn s (K + 2) (reading (x + y)) := by
  rw [reading_add]
  exact (SmallOn.add (reading_precise x) (reading_precise y) hx hy).stored
    ((reading_precise x).add (reading_precise y)) (by omega)

theorem smallOn_sub (hx : SmallOn s K (reading x)) (hy : Small K (reading y)) (hK : K ≤ 969) :
    SmallOn s (K + 2) (reading (x - y)) := by
  rw [reading_sub, sub_eq_add_neg]
  exact (SmallOn.add (reading_precise x) (reading_precise y).neg hx (hy.neg.on s)).stored
    ((reading_precise x).add (reading_precise y).neg) (by omega)

theorem stored_ne_zero (hp : Precise u) (h : u ≠ .zero s) : stored u ≠ .zero s := by
  rcases u with t | _ | t | ⟨t, m, e, hm⟩
  · rw [stored_of_canonical (u := .infinity t) trivial]
    exact h
  · rw [stored_of_canonical (u := .notANumber) trivial]
    exact h
  · rw [stored_of_canonical (u := .zero t) trivial]
    exact h
  · rcases le_or_gt e 971 with he | he
    · rw [stored_of_small hp (K := e) le_rfl he]
      exact h
    · rw [stored_of_large hm he]
      nofun

theorem signed_reading_add (hx : Signed .positive (reading x)) (hy : Signed .positive (reading y)) :
    Signed .positive (reading (x + y)) := by
  rw [reading_add]
  exact (signed_add (reading_precise x) (reading_precise y) hx hy).stored

/-- No number is added to one without a minus to make minus zero. -/
theorem reading_add_ne (hx : Signed .positive (reading x)) (y : Float) : reading (x + y) ≠ .zero .negative :=
  stored_ne_zero ((reading_precise x).add (reading_precise y))
    (add_ne_negative_zero (reading_precise x) (reading_precise y) hx)

theorem isFinite_of_small (h : Small K u) : u.isFinite := by
  cases u with
  | finite | zero => rfl
  | infinity | notANumber => exact h.elim

theorem signed_reading_mul (hx : Signed .positive (reading x)) (hy : Signed .positive (reading y))
    (hfx : (reading x).isFinite) (hfy : (reading y).isFinite) : Signed .positive (reading (x * y)) := by
  have hmul := signed_mul hfx hfy
  rw [hx.1, hy.1] at hmul
  rw [reading_mul]
  exact hmul.stored

theorem nonneg_mul (hx : Nonneg (reading x)) (hy : Nonneg (reading y)) (hfx : (reading x).isFinite)
    (hfy : (reading y).isFinite) : Nonneg (reading (x * y)) := by
  rw [reading_mul]
  exact (hx.mul hy hfx hfy).stored

/-! ### Comparing with zero -/

theorem nonneg_of_le (h : 0.0 ≤ x) : Nonneg (reading x) := by
  have hle : (UnpackedFloat.zero .positive).le (reading x) = true := (le_iff_reading 0.0 x).mp h
  generalize reading x = u at hle
  rcases u with s | _ | s | ⟨s, m, e, hm⟩
  · cases s
    · exact absurd hle Bool.false_ne_true
    · exact Or.inr ⟨rfl, nofun⟩
  · exact absurd hle Bool.false_ne_true
  · exact nonneg_zero s
  · cases s
    · exact absurd hle Bool.false_ne_true
    · exact Or.inr ⟨rfl, nofun⟩

theorem nonneg_atLeastZero (hx : Small K (reading x)) :
    Nonneg (reading (Score.atLeastZero x)) ∧ Small K (reading (Score.atLeastZero x)) := by
  unfold Score.atLeastZero
  split
  · rename_i hle
    exact ⟨nonneg_of_le hle, hx⟩
  · exact ⟨nonneg_zero .positive, trivial⟩

/-! ### Quantities -/

theorem toFloat_small_signed (n : UInt64) : Small 12 (reading n.toFloat) ∧ Signed .positive (reading n.toFloat) := by
  have hrounds := rounds_normalize n.toNat (e := 0) (by norm_num)
  have hreading : reading n.toFloat = stored (normalize Format.binary64 n.toNat 0 .positive) := rfl
  generalize normalize Format.binary64 n.toNat 0 .positive = u at hrounds hreading
  have hboth : Small 12 u ∧ Signed .positive u := by
    cases hrounds with
    | zero => exact ⟨trivial, rfl, nofun⟩
    | @finite s m e' hm _ hsign hle =>
      have he : e' ≤ _ := hle 64 n.toNat_lt
      exact ⟨show e' ≤ 12 by omega, (hsign.resolve_left (by omega)).1, nofun⟩
  rwa [hreading, stored_of_small hrounds.precise hboth.1 (by norm_num)]

theorem small_ofQuantity (n : Int) : Small 12 (reading (Score.ofQuantity n)) := by
  have hsmall := (toFloat_small_signed (UInt64.ofNat n.natAbs)).1
  unfold Score.ofQuantity
  split
  · rw [reading_neg, stored_of_small (reading_precise _).neg hsmall.neg (by norm_num)]
    exact hsmall.neg
  · exact hsmall

theorem signed_ofQuantity {n : Int} (h : 0 ≤ n) : Signed .positive (reading (Score.ofQuantity n)) := by
  unfold Score.ofQuantity
  rw [if_neg (by omega)]
  exact (toFloat_small_signed _).2

/-- The score of two clients that exclude each other is lower than all that fall not too far. -/
theorem rank_exclusive_lt (h : SmallOn .negative 900 (reading x)) : Score.rank Score.exclusive < Score.rank x := by
  have hrank : Score.rank Score.exclusive = 2 ^ 52 := by decide +kernel
  rw [hrank, rank_eq]
  obtain ⟨hnan, hsmall⟩ := h
  have hcanonical := reading_canonical x
  generalize reading x = u at hnan hsmall hcanonical
  cases hs : signOf u with
  | positive =>
    show _ < 2 ^ 63 + size u
    omega
  | negative =>
    show _ < 2 ^ 63 - 1 - size u
    have hsize : size u < 2000 * 2 ^ 52 := by
      have hsmall := hsmall hs
      cases u with
      | finite s m e hm =>
        have he : e ≤ 900 := hsmall
        have hm := hcanonical.1
        have hlow := hcanonical.2.1
        show (e + 1074).toNat * 2 ^ 52 + m < _
        omega
      | infinity | notANumber => exact hsmall.elim
      | zero => simp [size]
    omega

end Double

end Fleet
