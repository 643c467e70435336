import Fleet.Neighbourhood.Score
import Mathlib

/-! What the bits of a double say.

    A double is read as an infinity, a zero, no number, or a mantissa with an exponent; of the last only the
    `Canonical` ones are read. The bits below the sign are the `size` of the reading, and sizes are in the order of
    the numbers. So the order of the doubles is that of their ranks, with one exception: the two zeros are equal, but
    have different ranks (`Plain`). -/

namespace Fleet

namespace Double

open Float.Model (UnpackedFloat Format)
open Float.Model.UnpackedFloat

/-- What a double stands for. -/
def reading (x : Float) : UnpackedFloat := x.toModel.unpack

/-- What is left of a result when it is stored as a double. -/
def stored (u : UnpackedFloat) : UnpackedFloat := unpack Format.binary64 (pack Format.binary64 u)

/-! ### Sign, exponent and mantissa -/

def signBit : Sign → Nat
  | .negative => 1
  | .positive => 0

theorem toNat_packComponents (s : Sign) (e : BitVec 11) (m : BitVec 52) :
    (packComponents Format.binary64 s e m).toNat = signBit s * 2 ^ 63 + e.toNat * 2 ^ 52 + m.toNat := by
  have hs : s.toBitVec.toNat = signBit s := by cases s <;> rfl
  show (s.toBitVec ++ e ++ m).toNat = _
  rw [BitVec.toNat_append, BitVec.toNat_append, ← Nat.shiftLeft_add_eq_or_of_lt e.isLt,
    ← Nat.shiftLeft_add_eq_or_of_lt m.isLt, Nat.shiftLeft_eq, Nat.shiftLeft_eq, hs]
  ring

theorem unpackSign_packComponents (s : Sign) (e : BitVec 11) (m : BitVec 52) :
    unpackSign (packComponents Format.binary64 s e m) = s.toBitVec := by
  show (s.toBitVec ++ e ++ m).extractLsb' 63 1 = s.toBitVec
  rw [BitVec.extractLsb'_append_eq_of_le (by decide), BitVec.extractLsb'_append_eq_of_le (by decide)]
  cases s <;> rfl

theorem exists_components (b : BitVec Format.binary64.numBits) :
    ∃ s e m, b = packComponents Format.binary64 s e m := by
  refine ⟨Sign.ofBitVec (unpackSign b), unpackExponent b, unpackMantissa b, BitVec.eq_of_toNat_eq ?_⟩
  have hsign : signBit (Sign.ofBitVec (unpackSign b)) = b.toNat / 2 ^ 63 := by
    have hb : b.toNat < 2 ^ 64 := b.isLt
    have hbit : (unpackSign b).toNat = b.toNat / 2 ^ 63 := by
      show (b.toNat >>> 63) % 2 ^ 1 = _
      rw [Nat.shiftRight_eq_div_pow]
      omega
    unfold Sign.ofBitVec
    split
    · rename_i hzero
      rw [hzero] at hbit
      exact hbit
    · rename_i hone
      have hne : (unpackSign b).toNat ≠ 0 := fun h => hone (BitVec.eq_of_toNat_eq h)
      show 1 = _
      omega
  have he : (unpackExponent b).toNat = b.toNat / 2 ^ 52 % 2 ^ 11 := by
    show (b.toNat >>> 52) % 2 ^ 11 = _
    rw [Nat.shiftRight_eq_div_pow]
  have hm : (unpackMantissa b).toNat = b.toNat % 2 ^ 52 := by
    show (b.toNat >>> 0) % 2 ^ 52 = _
    rw [Nat.shiftRight_zero]
  have hb : b.toNat < 2 ^ 64 := b.isLt
  rw [toNat_packComponents, hsign, he, hm]
  omega

theorem unpack_packComponents (s : Sign) (e : BitVec 11) (m : BitVec 52) :
    unpack Format.binary64 (packComponents Format.binary64 s e m) =
      if e = -1#11 then if m = 0#52 then .infinity s else .notANumber
      else if e = 0#11 then
        if h : m = 0#52 then .zero s
        else .finite s m.toNat (-1074) (by simpa [BitVec.toNat_pos, BitVec.pos_iff_ne_zero])
      else .finite s (2 ^ 52 + m.toNat) (e.toNat - 1075) (by omega) := by
  have hs : Sign.ofBitVec s.toBitVec = s := by cases s <;> rfl
  have hm : (1#1 ++ m).toNat = 2 ^ 52 + m.toNat := by
    rw [BitVec.toNat_append, ← Nat.shiftLeft_add_eq_or_of_lt m.isLt]
    rfl
  unfold unpack
  simp only [unpackMantissa_packComponents, unpackExponent_packComponents, unpackSign_packComponents, hs, hm]
  split
  · rfl
  · split
    · rename_i hzero
      rw [hzero]
      rfl
    · rfl

/-- A finite reading has the mantissa and the exponent that a double of its size is stored with. -/
def Canonical : UnpackedFloat → Prop
  | .finite _ m e _ => m < 2 ^ 53 ∧ -1074 ≤ e ∧ e ≤ 971 ∧ (2 ^ 52 ≤ m ∨ e = -1074)
  | _ => True

theorem unpack_canonical (b : BitVec Format.binary64.numBits) : Canonical (unpack Format.binary64 b) := by
  obtain ⟨s, e, m, rfl⟩ := exists_components b
  have hm : m.toNat < 2 ^ 52 := m.isLt
  have he : e.toNat < 2 ^ 11 := e.isLt
  rw [unpack_packComponents]
  split
  · split <;> trivial
  · rename_i htop
    have htop : e.toNat ≠ 2 ^ 11 - 1 := fun h => htop (BitVec.eq_of_toNat_eq h)
    split
    · split
      · trivial
      · exact ⟨by omega, by omega, by omega, Or.inr rfl⟩
    · rename_i hzero
      have hzero : e.toNat ≠ 0 := fun h => hzero (BitVec.eq_of_toNat_eq h)
      exact ⟨by omega, by omega, by omega, Or.inl (by omega)⟩

theorem reading_canonical (x : Float) : Canonical (reading x) := unpack_canonical _

/-! ### Ranks -/

/-- The place among the doubles of a size, below zero if the sign is negative. -/
def placed : Sign → Nat → Nat
  | .positive, size => 2 ^ 63 + size
  | .negative, size => 2 ^ 63 - 1 - size

/-- The bits of a reading without its sign. -/
def size : UnpackedFloat → Nat
  | .infinity _ => 2047 * 2 ^ 52
  | .notANumber => 2047 * 2 ^ 52 + 2 ^ 51
  | .zero _ => 0
  | .finite _ m e _ => (e + 1074).toNat * 2 ^ 52 + m

def signOf : UnpackedFloat → Sign
  | .infinity s | .zero s | .finite s _ _ _ => s
  | .notANumber => .positive

theorem toNat_packed {s : Sign} {e : BitVec 11} {m : BitVec 52}
    (hvalid : Format.binary64.Valid (packComponents Format.binary64 s e m)) :
    (packComponents Format.binary64 s e m).toNat =
      signBit (signOf (unpack Format.binary64 (packComponents Format.binary64 s e m))) * 2 ^ 63 +
        size (unpack Format.binary64 (packComponents Format.binary64 s e m)) := by
  have hnan := hvalid.eq_packedNaN
  simp only [unpackExponent_packComponents, unpackMantissa_packComponents] at hnan
  rw [unpack_packComponents]
  split
  · rename_i htop
    split
    · rename_i hzero
      rw [toNat_packComponents, htop, hzero]
      simp [signOf, size]
    · rename_i hm
      rw [hnan htop hm, packedNaN, toNat_packComponents]
      simp [signOf, size, signBit]
  · split
    · rename_i hzero
      split
      · rename_i hm
        rw [toNat_packComponents, hzero, hm]
        simp [signOf, size]
      · rw [toNat_packComponents, hzero]
        simp [signOf, size]
    · rename_i hzero
      have hzero : e.toNat ≠ 0 := fun h => hzero (BitVec.eq_of_toNat_eq h)
      rw [toNat_packComponents]
      show _ = signBit s * 2 ^ 63 + (((e.toNat : Int) - 1075 + 1074).toNat * 2 ^ 52 + (2 ^ 52 + m.toNat))
      omega

theorem toNat_toBits (x : Float) : x.toBits.toNat = signBit (signOf (reading x)) * 2 ^ 63 + size (reading x) := by
  have hvalid := x.toModel.valid
  show x.toModel.toBits.toBitVec.toNat = signBit (signOf (unpack Format.binary64 x.toModel.toBits.toBitVec)) * 2 ^ 63 +
    size (unpack Format.binary64 x.toModel.toBits.toBitVec)
  generalize x.toModel.toBits.toBitVec = b at hvalid
  obtain ⟨s, e, m, rfl⟩ := exists_components b
  exact toNat_packed hvalid

theorem size_lt {u : UnpackedFloat} (h : Canonical u) : size u < 2 ^ 63 := by
  cases u with
  | infinity | notANumber | zero => simp [size]
  | finite s m e hm =>
    obtain ⟨hm, hlow, hhigh, -⟩ := h
    show (e + 1074).toNat * 2 ^ 52 + m < _
    omega

theorem rank_eq (x : Float) : Score.rank x = placed (signOf (reading x)) (size (reading x)) := by
  have hbits := toNat_toBits x
  have hsize := size_lt (reading_canonical x)
  unfold Score.rank placed
  generalize signOf (reading x) = s at hbits
  cases s with
  | positive =>
    have hbits : x.toBits.toNat = size (reading x) := by rw [hbits, signBit, Nat.zero_mul, Nat.zero_add]
    simp only [hbits]
    rw [if_pos (by omega)]
    omega
  | negative =>
    have hbits : x.toBits.toNat = 2 ^ 63 + size (reading x) := by rw [hbits, signBit, Nat.one_mul]
    simp only [hbits]
    rw [if_neg (by omega)]
    omega

theorem eq_of_rank_eq {x y : Float} (h : Score.rank x = Score.rank y) : x = y := by
  have hx := x.toBits.toNat_lt
  have hy := y.toBits.toNat_lt
  have hbits : x.toBits.toNat = y.toBits.toNat := by
    simp only [Score.rank] at h
    split at h <;> split at h <;> omega
  obtain ⟨⟨bx, _⟩⟩ := x
  obtain ⟨⟨by', _⟩⟩ := y
  have : bx = by' := UInt64.toNat_inj.mp hbits
  subst this
  rfl

/-! ### The order -/

/-- A reading that is a number and not minus zero. -/
def Plain (u : UnpackedFloat) : Prop := u ≠ .notANumber ∧ u ≠ .zero .negative

theorem compare_size {s s' : Sign} {m m' : Nat} {e e' : Int} {hm : 0 < m} {hm' : 0 < m'}
    (h : Canonical (.finite s m e hm)) (h' : Canonical (.finite s' m' e' hm')) :
    (compare e e').then (compare m m') = compare (size (.finite s m e hm)) (size (.finite s' m' e' hm')) := by
  obtain ⟨hhigh, hlow, -, hfull⟩ := h
  obtain ⟨hhigh', hlow', -, hfull'⟩ := h'
  show _ = compare ((e + 1074).toNat * 2 ^ 52 + m) ((e' + 1074).toNat * 2 ^ 52 + m')
  rcases lt_trichotomy e e' with hlt | rfl | hgt
  · have hsize : (e + 1074).toNat * 2 ^ 52 + m < (e' + 1074).toNat * 2 ^ 52 + m' := by omega
    rw [compare_lt_iff_lt.mpr hlt, compare_lt_iff_lt.mpr hsize]
    rfl
  · rw [compare_eq_iff_eq.mpr (rfl : e = e)]
    show compare m m' = _
    rcases lt_trichotomy m m' with hlt | rfl | hgt
    · rw [compare_lt_iff_lt.mpr hlt, compare_lt_iff_lt.mpr (by omega)]
    · rw [compare_eq_iff_eq.mpr rfl, compare_eq_iff_eq.mpr rfl]
    · rw [compare_gt_iff_gt.mpr hgt, compare_gt_iff_gt.mpr (by omega)]
  · have hsize : (e' + 1074).toNat * 2 ^ 52 + m' < (e + 1074).toNat * 2 ^ 52 + m := by omega
    rw [compare_gt_iff_gt.mpr hgt, compare_gt_iff_gt.mpr hsize]
    rfl

theorem size_finite_pos {s : Sign} {m : Nat} {e : Int} (hm : 0 < m) : 0 < size (.finite s m e hm) := Nat.add_pos_right _ hm

theorem size_finite_lt {s : Sign} {m : Nat} {e : Int} {hm : 0 < m} (h : Canonical (.finite s m e hm)) :
    size (.finite s m e hm) < 2047 * 2 ^ 52 := by
  obtain ⟨hm, hlow, hhigh, -⟩ := h
  show (e + 1074).toNat * 2 ^ 52 + m < _
  omega

/-- What comparing two sizes says of doubles with the same sign. -/
def directed : Sign → Ordering → Ordering
  | .positive, o => o
  | .negative, o => o.swap

theorem compare_same_sign {u v : UnpackedFloat} (hu : Canonical u) (hv : Canonical v) (hpu : Plain u) (hpv : Plain v)
    (hsign : signOf v = signOf u) : u.compare v = some (directed (signOf u) (compare (size u) (size v))) := by
  rcases u with s | _ | s | ⟨s, m, e, hm⟩
  · rcases v with s' | _ | s' | ⟨s', m', e', hm'⟩
    · obtain rfl : s' = s := hsign
      rw [compare_eq_iff_eq.mpr (rfl : size (.infinity s') = size (.infinity s'))]
      cases s' <;> rfl
    · exact absurd rfl hpv.1
    · obtain rfl : s' = s := hsign
      cases s' <;> rfl
    · obtain rfl : s' = s := hsign
      rw [compare_gt_iff_gt.mpr (show size (.infinity s') > _ from size_finite_lt hv)]
      cases s' <;> rfl
  · exact absurd rfl hpu.1
  · rcases v with s' | _ | s' | ⟨s', m', e', hm'⟩
    · obtain rfl : s' = s := hsign
      cases s' <;> rfl
    · exact absurd rfl hpv.1
    · obtain rfl : s' = s := hsign
      cases s' <;> rfl
    · obtain rfl : s' = s := hsign
      rw [compare_lt_iff_lt.mpr (show size (.zero s') < _ from size_finite_pos hm')]
      cases s' <;> rfl
  · rcases v with s' | _ | s' | ⟨s', m', e', hm'⟩
    · obtain rfl : s' = s := hsign
      rw [compare_lt_iff_lt.mpr (show _ < size (.infinity s') from size_finite_lt hu)]
      cases s' <;> rfl
    · exact absurd rfl hpv.1
    · obtain rfl : s' = s := hsign
      rw [compare_gt_iff_gt.mpr (show _ > size (.zero s') from size_finite_pos hm)]
      cases s' <;> rfl
    · obtain rfl : s' = s := hsign
      rw [← compare_size hu hv]
      cases s' <;> rfl

theorem compare_negative_positive {u v : UnpackedFloat} (hpu : Plain u) (hpv : Plain v) (hu : signOf u = .negative)
    (hv : signOf v = .positive) : u.compare v = some .lt ∧ v.compare u = some .gt := by
  rcases u with s | _ | s | ⟨s, m, e, hm⟩
  · obtain rfl : s = .negative := hu
    rcases v with s' | _ | s' | ⟨s', m', e', hm'⟩
    · obtain rfl : s' = .positive := hv
      exact ⟨rfl, rfl⟩
    · exact absurd rfl hpv.1
    · exact ⟨rfl, rfl⟩
    · exact ⟨rfl, by cases s' <;> rfl⟩
  · exact absurd rfl hpu.1
  · exact absurd (congrArg UnpackedFloat.zero hu) hpu.2
  · obtain rfl : s = .negative := hu
    rcases v with s' | _ | s' | ⟨s', m', e', hm'⟩
    · obtain rfl : s' = .positive := hv
      exact ⟨rfl, rfl⟩
    · exact absurd rfl hpv.1
    · exact ⟨rfl, rfl⟩
    · obtain rfl : s' = .positive := hv
      exact ⟨rfl, rfl⟩

/-- The place among all doubles that a reading gives. -/
def place (u : UnpackedFloat) : Nat := placed (signOf u) (size u)

theorem placed_negative_lt (k l : Nat) : placed .negative k < placed .positive l := by
  show 2 ^ 63 - 1 - k < 2 ^ 63 + l
  omega

theorem compare_placed (s : Sign) {k l : Nat} (hk : k < 2 ^ 63) (hl : l < 2 ^ 63) :
    compare (placed s k) (placed s l) = directed s (compare k l) := by
  cases s with
  | positive =>
    show compare (2 ^ 63 + k) (2 ^ 63 + l) = compare k l
    rcases lt_trichotomy k l with h | rfl | h
    · rw [compare_lt_iff_lt.mpr h, compare_lt_iff_lt.mpr (by omega)]
    · rw [compare_eq_iff_eq.mpr rfl, compare_eq_iff_eq.mpr rfl]
    · rw [compare_gt_iff_gt.mpr h, compare_gt_iff_gt.mpr (by omega)]
  | negative =>
    show compare (2 ^ 63 - 1 - k) (2 ^ 63 - 1 - l) = (compare k l).swap
    rcases lt_trichotomy k l with h | rfl | h
    · rw [compare_lt_iff_lt.mpr h, compare_gt_iff_gt.mpr (by omega)]
      rfl
    · rw [compare_eq_iff_eq.mpr rfl, compare_eq_iff_eq.mpr rfl]
      rfl
    · rw [compare_gt_iff_gt.mpr h, compare_lt_iff_lt.mpr (by omega)]
      rfl

theorem compare_eq {u v : UnpackedFloat} (hu : Canonical u) (hv : Canonical v) (hpu : Plain u) (hpv : Plain v) :
    u.compare v = some (compare (place u) (place v)) := by
  unfold place
  cases hsu : signOf u with
  | negative =>
    cases hsv : signOf v with
    | negative => rw [compare_same_sign hu hv hpu hpv (hsv.trans hsu.symm), hsu, compare_placed _ (size_lt hu) (size_lt hv)]
    | positive =>
      rw [(compare_negative_positive hpu hpv hsu hsv).1, compare_lt_iff_lt.mpr (placed_negative_lt _ _)]
  | positive =>
    cases hsv : signOf v with
    | negative =>
      rw [(compare_negative_positive hpv hpu hsv hsu).2, compare_gt_iff_gt.mpr (placed_negative_lt _ _)]
    | positive => rw [compare_same_sign hu hv hpu hpv (hsv.trans hsu.symm), hsu, compare_placed _ (size_lt hu) (size_lt hv)]

theorem lt_iff_reading (x y : Float) : x < y ↔ (reading x).lt (reading y) = true := decide_eq_true_iff

theorem le_iff_reading (x y : Float) : x ≤ y ↔ (reading x).le (reading y) = true := decide_eq_true_iff

theorem lt_iff {x y : Float} (hx : Plain (reading x)) (hy : Plain (reading y)) :
    x < y ↔ Score.rank x < Score.rank y := by
  rw [lt_iff_reading, UnpackedFloat.lt, compare_eq (reading_canonical x) (reading_canonical y) hx hy, rank_eq, rank_eq,
    ← compare_lt_iff_lt]
  simp [place]

theorem le_iff {x y : Float} (hx : Plain (reading x)) (hy : Plain (reading y)) :
    x ≤ y ↔ Score.rank x ≤ Score.rank y := by
  rw [le_iff_reading, UnpackedFloat.le, compare_eq (reading_canonical x) (reading_canonical y) hx hy, rank_eq, rank_eq,
    ← compare_le_iff_le]
  exact Ordering.isLE_iff_ne_gt

/-! ### The lowest of some scores -/

variable {A : Set Float} {x y : Float}

theorem isLeast_singleton (hx : Plain (reading x)) : IsLeast {x} x :=
  ⟨rfl, fun y hy => by
    obtain rfl : y = x := hy
    exact (le_iff hx hx).mpr le_rfl⟩

theorem isLeast_lower (hA : ∀ a ∈ A, Plain (reading a)) (hy : Plain (reading y)) (h : IsLeast A x) :
    IsLeast (insert y A) (Score.lower x y) := by
  have hx := hA x h.1
  unfold Score.lower
  split
  · rename_i hlt
    refine ⟨Set.mem_insert y A, Set.forall_mem_insert.mpr ⟨(le_iff hy hy).mpr le_rfl, fun a ha => ?_⟩⟩
    exact (le_iff hy (hA a ha)).mpr (((lt_iff hy hx).mp hlt).le.trans ((le_iff hx (hA a ha)).mp (h.2 ha)))
  · rename_i hnot
    refine ⟨Set.mem_insert_of_mem y h.1, Set.forall_mem_insert.mpr ⟨?_, fun a ha => h.2 ha⟩⟩
    exact (le_iff hx hy).mpr (Nat.not_lt.mp fun hlt => hnot ((lt_iff hy hx).mpr hlt))

theorem minimum_eq_lower (hx : Plain (reading x)) (y : Float) : Score.minimum x y = Score.lower x y := by
  have hnumber : x.isNaN = false := by
    show (reading x).isNaN = false
    obtain ⟨hne, -⟩ := hx
    cases hu : reading x with
    | notANumber => exact absurd hu hne
    | infinity => rfl
    | zero => rfl
    | finite => rfl
  rw [Score.minimum, hnumber, if_neg Bool.false_ne_true]

theorem isLeast_minimum (hA : ∀ a ∈ A, Plain (reading a)) (hy : Plain (reading y)) (h : IsLeast A x) :
    IsLeast (insert y A) (Score.minimum x y) := by
  rw [minimum_eq_lower (hA x h.1)]
  exact isLeast_lower hA hy h

theorem isLeast_unique (hA : ∀ a ∈ A, Plain (reading a)) (hx : IsLeast A x) (hy : IsLeast A y) : x = y :=
  eq_of_rank_eq (Nat.le_antisymm ((le_iff (hA x hx.1) (hA y hy.1)).mp (hx.2 hy.1))
    ((le_iff (hA y hy.1) (hA x hx.1)).mp (hy.2 hx.1)))

theorem plain_never : Plain (reading Score.never) := ⟨nofun, nofun⟩

theorem le_never (hx : Plain (reading x)) : x ≤ Score.never := by
  have hrank : Score.rank Score.never = 2 ^ 63 + 2047 * 2 ^ 52 := by decide +kernel
  rw [le_iff hx plain_never, hrank, rank_eq]
  have hcanonical := reading_canonical x
  generalize reading x = u at hx hcanonical
  have hsize : size u ≤ 2047 * 2 ^ 52 := by
    cases u with
    | infinity => exact le_rfl
    | notANumber => exact absurd rfl hx.1
    | zero => simp [size]
    | finite => exact (size_finite_lt hcanonical).le
  cases signOf u with
  | positive =>
    show 2 ^ 63 + size u ≤ _
    omega
  | negative =>
    show 2 ^ 63 - 1 - size u ≤ _
    omega

/-- A score that never counts is not the lowest one, unless all others never count either. -/
theorem isLeast_of_insert_never (hA : ∀ a ∈ A, Plain (reading a)) (hne : A.Nonempty)
    (h : IsLeast (insert Score.never A) x) : IsLeast A x := by
  refine ⟨?_, fun a ha => h.2 (Set.mem_insert_of_mem _ ha)⟩
  rcases h.1 with rfl | hx
  · obtain ⟨a, ha⟩ := hne
    have hle := (le_iff plain_never (hA a ha)).mp (h.2 (Set.mem_insert_of_mem _ ha))
    have hge := (le_iff (hA a ha) plain_never).mp (le_never (hA a ha))
    rwa [eq_of_rank_eq (Nat.le_antisymm hle hge)]
  · exact hx

end Double

end Fleet
