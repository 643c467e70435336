import Fleet.Proofs.Double.Reading

/-! Rounding to a double.

    A mantissa is first cut to as many digits as a double has, or filled up with zeros; then it is rounded, which may
    carry into one more digit, and then it is cut once more. What comes out has all its digits or the least exponent,
    and its exponent is at most one above the `target`. Rounding never overflows: that happens
    when the result is stored, and only if the exponent is too large. -/

namespace Fleet

namespace Double

open Float.Model (UnpackedFloat Format totalExponent)
open Float.Model.UnpackedFloat

variable {s : Sign} {m n : Nat} {e T : Int} {u : UnpackedFloat} {x : Float}

/-! ### The two cuts -/

theorem rounded_bounds (em : ExtendedMantissa) :
    em.mantissa ≤ em.roundedMantissa ∧ em.roundedMantissa ≤ em.mantissa + 1 := by
  obtain ⟨m, round, sticky⟩ := em
  unfold ExtendedMantissa.roundedMantissa ExtendedMantissa.accuracy
  cases round <;> cases sticky <;> simp only [Accuracy.roundToNearestEven] <;> omega

theorem mantissa_shiftRight (em : ExtendedMantissa) (n : Nat) : (em >>> n).mantissa = em.mantissa / 2 ^ n := by
  show (n.repeat ExtendedMantissa.shiftRightOne em).mantissa = _
  induction n with
  | zero => rw [Nat.pow_zero, Nat.div_one]; rfl
  | succ n ih =>
    show (n.repeat ExtendedMantissa.shiftRightOne em).mantissa / 2 = _
    rw [ih, Nat.div_div_eq_div_mul, Nat.pow_succ]

theorem targetExponent_eq (m : Nat) (e : Int) :
    Format.binary64.targetExponent (totalExponent m e) = max ((m.log2 : Int) + 1 + e - 53) (-1074) := rfl

theorem mantissa_ofMantissaAndAccuracy (m : Nat) : (ExtendedMantissa.ofMantissaAndAccuracy m .exact).mantissa = m := rfl

theorem finish_eq {r : Nat} (hr : 0 < r) (hle : r ≤ 2 ^ 53) (hT : -1074 ≤ T) (hfull : 2 ^ 52 ≤ r ∨ T = -1074) :
    ∃ m' e', (shiftToTargetExponent Format.binary64 r T .exact).1.mantissa = m' ∧
      (shiftToTargetExponent Format.binary64 r T .exact).2 = e' ∧ 0 < m' ∧ m' < 2 ^ 53 ∧ T ≤ e' ∧ e' ≤ T + 1 ∧
      (2 ^ 52 ≤ m' ∨ e' = -1074) := by
  simp only [shiftToTargetExponent, shiftToExponent, targetExponent_eq, mantissa_shiftRight,
    mantissa_ofMantissaAndAccuracy]
  rcases Nat.lt_or_eq_of_le hle with hlt | rfl
  · have hlog : r.log2 < 53 := (Nat.log2_lt (Nat.ne_of_gt hr)).mpr hlt
    have hshift : (max ((r.log2 : Int) + 1 + T - 53) (-1074) - T).toNat = 0 := by omega
    rw [hshift]
    exact ⟨r, T, by simp, by simp, hr, hlt, le_rfl, by omega, hfull⟩
  · have hlog : (2 ^ 53 : Nat).log2 = 53 := Nat.log2_two_pow
    have hshift : (max (((2 ^ 53 : Nat).log2 : Int) + 1 + T - 53) (-1074) - T).toNat = 1 := by
      rw [hlog]
      omega
    rw [hshift]
    exact ⟨2 ^ 52, T + 1, by norm_num, by norm_num, by norm_num, by norm_num, by omega, by omega, Or.inl le_rfl⟩

/-- The exponent that a double of this size is stored with. -/
def target (m : Nat) (e : Int) : Int := max ((m.log2 : Int) + 1 + e - 53) (-1074)

theorem log2_mul_two_pow (hm : 0 < m) (n : Nat) : (m * 2 ^ n).log2 = m.log2 + n := by
  have hpos : 0 < m * 2 ^ n := Nat.mul_pos hm (Nat.two_pow_pos n)
  refine (Nat.log2_eq_iff hpos.ne').mpr ⟨?_, ?_⟩
  · rw [Nat.pow_add]
    exact Nat.mul_le_mul_right _ (Nat.log2_self_le hm.ne')
  · rw [Nat.add_right_comm, Nat.pow_add]
    exact Nat.mul_lt_mul_of_pos_right Nat.lt_log2_self (Nat.two_pow_pos n)

theorem log2_div_two_pow (hm : 0 < m) (hn : n ≤ m.log2) : 0 < m / 2 ^ n ∧ (m / 2 ^ n).log2 = m.log2 - n := by
  have hle : 2 ^ n * 2 ^ (m.log2 - n) ≤ m := by
    rw [← Nat.pow_add, Nat.add_sub_cancel' hn]
    exact Nat.log2_self_le hm.ne'
  have hlt : m < 2 ^ n * 2 ^ (m.log2 - n + 1) := by
    rw [← Nat.pow_add, ← Nat.add_assoc, Nat.add_sub_cancel' hn]
    exact Nat.lt_log2_self
  have hdiv : 2 ^ (m.log2 - n) ≤ m / 2 ^ n := by
    rw [Nat.le_div_iff_mul_le (Nat.two_pow_pos n), Nat.mul_comm]
    exact hle
  have hpos : 0 < m / 2 ^ n := Nat.lt_of_lt_of_le (Nat.two_pow_pos _) hdiv
  exact ⟨hpos, (Nat.log2_eq_iff hpos.ne').mpr ⟨hdiv, Nat.div_lt_of_lt_mul hlt⟩⟩

theorem align_eq (hm : 0 < m) (he : -1074 ≤ e) :
    ∃ em, shiftToTargetExponent Format.binary64 (decreaseExponent m e (target m e)).1
        (decreaseExponent m e (target m e)).2 .exact = (em, target m e) ∧
      0 < em.mantissa ∧ em.mantissa < 2 ^ 53 ∧ (2 ^ 52 ≤ em.mantissa ∨ target m e = -1074) := by
  simp only [decreaseExponent, shiftToTargetExponent, shiftToExponent, targetExponent_eq, Nat.shiftLeft_eq,
    log2_mul_two_pow hm]
  have hT : target m e = max ((m.log2 : Int) + 1 + e - 53) (-1074) := rfl
  generalize target m e = T at hT
  refine ⟨_, Prod.ext rfl (show e - _ + _ = T by omega), ?_⟩
  rw [mantissa_shiftRight, mantissa_ofMantissaAndAccuracy]
  suffices hk : ∀ k : Nat, 0 < k → (k.log2 : Int) ≤ 52 → ((k.log2 : Int) = 52 ∨ T = -1074) →
      0 < k ∧ k < 2 ^ 53 ∧ (2 ^ 52 ≤ k ∨ T = -1074) by
    by_cases hle : e ≤ T
    · -- The mantissa is cut.
      have hd : (e - T).toNat = 0 := by omega
      rw [hd, Nat.pow_zero, Nat.mul_one]
      generalize hn : Int.toNat _ = n
      obtain ⟨hpos, hlog⟩ := log2_div_two_pow hm (show n ≤ m.log2 by omega)
      exact hk _ hpos (by omega) (by omega)
    · -- Zeros are put behind the mantissa.
      have hn : (max ((m.log2 + (e - T).toNat : Nat) + 1 + (e - (e - T).toNat) - 53 : Int) (-1074) -
          (e - (e - T).toNat)).toNat = 0 := by omega
      rw [hn, Nat.pow_zero, Nat.div_one]
      have hlog := log2_mul_two_pow hm (e - T).toNat
      exact hk _ (Nat.mul_pos hm (Nat.two_pow_pos _)) (by omega) (by omega)
  intro k hpos hle hfull
  refine ⟨hpos, (Nat.log2_lt hpos.ne').mp (by omega), hfull.imp_left fun h => ?_⟩
  exact (Nat.le_log2 hpos.ne').mp (by omega)

theorem round_eq (s : Sign) (hm : 0 < m) (he : -1074 ≤ e) :
    ∃ m' e' h, round Format.binary64 s m e = .finite s m' e' h ∧ m' < 2 ^ 53 ∧ -1074 ≤ e' ∧
      (2 ^ 52 ≤ m' ∨ e' = -1074) ∧ e' ≤ target m e + 1 := by
  obtain ⟨em, hem, hpos, hlt, hfull⟩ := align_eq hm he
  obtain ⟨hle, hsucc⟩ := rounded_bounds em
  have htarget : -1074 ≤ target m e := le_max_right _ _
  obtain ⟨m', e', hm', he', hpos', hlt', hlow, hhigh, hfull'⟩ := finish_eq (r := em.roundedMantissa)
    (Nat.lt_of_lt_of_le hpos hle) (by omega) htarget (hfull.imp_left fun h => Nat.le_trans h hle)
  refine ⟨m', e', hpos', ?_, hlt', by omega, hfull', hhigh⟩
  have hround : round Format.binary64 s m e = roundWithAccuracy Format.binary64 s
      (decreaseExponent m e (target m e)).1 (decreaseExponent m e (target m e)).2 .exact := rfl
  rw [hround, roundWithAccuracy]
  simp only [hem, hm', he', dif_neg hpos'.ne']

/-! ### Storing a result -/

theorem pack_finite (s : Sign) {m : Nat} (e : Int) (hm : 0 < m) :
    pack Format.binary64 (.finite s m e hm) =
      if 2048 ≤ (e + 1075).toNat + 1 then packedInfinity Format.binary64 s
      else if m.log2 + 1 = 53 then
        packComponents Format.binary64 s (BitVec.ofNat 11 (e + 1075).toNat) (BitVec.ofNat 52 m)
      else packComponents Format.binary64 s 0#11 (BitVec.ofNat 52 m) := by
  have hexp : e + (Format.binary64.exponentBias : Int) + (Format.binary64.mantissaBitsWithoutImplicit : Int) = e + 1075 := by
    show e + 1023 + 52 = _
    omega
  unfold pack
  simp only [hexp]
  rfl

theorem stored_infinity (s : Sign) : stored (.infinity s) = .infinity s := by
  show unpack Format.binary64 (packComponents Format.binary64 s (-1#11) 0#52) = _
  rw [unpack_packComponents, if_pos rfl, if_pos rfl]

theorem finite_congr {m' : Nat} {e' : Int} {hm : 0 < m} {hm' : 0 < m'} (h : m = m') (h' : e = e') :
    UnpackedFloat.finite s m e hm = .finite s m' e' hm' := by
  cases h
  cases h'
  rfl

theorem stored_of_canonical (h : Canonical u) : stored u = u := by
  rcases u with s | _ | s | ⟨s, m, e, hm⟩
  · exact stored_infinity s
  · show unpack Format.binary64 (packComponents Format.binary64 .positive (-1#11) _) = _
    rw [unpack_packComponents, if_pos rfl, if_neg (by decide)]
  · show unpack Format.binary64 (packComponents Format.binary64 s 0#11 0#52) = _
    rw [unpack_packComponents, if_neg (by decide), if_pos rfl, dif_pos rfl]
  · obtain ⟨hlt, hlow, hhigh, hfull⟩ := h
    have hlog : m.log2 < 53 := (Nat.log2_lt hm.ne').mpr hlt
    have hmant : (BitVec.ofNat 52 m).toNat = m % 2 ^ 52 := BitVec.toNat_ofNat ..
    unfold stored
    rw [pack_finite, if_neg (by omega)]
    split
    · have hle : 2 ^ 52 ≤ m := (Nat.le_log2 hm.ne').mp (by omega)
      have hexp : (BitVec.ofNat 11 (e + 1075).toNat).toNat = (e + 1075).toNat := by
        rw [BitVec.toNat_ofNat]
        omega
      have hne : ∀ b : BitVec 11, b.toNat ≠ (e + 1075).toNat → BitVec.ofNat 11 (e + 1075).toNat ≠ b := by
        rintro b hb rfl
        exact hb hexp
      rw [unpack_packComponents, if_neg (hne (-1#11) (show 2047 ≠ _ by omega)), if_neg (hne 0#11 (show 0 ≠ _ by omega))]
      exact finite_congr (by omega) (by omega)
    · have hlt' : m < 2 ^ 52 := (Nat.log2_lt hm.ne').mp (by omega)
      have hne : BitVec.ofNat 52 m ≠ 0#52 := fun h => by
        rw [h] at hmant
        simp at hmant
        omega
      rw [unpack_packComponents, if_neg (by decide), if_pos rfl, dif_neg hne]
      exact finite_congr (by omega) (by omega)

theorem stored_of_large (hm : 0 < m) (he : 972 ≤ e) : stored (.finite s m e hm) = .infinity s := by
  unfold stored
  rw [pack_finite, if_pos (by omega)]
  exact stored_infinity s

/-- The reading has a sign, and it is `s`. -/
def Signed (s : Sign) (u : UnpackedFloat) : Prop := signOf u = s ∧ u ≠ .notANumber

theorem plain_of_signed (h : Signed .positive (reading x)) : Plain (reading x) :=
  ⟨h.2, fun hzero => by
    rw [hzero] at h
    exact absurd h.1 nofun⟩

theorem signed_packComponents (s : Sign) {e : BitVec 11} (m : BitVec 52) (he : e ≠ -1#11) :
    Signed s (unpack Format.binary64 (packComponents Format.binary64 s e m)) := by
  rw [unpack_packComponents, if_neg he]
  split
  · split
    · exact ⟨rfl, nofun⟩
    · exact ⟨rfl, nofun⟩
  · exact ⟨rfl, nofun⟩

theorem Signed.stored (h : Signed s u) : Signed s (stored u) := by
  rcases u with s | _ | s | ⟨s, m, e, hm⟩
  · rwa [stored_of_canonical (u := .infinity s) trivial]
  · exact absurd rfl h.2
  · rwa [stored_of_canonical (u := .zero s) trivial]
  · obtain rfl : s = _ := h.1
    unfold Double.stored
    rw [pack_finite]
    split
    · exact Eq.subst (motive := Signed s) (stored_infinity s).symm ⟨rfl, nofun⟩
    · rename_i hexp
      split
      · refine signed_packComponents s _ fun h => ?_
        have := congrArg BitVec.toNat h
        rw [BitVec.toNat_ofNat] at this
        change _ = 2047 at this
        omega
      · exact signed_packComponents s _ (by decide)

end Double

end Fleet
