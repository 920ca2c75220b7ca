import MipsCore.Lib.Rounding

/-! # Conversion between the formats

The synthesisable branches of `exec.sv` for `CVT_SP_DP` and `CVT_DP_SP`: the exponent is biased
anew, and the fraction is padded or cut.
-/
namespace MipsCore
open BinaryFormat NearestEven

/-- The result of `CVT_SP_DP`. -/
def cvtSpDp (x : BitVec single.W) : BitVec double.W :=
  pack (f := double) (sign x) (896#11 + (exp x).setWidth 11) (frac x ++ 0#29)

/-- `t_cvt_dp_sp_exp` -/
def cvtDpSpExp (x : BitVec double.W) : BitVec 11 := (exp x : BitVec 11) - 896#11
/-- `t_cvt_dp_sp` -/
def cvtDpSp (x : BitVec double.W) : BitVec single.W :=
  pack (f := single) (sign x) ((cvtDpSpExp x).setWidth 8) ((frac x).extractLsb' 29 23)

/-- What is cut from the fraction is less than half a unit, or half of one behind an even bit. -/
def CutRounds (x : BitVec double.W) : Prop :=
  2 * ((frac x).toNat % 2 ^ 29) < 2 ^ 29 ∨
    2 * ((frac x).toNat % 2 ^ 29) = 2 ^ 29 ∧ (frac x).toNat / 2 ^ 29 % 2 = 0

instance (x : BitVec double.W) : Decidable (CutRounds x) := inferInstanceAs (Decidable (_ ∨ _))

theorem bias_single : single.bias = 127 := by decide
theorem bias_double : double.bias = 1023 := by decide
theorem F_single : single.F = 23 := rfl
theorem F_double : double.F = 52 := rfl

/-! ## Single to double -/

theorem toNat_exp_cvtSpDp (x : BitVec single.W) :
    (exp (cvtSpDp x)).toNat = 896 + (exp x).toNat := by
  have hlt : (exp x).toNat < 2 ^ 8 := (exp x).isLt
  rw [cvtSpDp, exp_pack, BitVec.toNat_add, BitVec.toNat_setWidth, BitVec.toNat_ofNat]
  change (896 % 2 ^ 11 + (exp x).toNat % 2 ^ 11) % 2 ^ 11 = _
  omega

theorem toNat_frac_cvtSpDp (x : BitVec single.W) :
    (frac (cvtSpDp x)).toNat = (frac x).toNat * 2 ^ 29 := by
  rw [cvtSpDp, frac_pack]
  exact (BitVec.toNat_append ..).trans (by simp [Nat.shiftLeft_eq])

/-- The result always has a leading one. -/
theorem isNormal_cvtSpDp (x : BitVec single.W) : IsNormal (cvtSpDp x) := by
  have he := toNat_exp_cvtSpDp x
  have hlt : (exp x).toNat < 2 ^ 8 := (exp x).isLt
  refine ⟨fun h => ?_, fun h => ?_⟩ <;> rw [h] at he <;> revert he
  · change (0 : ℕ) = _ → _
    omega
  · change 2047 = _ → _
    omega

theorem value_cvtSpDp (x : BitVec single.W) :
    value (cvtSpDp x) =
      signed (sign x) ((2 ^ 23 + (frac x).toNat : ℕ) * 2 ^ (((exp x).toNat : ℤ) - 127 - 23)) := by
  have hs : sign (cvtSpDp x) = sign x := by rw [cvtSpDp, sign_pack]
  rw [value_of_normal (isNormal_cvtSpDp x), hs, sig_of_normal (isNormal_cvtSpDp x),
    toNat_frac_cvtSpDp, toNat_exp_cvtSpDp, bias_double, F_double]
  congr 1
  rw [show ((896 + (exp x).toNat : ℕ) : ℤ) - (1023 : ℕ) - (52 : ℕ) =
    (((exp x).toNat : ℤ) - 127 - 23) + (-29) by push_cast; ring, zpow_add₀ two_ne_zero]
  push_cast
  ring

/-- A finite single keeps its value just when it has an exponent. -/
theorem value_cvtSpDp_iff {x : BitVec single.W} (hx : IsFinite x) :
    value (cvtSpDp x) = value x ↔ exp x ≠ 0 := by
  rw [value_cvtSpDp]
  by_cases he : exp x = 0
  · refine iff_of_false (fun h => ?_) (not_not.mpr he)
    have hu : ulp x = -149 := by
      rw [ulp, he, bias_single, F_single]
      rfl
    have hs : sig x = (frac x).toNat := by rw [sig, if_pos he, Nat.zero_add]
    have hlt : (frac x).toNat < 2 ^ 23 := (frac x).isLt
    rw [value, signed_inj, hs, hu, he, show (((0 : BitVec 8).toNat : ℕ) : ℤ) - 127 - 23 =
      -149 + -1 by decide, zpow_add₀ two_ne_zero, mul_comm ((2 : ℝ) ^ (-149 : ℤ)), ← mul_assoc] at h
    have h := mul_right_cancel₀ (zpow_pos two_pos _).ne' h
    rw [zpow_neg, zpow_one, ← div_eq_mul_inv, div_eq_iff two_ne_zero] at h
    have h : 2 ^ 23 + (frac x).toNat = (frac x).toNat * 2 := by exact_mod_cast h
    omega
  · refine iff_of_true ?_ he
    rw [value_of_normal ⟨he, hx⟩, sig_of_normal ⟨he, hx⟩, bias_single]
    change _ = signed (sign x) (((2 ^ 23 + (frac x).toNat : ℕ) : ℝ) *
      2 ^ (((exp x).toNat : ℤ) - (127 : ℕ) - (23 : ℕ)))
    push_cast
    rfl

/-! ## Double to single -/

/-- The doubles whose magnitude is in the range of the normal singles have their exponents. -/
theorem exp_of_inNormalRange {x : BitVec double.W} (hx : IsFinite x)
    (h : InNormalRange single (value x)) :
    IsNormal x ∧ 897 ≤ (exp x).toNat ∧ (exp x).toNat ≤ 1150 ∧
      ((exp x).toNat = 1150 → sig x ≤ (2 ^ 24 - 1) * 2 ^ 29) := by
  obtain ⟨hlo, hhi⟩ := h
  have hmin : single.minUlp = -149 := by
    rw [minUlp, bias_single]
    rfl
  have hs : (sig x : ℝ) < 2 ^ 53 := by exact_mod_cast (sig_lt x : sig x < 2 ^ 53)
  have hu : ulp x = max ((exp x).toNat : ℤ) 1 - 1075 := by
    rw [ulp, bias_double]
    change ((max (exp x).toNat 1 : ℕ) : ℤ) - (1023 : ℕ) - (52 : ℕ) = _
    omega
  rw [value, abs_signed, abs_of_nonneg (by positivity)] at hlo hhi
  rw [hmin, hu] at hlo
  rw [bias_single, hu] at hhi
  have hge : -126 < max ((exp x).toNat : ℤ) 1 - 1022 := by
    refine (zpow_lt_zpow_iff_right₀ (one_lt_two : (1 : ℝ) < 2)).mp ?_
    calc (2 : ℝ) ^ (-126 : ℤ) = 2 ^ 23 * 2 ^ (-149 : ℤ) := by norm_num
      _ ≤ sig x * 2 ^ (max ((exp x).toNat : ℤ) 1 - 1075) := hlo
      _ < 2 ^ 53 * 2 ^ (max ((exp x).toNat : ℤ) 1 - 1075) :=
        mul_lt_mul_of_pos_right hs (zpow_pos two_pos _)
      _ = 2 ^ (max ((exp x).toNat : ℤ) 1 - 1022) := by
        rw [← zpow_natCast, ← zpow_add₀ two_ne_zero]
        congr 1
        push_cast
        ring
  have hne : exp x ≠ 0 := by
    intro h0
    rw [h0] at hge
    revert hge
    decide
  have hnorm : IsNormal x := ⟨hne, hx⟩
  have hsig := sig_of_normal hnorm
  have hsge : (2 : ℝ) ^ 52 ≤ sig x := by exact_mod_cast (by rw [hsig]; exact Nat.le_add_right _ _)
  have hmax : max ((exp x).toNat : ℤ) 1 = (exp x).toNat := by
    have := exp_pos_of_normal hnorm
    omega
  rw [hmax] at hge hhi
  have hhi' : (sig x : ℝ) * 2 ^ (((exp x).toNat : ℤ) - 1075) ≤ (2 ^ 24 - 1) * 2 ^ (104 : ℤ) := hhi
  have hlt : ((exp x).toNat : ℤ) - 1023 < 128 := by
    refine (zpow_lt_zpow_iff_right₀ (one_lt_two : (1 : ℝ) < 2)).mp ?_
    calc (2 : ℝ) ^ (((exp x).toNat : ℤ) - 1023) = 2 ^ 52 * 2 ^ (((exp x).toNat : ℤ) - 1075) := by
          rw [← zpow_natCast, ← zpow_add₀ two_ne_zero]
          congr 1
          push_cast
          ring
      _ ≤ sig x * 2 ^ (((exp x).toNat : ℤ) - 1075) :=
        mul_le_mul_of_nonneg_right hsge (zpow_pos two_pos _).le
      _ ≤ (2 ^ 24 - 1) * 2 ^ (104 : ℤ) := hhi'
      _ < 2 ^ (128 : ℤ) := by norm_num
  refine ⟨hnorm, by omega, by omega, fun he => ?_⟩
  rw [he, show ((1150 : ℕ) : ℤ) - 1075 = 75 by norm_num,
    show (2 : ℝ) ^ (104 : ℤ) = 2 ^ 29 * 2 ^ (75 : ℤ) by norm_num, ← mul_assoc] at hhi'
  have hle := le_of_mul_le_mul_right hhi' (zpow_pos two_pos _)
  have hle : (sig x : ℝ) ≤ (((2 ^ 24 - 1) * 2 ^ 29 : ℕ) : ℝ) := by
    norm_num at hle ⊢
    linarith
  exact_mod_cast hle

theorem normalised_sig {x : BitVec double.W} (h : IsNormal x) :
    single.Normalised (sig x) (2 ^ 29) := by
  have hlt : sig x < 2 ^ 53 := sig_lt x
  have hge : sig x = 2 ^ 52 + (frac x).toNat := sig_of_normal h
  refine ⟨by decide, ?_, ?_⟩
  · change 2 ^ 23 * 2 ^ 29 ≤ _
    omega
  · change _ < 2 ^ 24 * 2 ^ 29
    omega

/-- In that range the bits that remain are those of the cut significand. -/
theorem cvtDpSp_eq {x : BitVec double.W} (h : IsNormal x) (h1 : 896 ≤ (exp x).toNat) :
    cvtDpSp x = encode single (sign x) ((exp x).toNat - 896) (sig x / 2 ^ 29) := by
  have hlt : (exp x).toNat < 2 ^ 11 := (exp x).isLt
  have hm : (frac x).toNat < 2 ^ 52 := (frac x).isLt
  have hge : sig x = 2 ^ 52 + (frac x).toNat := sig_of_normal h
  have he : (cvtDpSpExp x).toNat = (exp x).toNat - 896 := by
    rw [cvtDpSpExp]
    exact BitVec.toNat_sub_of_le (by rw [BitVec.le_def]; exact h1)
  refine congrArg₂ (pack (sign x)) (BitVec.eq_of_toNat_eq ?_) (BitVec.eq_of_toNat_eq ?_)
  · rw [BitVec.toNat_setWidth, he, BitVec.toNat_ofNat]
  · rw [BitVec.extractLsb'_toNat, BitVec.toNat_ofNat, Nat.shiftRight_eq_div_pow, hge]
    omega

/-- In that range the cut is the rounding just when less than half is cut, or half of it behind an
even bit. -/
theorem roundsTo_cvtDpSp {x : BitVec double.W} (hx : IsFinite x)
    (h : InNormalRange single (value x)) : RoundsTo (value x) (cvtDpSp x) ↔ CutRounds x := by
  obtain ⟨hnorm, h1, h2, htop⟩ := exp_of_inNormalRange hx h
  have hn := normalised_sig hnorm
  have hge : sig x = 2 ^ 52 + (frac x).toNat := sig_of_normal hnorm
  have hlt : sig x < 2 ^ 53 := sig_lt x
  have hval : value x = signed (sign x) ((sig x : ℝ) / (2 ^ 29 : ℕ) *
      2 ^ ((((exp x).toNat - 896 : ℕ) : ℤ) - single.bias - single.F)) := by
    rw [value_of_normal hnorm, bias_double, bias_single]
    congr 1
    change (sig x : ℝ) * 2 ^ (((exp x).toNat : ℤ) - (1023 : ℕ) - (52 : ℕ)) =
      (sig x : ℝ) / (2 ^ 29 : ℕ) * 2 ^ ((((exp x).toNat - 896 : ℕ) : ℤ) - (127 : ℕ) - (23 : ℕ))
    rw [show (((exp x).toNat - 896 : ℕ) : ℤ) - (127 : ℕ) - (23 : ℕ) =
      (((exp x).toNat : ℤ) - (1023 : ℕ) - (52 : ℕ)) + 29 by omega, zpow_add₀ two_ne_zero]
    push_cast
    field_simp
    norm_num
  have hmax : (exp x).toNat - 896 < 2 * single.bias ∨ (exp x).toNat - 896 = 2 * single.bias ∧
      nearestEven (sig x) (2 ^ 29) < 2 ^ (single.F + 1) := by
    rw [bias_single]
    rcases Nat.lt_or_eq_of_le h2 with hlt | heq
    · exact Or.inl (by omega)
    · refine Or.inr ⟨by omega, ?_⟩
      change _ < 2 ^ 24
      rcases Nat.lt_or_eq_of_le (htop heq) with hlt | heq
      · have := nearestEven_le_of_lt_mul (by decide) hlt
        omega
      · rw [heq, nearestEven_mul _ (by decide)]
        decide
  have hc : sig x / 2 ^ 29 / 2 ^ (single.F + 1) = 0 := by
    change sig x / 2 ^ 29 / 2 ^ 24 = 0
    omega
  have henc : cvtDpSp x = encode single (sign x)
      ((exp x).toNat - 896 + sig x / 2 ^ 29 / 2 ^ (single.F + 1)) (sig x / 2 ^ 29) := by
    rw [hc, Nat.add_zero, cvtDpSp_eq hnorm (by omega)]
  rw [henc, hval, hn.roundsTo_encode (hn.roundsToNormal (by omega) hmax) (by
    change 2 ^ 23 ≤ _
    omega) (by
    change _ ≤ 2 ^ 24
    omega), if_neg (by omega), eq_comm, nearestEven_eq_div, CutRounds]
  omega

/-- A zero becomes a two. -/
theorem not_roundsTo_cvtDpSp_zero {x : BitVec double.W} (hx : value x = 0) :
    ¬RoundsTo (value x) (cvtDpSp x) := by
  intro h
  have hsig : sig x = 0 := by
    have habs := congrArg (fun r => |r|) hx
    rw [value, abs_signed, abs_zero, abs_eq_zero] at habs
    rcases mul_eq_zero.mp habs with h0 | h0
    · exact_mod_cast h0
    · exact absurd h0 (zpow_pos two_pos _).ne'
  have he : exp x = 0 := by
    by_contra hne
    rw [sig, if_neg hne] at hsig
    have := Nat.two_pow_pos double.F
    omega
  have hv : value (cvtDpSp x) = 0 := by
    have h0 := h.nearest 0 ⟨0, single.minUlp, by decide, le_rfl, by simp⟩
    rwa [hx, sub_zero, abs_zero, zero_sub, abs_neg, abs_nonpos_iff] at h0
  have hexp : exp (cvtDpSp x) = 128#8 := by
    rw [cvtDpSp, exp_pack, cvtDpSpExp, he]
    decide
  have hnorm : IsNormal (cvtDpSp x) := by
    rw [IsNormal, hexp]
    decide
  have hpos := le_abs_value_of_normal hnorm
  rw [hv, abs_zero] at hpos
  exact absurd hpos (not_le.mpr (by positivity))

/-- `CVT.D.S` keeps the value of just the finite singles that have an exponent, and `CVT.S.D`
rounds just the doubles of the normal range whose fraction can be cut. -/
theorem cvt_iff (x : BitVec single.W) (hx : IsFinite x) (y : BitVec double.W) (hy : IsFinite y)
    (hr : value y = 0 ∨ InNormalRange single (value y)) :
    (value (cvtSpDp x) = value x ↔ exp x ≠ 0) ∧
      (RoundsTo (value y) (cvtDpSp y) ↔ value y ≠ 0 ∧ CutRounds y) := by
  refine ⟨value_cvtSpDp_iff hx, ?_⟩
  by_cases h0 : value y = 0
  · exact iff_of_false (not_roundsTo_cvtDpSp_zero h0) fun hc => hc.1 h0
  · rw [roundsTo_cvtDpSp hy (hr.resolve_left h0)]
    exact ⟨fun hc => ⟨h0, hc⟩, And.right⟩

/-- Both keep a one. -/
theorem cvt_iff_one :
    let x : BitVec single.W := encode single false 127 (2 ^ 23)
    let y : BitVec double.W := encode double false 1023 (2 ^ 52)
    value (cvtSpDp x) = value x ∧ RoundsTo (value y) (cvtDpSp y) := by
  intro x y
  have hv : value y = 1 := by
    rw [value_encode (by decide) (by decide) (by decide) (by decide), bias_double]
    norm_num [signed]
  have hr : InNormalRange single (value y) := by
    rw [hv, InNormalRange, minUlp, bias_single]
    norm_num
  have h := cvt_iff x (by decide) y (by decide) (Or.inr hr)
  exact ⟨h.1.mpr (by decide), h.2.mpr ⟨hv ▸ one_ne_zero, by decide⟩⟩

/-- Zero becomes 2^-127 as a double, and two as a single. -/
theorem cvt_zero : value (cvtSpDp 0) ≠ value (0 : BitVec single.W) ∧
    ¬RoundsTo (value (0 : BitVec double.W)) (cvtDpSp 0) := by
  refine ⟨fun h => (value_cvtSpDp_iff (by decide)).mp h (by decide), not_roundsTo_cvtDpSp_zero ?_⟩
  simp [value, sig, exp, frac, signed]

end MipsCore
