import Mathlib.Algebra.Order.Field.Power
import Mathlib.Algebra.Order.Archimedean.Real.Basic
import Mathlib.Algebra.Order.Floor.Ring
import MipsCore.Lib.Rounding

/-! # Truncation to an integer

`fp_trunc_to_int32.sv` shifts the significand, padded on the left, by a distance that the exponent
gives, takes the upper bits of what results and negates them.
-/
namespace MipsCore
open BinaryFormat
variable {f : BinaryFormat}

namespace FpTrunc

/-- `w_bias` -/
def bias (f : BinaryFormat) : BitVec f.E := BitVec.ofNat f.E (2 ^ (f.E - 1) - 1)
/-- `w_mant` -/
def mant (x : BitVec f.W) : BitVec (1 + f.F) := 1#1 ++ frac x
/-- `t_zero` -/
def zero (x : BitVec f.W) : Bool := (exp x).ult (bias f)
/-- `t_shift_dist` -/
def shiftDist (x : BitVec f.W) : BitVec f.E :=
  let dist := exp x - bias f + 1
  if f.W < dist.toNat then BitVec.ofNat f.E f.W else dist
/-- `t_mant_shift` -/
def mantShift (x : BitVec f.W) : BitVec (f.W + (1 + f.F)) :=
  (0#f.W ++ mant x) <<< (shiftDist x).toNat
/-- `t_t` -/
def tT (x : BitVec f.W) : BitVec f.W :=
  if zero x then 0
  else
    let t := (mantShift x).extractLsb' (f.F + 1) f.W
    if sign x then ~~~t + 1 else t

end FpTrunc

/-- `fp_trunc_to_int32` -/
def fpTruncToInt32 (x : BitVec f.W) : BitVec f.W :=
  if f.W = 64 then ((FpTrunc.tT x).setWidth 32).setWidth f.W else FpTrunc.tT x

/-- Truncation toward zero. -/
noncomputable def truncate (v : ℝ) : ℤ := if 0 ≤ v then ⌊v⌋ else ⌈v⌉

namespace FpTrunc
variable {x : BitVec f.W}

theorem truncate_signed {v : ℝ} (s : Bool) (hv : 0 ≤ v) :
    truncate (signed s v) = if s then -⌊v⌋ else ⌊v⌋ := by
  cases s with
  | false => simp [truncate, hv]
  | true =>
    rcases hv.eq_or_lt with rfl | hpos
    · simp [truncate]
    · simp [truncate, hpos, Int.ceil_neg]

theorem toNat_bias : (bias f).toNat = f.bias := by
  have hE := f.two_pow_E
  rw [bias, BitVec.toNat_ofNat, Nat.mod_eq_of_lt]
  · rfl
  · change f.bias < _
    omega

theorem zero_iff : zero x = true ↔ (exp x).toNat < f.bias := by
  rw [zero, BitVec.ult, toNat_bias, decide_eq_true_iff]

/-- Below the bias the value is less than one. -/
theorem floor_of_lt_bias (h : (exp x).toNat < f.bias) : ⌊(sig x : ℝ) * 2 ^ ulp x⌋ = 0 := by
  rw [Int.floor_eq_zero_iff]
  refine ⟨by positivity, ?_⟩
  have hlt : (sig x : ℝ) * 2 ^ ulp x < 2 ^ f.F * 2 ^ (-(f.F : ℤ)) := by
    rcases Nat.eq_zero_or_pos (exp x).toNat with h0 | hpos
    · have he : exp x = 0 := BitVec.eq_of_toNat_eq (by simpa using h0)
      have hs : sig x < 2 ^ f.F := by
        rw [sig, if_pos he, Nat.zero_add]
        exact (frac x).isLt
      have hs : (sig x : ℝ) < 2 ^ f.F := by exact_mod_cast hs
      refine mul_lt_mul hs (zpow_le_zpow_right₀ one_le_two ?_) (zpow_pos two_pos _) (by positivity)
      unfold ulp
      omega
    · have hs : (sig x : ℝ) < 2 ^ (f.F + 1) := by exact_mod_cast sig_lt x
      have hu : (2 : ℝ) ^ ulp x ≤ 2 ^ (-(f.F : ℤ) - 1) := by
        refine zpow_le_zpow_right₀ one_le_two ?_
        unfold ulp
        omega
      refine (mul_lt_mul hs hu (zpow_pos two_pos _) (by positivity)).trans_eq ?_
      rw [zpow_sub₀ two_ne_zero, zpow_one, pow_succ]
      ring
  rwa [zpow_neg, zpow_natCast, mul_inv_cancel₀ (by positivity)] at hlt

/-- From the bias on, the integer part is a shifted significand. -/
theorem floor_of_bias_le (h : f.bias ≤ (exp x).toNat) :
    ⌊(sig x : ℝ) * 2 ^ ulp x⌋ = (sig x * 2 ^ ((exp x).toNat - f.bias) / 2 ^ f.F : ℕ) := by
  have hb := f.bias_pos
  have hu : ulp x = ((exp x).toNat - f.bias : ℕ) - (f.F : ℤ) := by
    unfold ulp
    omega
  have hv : (sig x : ℝ) * 2 ^ ulp x =
      ((sig x * 2 ^ ((exp x).toNat - f.bias) : ℕ) : ℝ) / ((2 ^ f.F : ℕ) : ℝ) := by
    rw [hu, zpow_sub₀ two_ne_zero, zpow_natCast, zpow_natCast]
    push_cast
    ring
  rw [hv, Int.floor_div_natCast, Int.floor_natCast]
  norm_cast

theorem toNat_shiftDist (h : f.bias ≤ (exp x).toNat) (hj : (exp x).toNat - f.bias + 1 ≤ f.W) :
    (shiftDist x).toNat = (exp x).toNat - f.bias + 1 := by
  have hb := f.bias_pos
  have hlt := (exp x).isLt
  have hdist : (exp x - bias f + 1).toNat = (exp x).toNat - f.bias + 1 := by
    rw [BitVec.toNat_add, BitVec.toNat_sub_of_le (by rwa [BitVec.le_def, toNat_bias]), toNat_bias,
      BitVec.ofNat_eq_ofNat, BitVec.toNat_ofNat, Nat.mod_eq_of_lt (a := 1) (by omega),
      Nat.mod_eq_of_lt (by omega)]
  simp only [shiftDist, hdist, if_neg (not_lt.mpr hj)]

theorem toNat_mant (h : (exp x).toNat ≠ 0) : (mant x).toNat = sig x := by
  have he : exp x ≠ 0 := fun he => h (by simp [he])
  rw [mant, BitVec.toNat_append, ← Nat.shiftLeft_add_eq_or_of_lt (frac x).isLt, Nat.shiftLeft_eq,
    sig, if_neg he]
  simp

/-- The upper bits of the shifted significand are the integer part. -/
theorem toNat_upper (h : f.bias ≤ (exp x).toNat) (hj : (exp x).toNat - f.bias + 1 ≤ f.W) :
    ((mantShift x).extractLsb' (f.F + 1) f.W).toNat =
      sig x * 2 ^ ((exp x).toNat - f.bias) / 2 ^ f.F := by
  have hb := f.bias_pos
  have hsig := sig_lt x
  have hm : (0#f.W ++ mant x).toNat = sig x := by
    rw [BitVec.toNat_append, toNat_mant (by omega)]
    simp
  have hle : 2 ^ ((exp x).toNat - f.bias + 1) ≤ 2 ^ f.W := Nat.pow_le_pow_right (by decide) hj
  have hlt : sig x * 2 ^ ((exp x).toNat - f.bias + 1) < 2 ^ (f.W + (1 + f.F)) := by
    rw [Nat.add_comm 1 f.F, pow_add 2 f.W (f.F + 1), Nat.mul_comm (2 ^ f.W)]
    exact Nat.mul_lt_mul_of_lt_of_le hsig hle (Nat.two_pow_pos _)
  have hq : sig x * 2 ^ ((exp x).toNat - f.bias + 1) / 2 ^ (f.F + 1) =
      sig x * 2 ^ ((exp x).toNat - f.bias) / 2 ^ f.F := by
    rw [pow_succ, pow_succ, ← Nat.mul_assoc, Nat.mul_div_mul_right _ _ (by decide)]
  have hqlt : sig x * 2 ^ ((exp x).toNat - f.bias) / 2 ^ f.F < 2 ^ f.W := by
    rw [← hq, Nat.div_lt_iff_lt_mul (Nat.two_pow_pos _), ← pow_add]
    rwa [Nat.add_comm 1 f.F] at hlt
  rw [mantShift, BitVec.extractLsb'_toNat, BitVec.toNat_shiftLeft, hm, toNat_shiftDist h hj,
    Nat.shiftLeft_eq, Nat.mod_eq_of_lt hlt, Nat.shiftRight_eq_div_pow, hq, Nat.mod_eq_of_lt hqlt]

theorem setWidth_fpTruncToInt32 (hW : 32 ≤ f.W) (x : BitVec f.W) :
    (fpTruncToInt32 x).setWidth 32 = (tT x).setWidth 32 := by
  unfold fpTruncToInt32
  split
  · rw [BitVec.setWidth_setWidth_of_le _ hW, BitVec.setWidth_eq]
  · rfl

end FpTrunc

open FpTrunc in
/-- For a number whose integer part fits in 32 bits with a sign, the low 32 bits of the output are
that integer in two's complement, for every format of at least 32 bits. -/
theorem fpTruncToInt32_truncates (hW : 32 ≤ f.W) (x : BitVec f.W)
    (hlo : -2 ^ 31 ≤ truncate (value x)) (hhi : truncate (value x) < 2 ^ 31) :
    (fpTruncToInt32 x).setWidth 32 = BitVec.ofInt 32 (truncate (value x)) := by
  rw [setWidth_fpTruncToInt32 hW]
  rw [value, truncate_signed (sign x) (by positivity)] at hlo hhi ⊢
  by_cases hz : zero x = true
  · rw [floor_of_lt_bias (zero_iff.mp hz), tT, if_pos hz]
    simp
  · have hge : f.bias ≤ (exp x).toNat := not_lt.mp (mt zero_iff.mpr hz)
    rw [floor_of_bias_le hge] at hlo hhi ⊢
    have hb := f.bias_pos
    have hsig : 2 ^ f.F ≤ sig x := by
      rw [sig, if_neg (fun h => by simp [h] at hge; omega)]
      omega
    -- a result that fits leaves no exponent at which the distance is cut
    have hj : 2 ^ ((exp x).toNat - f.bias) ≤ sig x * 2 ^ ((exp x).toNat - f.bias) / 2 ^ f.F := by
      rw [Nat.le_div_iff_mul_le (Nat.two_pow_pos _), Nat.mul_comm]
      exact Nat.mul_le_mul_right _ hsig
    have hfit : sig x * 2 ^ ((exp x).toNat - f.bias) / 2 ^ f.F ≤ 2 ^ 31 := by
      cases hs : sign x with
      | false =>
        simp only [hs, Bool.false_eq_true, if_false] at hhi
        omega
      | true =>
        simp only [hs, if_true] at hlo
        omega
    have hj31 : (exp x).toNat - f.bias ≤ 31 :=
      (Nat.pow_le_pow_iff_right (by decide)).mp (hj.trans hfit)
    have hupper := toNat_upper hge (by omega)
    have hlow : ((mantShift x).extractLsb' (f.F + 1) f.W).setWidth 32 =
        BitVec.ofNat 32 (sig x * 2 ^ ((exp x).toNat - f.bias) / 2 ^ f.F) := by
      rw [← hupper]
      exact BitVec.eq_of_toNat_eq (by simp)
    rw [tT, if_neg hz]
    cases hs : sign x with
    | false =>
      simp only [Bool.false_eq_true, if_false]
      rw [hlow, BitVec.ofInt_natCast]
    | true =>
      simp only [if_true]
      rw [show ∀ t : BitVec f.W, ~~~t + 1 = -t from fun t => (BitVec.neg_eq_not_add t).symm,
        BitVec.setWidth_neg_of_le hW, hlow, BitVec.ofInt_neg, BitVec.ofInt_natCast]

open FpTrunc in
/-- -2^31 as a double. -/
theorem fpTruncToInt32_truncates_negTwoPow :
    truncate (value (encode double true 1054 (2 ^ 52))) = -2 ^ 31 ∧
      (fpTruncToInt32 (encode double true 1054 (2 ^ 52))).setWidth 32 = BitVec.ofInt 32 (-2 ^ 31) := by
  have ht : truncate (value (encode double true 1054 (2 ^ 52))) = -2 ^ 31 := by
    have hb : double.bias = 1023 := by decide
    have hF : double.F = 52 := rfl
    rw [value_encode (by decide) (by decide) (by decide) (by decide), truncate_signed true (by positivity),
      if_pos rfl, hb, hF]
    norm_num
  refine ⟨ht, ?_⟩
  have h := fpTruncToInt32_truncates (f := double) (by decide) (encode double true 1054 (2 ^ 52))
    (by rw [ht]) (by rw [ht]; norm_num)
  rwa [ht] at h

end MipsCore
