import MipsCore.BitCount
import MipsCore.Lib.Rounding

/-! # Conversion of integers

`fp_convert.sv` shifts the leading one of the magnitude out of the word, keeps the upper bits as
the fraction and adds one to them when the first bit that is cut and the last that is kept are
set.  `LG_W` is `k + 2`, and the instances are `single` with 3 and `double` with 4.
-/
namespace MipsCore
open BinaryFormat NearestEven
variable {f : BinaryFormat} {k : ℕ}

namespace FpConvert
variable (f) (x : BitVec (2 ^ (k + 2)))

/-- `t_in` -/
def tIn : BitVec (2 ^ (k + 2)) := if x.msb then ~~~x + 1 else x
/-- `t_ffs` -/
def ffs : BitVec (k + 3) := findFirstSet k (tIn x)
/-- `t_mant_full` -/
def mantFull : BitVec (2 ^ (k + 2)) := tIn x <<< (2 ^ (k + 2) - (ffs x).toNat)
/-- `t_round` -/
def round : BitVec f.F :=
  if (mantFull x).getLsbD (2 ^ (k + 2) - f.F - 1) && (mantFull x).getLsbD (2 ^ (k + 2) - f.F) &&
    decide (f.F < (ffs x).toNat) then 1 else 0
/-- `t_mant` -/
def mant : BitVec f.F := (mantFull x).extractLsb' (2 ^ (k + 2) - f.F) f.F + round f x
/-- `t_exp` -/
def tExp : BitVec f.E := BitVec.ofNat f.E (2 ^ (f.E - 1) - 1) + (ffs x).setWidth f.E

end FpConvert

open FpConvert in
/-- `fp_convert` -/
def fpConvert (f : BinaryFormat) (x : BitVec (2 ^ (k + 2))) : BitVec f.W :=
  if x = 0 then 0 else pack x.msb (tExp f x) (mant f x)

namespace FpConvert
variable {x : BitVec (2 ^ (k + 2))}

theorem tIn_eq (x : BitVec (2 ^ (k + 2))) : tIn x = if x.msb then -x else x := by
  unfold tIn
  split
  · exact (BitVec.neg_eq_not_add x).symm
  · rfl

theorem toInt_eq (x : BitVec (2 ^ (k + 2))) :
    x.toInt = if x.msb then -((tIn x).toNat : ℤ) else (tIn x).toNat := by
  have hlt := x.isLt
  rw [BitVec.toInt_eq_msb_cond, tIn_eq]
  cases hm : x.msb with
  | false => simp
  | true =>
    have hne : x ≠ 0 := by
      rintro rfl
      simp at hm
    have hpos : 0 < x.toNat := Nat.pos_of_ne_zero fun h => hne (BitVec.eq_of_toNat_eq (by simpa using h))
    simp only [if_true]
    rw [BitVec.toNat_neg, Nat.mod_eq_of_lt (by omega)]
    omega

theorem natAbs_toInt (x : BitVec (2 ^ (k + 2))) : x.toInt.natAbs = (tIn x).toNat := by
  rw [toInt_eq]
  split <;> omega

theorem cast_toInt (x : BitVec (2 ^ (k + 2))) : (x.toInt : ℝ) = signed x.msb (tIn x).toNat := by
  rw [toInt_eq, signed]
  split <;> push_cast <;> rfl

/-- The magnitude lies in the binade of the leading one. -/
theorem ffs_spec (hx : x ≠ 0) :
    (ffs x).toNat < 2 ^ (k + 2) ∧ 2 ^ (ffs x).toNat ≤ (tIn x).toNat ∧
      (tIn x).toNat < 2 ^ ((ffs x).toNat + 1) := by
  have hne : tIn x ≠ 0 := by
    rw [tIn_eq]
    split
    · exact fun h => hx (by simpa using h)
    · exact hx
  exact ⟨(findFirstSet_spec k _ hne).1, findFirstSet_log k _ hne⟩

/-- The significand before it is rounded, over the power of two that it is divided by. -/
theorem normalised (hx : x ≠ 0) :
    f.Normalised ((tIn x).toNat * 2 ^ f.F) (2 ^ (ffs x).toNat) := by
  obtain ⟨-, hlo, hhi⟩ := ffs_spec hx
  refine ⟨Nat.two_pow_pos _, ?_, ?_⟩
  · rw [Nat.mul_comm]
    exact Nat.mul_le_mul_right _ hlo
  · have hpow : 2 ^ (f.F + 1) * 2 ^ (ffs x).toNat = 2 ^ ((ffs x).toNat + 1) * 2 ^ f.F := by
      rw [← pow_add, ← pow_add]
      congr 1
      omega
    rw [hpow]
    exact Nat.mul_lt_mul_of_pos_right hhi (Nat.two_pow_pos f.F)

/-- The leading one is shifted just out of a word of `w` bits. -/
theorem shift_out {n p w : ℕ} (hp : p < w) (hlo : 2 ^ p ≤ n) (hhi : n < 2 ^ (p + 1)) :
    2 ^ w ≤ n * 2 ^ (w - p) ∧ n * 2 ^ (w - p) < 2 * 2 ^ w := by
  have h1 := Nat.mul_le_mul_right (2 ^ (w - p)) hlo
  have h2 := Nat.mul_lt_mul_of_pos_right hhi (Nat.two_pow_pos (w - p))
  rw [← pow_add, show p + (w - p) = w by omega] at h1
  rw [← pow_add, show p + 1 + (w - p) = w + 1 by omega, pow_succ'] at h2
  exact ⟨h1, h2⟩

/-- Without the leading one, the shifted word is what lies behind it. -/
theorem toNat_mantFull (hx : x ≠ 0) :
    (mantFull x).toNat =
      (tIn x).toNat * 2 ^ (2 ^ (k + 2) - (ffs x).toNat) - 2 ^ 2 ^ (k + 2) := by
  obtain ⟨hp, hlo, hhi⟩ := ffs_spec hx
  obtain ⟨h1, h2⟩ := shift_out hp hlo hhi
  rw [mantFull, BitVec.toNat_shiftLeft, Nat.shiftLeft_eq, Nat.mod_eq_sub_mod h1,
    Nat.mod_eq_of_lt (by omega)]

/-- The upper bits of the shifted word are those of the quotient by the binade. -/
theorem upper_bits {n p w j : ℕ} (hp : p < w) (hj : j ≤ w) (hlo : 2 ^ p ≤ n)
    (hhi : n < 2 ^ (p + 1)) :
    (n * 2 ^ (w - p) - 2 ^ w) / 2 ^ (w - j) + 2 ^ j = n * 2 ^ j / 2 ^ p := by
  obtain ⟨h1, -⟩ := shift_out hp hlo hhi
  have hw : 2 ^ w = 2 ^ (w - j) * 2 ^ j := by rw [← pow_add, show w - j + j = w by omega]
  have hmul : n * 2 ^ (w - p) * 2 ^ p = n * 2 ^ j * 2 ^ (w - j) := by
    rw [Nat.mul_assoc, Nat.mul_assoc, ← pow_add, ← pow_add]
    congr 2
    omega
  have hq : n * 2 ^ (w - p) / 2 ^ (w - j) = n * 2 ^ j / 2 ^ p := by
    rw [← Nat.mul_div_mul_right _ _ (Nat.two_pow_pos p), hmul, Nat.mul_comm (2 ^ (w - j)),
      Nat.mul_div_mul_right _ _ (Nat.two_pow_pos (w - j))]
  have hle : 2 ^ j ≤ n * 2 ^ (w - p) / 2 ^ (w - j) := by
    rw [Nat.le_div_iff_mul_le (Nat.two_pow_pos _), Nat.mul_comm, ← hw]
    exact h1
  rw [hw, Nat.sub_mul_div, ← hq]
  omega

/-- The significand that the source comes to, before it is cut to the width of the fraction. -/
def kept (f : BinaryFormat) (n p : ℕ) : ℕ :=
  if f.F < p ∧ 2 ^ p ≤ 2 * (n * 2 ^ f.F % 2 ^ p) ∧ n * 2 ^ f.F / 2 ^ p % 2 = 1 then
    n * 2 ^ f.F / 2 ^ p + 1
  else n * 2 ^ f.F / 2 ^ p

/-- The fields of a converted integer. -/
theorem fpConvert_eq (hW : f.F < 2 ^ (k + 2)) (hx : x ≠ 0) :
    fpConvert f x =
      encode f x.msb (f.bias + (ffs x).toNat) (kept f (tIn x).toNat (ffs x).toNat) := by
  obtain ⟨hp, hlo, hhi⟩ := ffs_spec hx
  have hF := upper_bits hp hW.le hlo hhi
  have hF1 := upper_bits hp (show f.F + 1 ≤ 2 ^ (k + 2) from hW) hlo hhi
  have heven : 2 ^ f.F % 2 = 0 := by
    rw [show f.F = f.F - 1 + 1 by have := f.four_le_F; omega, pow_succ, Nat.mul_mod_left]
  have heven1 : 2 ^ (f.F + 1) % 2 = 0 := by rw [pow_succ, Nat.mul_mod_left]
  rw [← toNat_mantFull hx] at hF hF1
  have hguard : (mantFull x).getLsbD (2 ^ (k + 2) - f.F - 1) = true ↔
      2 ^ (ffs x).toNat ≤ 2 * ((tIn x).toNat * 2 ^ f.F % 2 ^ (ffs x).toNat) := by
    rw [BitVec.getLsbD, Nat.testBit_eq_decide_div_mod_eq, decide_eq_true_iff,
      ← guard_iff (Nat.two_pow_pos _), Nat.sub_sub, Nat.mul_left_comm, ← pow_succ', ← hF1]
    omega
  have hlast : (mantFull x).getLsbD (2 ^ (k + 2) - f.F) = true ↔
      (tIn x).toNat * 2 ^ f.F / 2 ^ (ffs x).toNat % 2 = 1 := by
    rw [BitVec.getLsbD, Nat.testBit_eq_decide_div_mod_eq, decide_eq_true_iff, ← hF]
    omega
  have hround : (round f x).toNat =
      if f.F < (ffs x).toNat ∧ 2 ^ (ffs x).toNat ≤
        2 * ((tIn x).toNat * 2 ^ f.F % 2 ^ (ffs x).toNat) ∧
        (tIn x).toNat * 2 ^ f.F / 2 ^ (ffs x).toNat % 2 = 1 then 1 else 0 := by
    have h16 := f.sixteen_le
    have hcond : ((mantFull x).getLsbD (2 ^ (k + 2) - f.F - 1) &&
        (mantFull x).getLsbD (2 ^ (k + 2) - f.F) && decide (f.F < (ffs x).toNat)) = true ↔
        f.F < (ffs x).toNat ∧ 2 ^ (ffs x).toNat ≤
          2 * ((tIn x).toNat * 2 ^ f.F % 2 ^ (ffs x).toNat) ∧
          (tIn x).toNat * 2 ^ f.F / 2 ^ (ffs x).toNat % 2 = 1 := by
      rw [Bool.and_eq_true, Bool.and_eq_true, decide_eq_true_iff, hguard, hlast, and_comm]
    rw [round]
    split
    · next h =>
      rw [if_pos (hcond.mp h), BitVec.ofNat_eq_ofNat, BitVec.toNat_ofNat,
        Nat.mod_eq_of_lt (a := 1) (by omega)]
    · next h => rw [if_neg (mt hcond.mpr h), BitVec.ofNat_eq_ofNat, BitVec.toNat_ofNat, Nat.zero_mod]
  refine (if_neg hx).trans (congrArg₂ (pack x.msb) ?_ ?_)
  · refine BitVec.eq_of_toNat_eq ?_
    rw [tExp, BitVec.toNat_add, BitVec.toNat_ofNat, BitVec.toNat_setWidth, BitVec.toNat_ofNat,
      ← Nat.add_mod]
    rfl
  · refine BitVec.eq_of_toNat_eq ?_
    have hcut : ((mantFull x).extractLsb' (2 ^ (k + 2) - f.F) f.F).toNat =
        (tIn x).toNat * 2 ^ f.F / 2 ^ (ffs x).toNat % 2 ^ f.F := by
      rw [BitVec.extractLsb'_toNat, Nat.shiftRight_eq_div_pow, ← hF, Nat.add_mod_right]
    rw [mant, BitVec.toNat_add, hcut, hround, BitVec.toNat_ofNat, kept, Nat.mod_add_mod]
    split <;> rfl

/-- With the bits that are cut below the unit of the fraction, the rounding is that of the
magnitude by the unit. -/
theorem kept_of_lt {n p : ℕ} (h : f.F < p) :
    kept f n p = if 2 ^ (p - f.F) ≤ 2 * (n % 2 ^ (p - f.F)) ∧ n / 2 ^ (p - f.F) % 2 = 1 then
      n / 2 ^ (p - f.F) + 1 else n / 2 ^ (p - f.F) := by
  have hp : 2 ^ p = 2 ^ (p - f.F) * 2 ^ f.F := by rw [← pow_add, Nat.sub_add_cancel h.le]
  have hpos := Nat.two_pow_pos f.F
  rw [kept, hp, Nat.mul_div_mul_right _ _ hpos, Nat.mul_mod_mul_right, ← Nat.mul_assoc]
  simp only [h, true_and, Nat.mul_le_mul_right_iff hpos]

theorem kept_of_le {n p : ℕ} (h : p ≤ f.F) : kept f n p = n * 2 ^ (f.F - p) := by
  have hp : 2 ^ f.F = 2 ^ (f.F - p) * 2 ^ p := by rw [← pow_add, Nat.sub_add_cancel h]
  rw [kept, if_neg (by omega), hp, ← Nat.mul_assoc, Nat.mul_div_cancel _ (Nat.two_pow_pos p)]

end FpConvert

/-- What is cut from a magnitude behind its leading `F + 1` bits is less than half a unit, or just
half of one behind an even last bit, or at least half behind an odd last bit that can be
incremented within the fraction. -/
def ConvertRounds (f : BinaryFormat) (n : ℕ) : Prop :=
  let d := 2 ^ (n.log2 - f.F)
  2 * (n % d) < d ∨ 2 * (n % d) = d ∧ n / d % 2 = 0 ∨
    d ≤ 2 * (n % d) ∧ n / d % 2 = 1 ∧ n / d ≠ 2 ^ (f.F + 1) - 1

instance (f : BinaryFormat) (n : ℕ) : Decidable (ConvertRounds f n) :=
  inferInstanceAs (Decidable (_ ∨ _ ∨ _))

namespace FpConvert
variable {x : BitVec (2 ^ (k + 2))}

/-- The significand that the fraction stands for, without the carry out of it. -/
def wrapped (f : BinaryFormat) (c : ℕ) : ℕ := if c = 2 ^ (f.F + 1) then 2 ^ f.F else c

theorem encode_wrapped {s : Bool} {e c : ℕ} (hhi : c ≤ 2 ^ (f.F + 1)) :
    encode f s e c = encode f s (e + wrapped f c / 2 ^ (f.F + 1)) (wrapped f c) := by
  have hlt : 2 ^ f.F < 2 ^ (f.F + 1) := Nat.pow_lt_pow_right (by decide) (Nat.lt_succ_self _)
  unfold wrapped
  split
  · next h => rw [h, Nat.div_eq_of_lt hlt, encode_two_pow, Nat.add_zero]
  · rw [Nat.div_eq_of_lt (by omega), Nat.add_zero]

theorem wrapped_bounds {c : ℕ} (hlo : 2 ^ f.F ≤ c) (hhi : c ≤ 2 ^ (f.F + 1)) :
    2 ^ f.F ≤ wrapped f c ∧ wrapped f c ≤ 2 ^ (f.F + 1) := by
  unfold wrapped
  split <;> omega

/-- The significand, wrapped in the width of the fraction, is the rounded one just when the cut
bits are of one of the three kinds. -/
theorem wrapped_iff {n p : ℕ} (hlo : 2 ^ p ≤ n) (hhi : n < 2 ^ (p + 1)) :
    wrapped f (kept f n p) = nearestEven (n * 2 ^ f.F) (2 ^ p) ↔ ConvertRounds f n := by
  have hpos := Nat.two_pow_pos f.F
  have hpow : 2 ^ (f.F + 1) = 2 * 2 ^ f.F := pow_succ' _ _
  have hlog : n.log2 = p := (Nat.log2_eq_iff (by have := Nat.two_pow_pos p; omega)).mpr ⟨hlo, hhi⟩
  unfold ConvertRounds
  rw [hlog]
  rcases le_or_gt p f.F with h | h
  · have hF : 2 ^ f.F = 2 ^ (f.F - p) * 2 ^ p := by rw [← pow_add, Nat.sub_add_cancel h]
    have hlt : n * 2 ^ (f.F - p) < 2 ^ (f.F + 1) := by
      refine (Nat.mul_lt_mul_of_pos_right hhi (Nat.two_pow_pos (f.F - p))).trans_eq ?_
      rw [← pow_add]
      congr 1
      omega
    rw [kept_of_le h, wrapped, if_neg hlt.ne, hF, ← Nat.mul_assoc, nearestEven_mul _ (Nat.two_pow_pos p),
      Nat.sub_eq_zero_of_le h, pow_zero]
    exact iff_of_true rfl (Or.inl (by rw [Nat.mod_one]; decide))
  · have hp : 2 ^ p = 2 ^ f.F * 2 ^ (p - f.F) := by rw [← pow_add, Nat.add_sub_cancel' h.le]
    have hd := Nat.two_pow_pos (p - f.F)
    have hlt : n / 2 ^ (p - f.F) < 2 ^ (f.F + 1) := by
      rw [Nat.div_lt_iff_lt_mul hd, pow_succ', Nat.mul_assoc, ← hp, ← pow_succ']
      exact hhi
    have hge : 2 ^ f.F ≤ n / 2 ^ (p - f.F) := by
      rw [Nat.le_div_iff_mul_le hd, ← hp]
      exact hlo
    rw [wrapped, kept_of_lt h, hp, Nat.mul_comm n, nearestEven_mul_mul hpos]
    simp only []
    have hcases := nearestEven_cases n (2 ^ (p - f.F))
    have h16 := f.sixteen_le
    generalize n / 2 ^ (p - f.F) = q at *
    generalize n % 2 ^ (p - f.F) = r at *
    generalize nearestEven n (2 ^ (p - f.F)) = m at *
    generalize 2 ^ (p - f.F) = d at *
    rw [hpow] at hlt ⊢
    generalize 2 ^ f.F = Q at *
    split <;> split <;> omega

theorem kept_bounds {n p : ℕ} (hlo : 2 ^ p ≤ n) (hhi : n < 2 ^ (p + 1)) :
    2 ^ f.F ≤ kept f n p ∧ kept f n p ≤ 2 ^ (f.F + 1) := by
  have hq : 2 ^ f.F ≤ n * 2 ^ f.F / 2 ^ p := by
    rw [Nat.le_div_iff_mul_le (Nat.two_pow_pos p), Nat.mul_comm]
    exact Nat.mul_le_mul_right _ hlo
  have hlt : n * 2 ^ f.F / 2 ^ p < 2 ^ (f.F + 1) := by
    rw [Nat.div_lt_iff_lt_mul (Nat.two_pow_pos p), ← pow_add]
    refine (Nat.mul_lt_mul_of_pos_right hhi (Nat.two_pow_pos f.F)).trans_eq ?_
    rw [← pow_add]
    congr 1
    omega
  unfold kept
  split <;> omega

theorem value_fpConvert_zero : IsFinite (fpConvert f (0 : BitVec (2 ^ (k + 2)))) ∧
    value (fpConvert f (0 : BitVec (2 ^ (k + 2)))) = 0 := by
  have hE := f.two_pow_E
  rw [fpConvert, if_pos rfl]
  constructor
  · intro hc
    have hc := congrArg BitVec.toNat hc
    rw [BitVec.toNat_allOnes, exp] at hc
    simp at hc
    omega
  · simp [value, sig, exp, frac, signed]

/-- The exact condition for a converted integer to be the nearest number of the format. -/
theorem roundsTo_fpConvert (hW : f.F < 2 ^ (k + 2)) (hb : 2 ^ (k + 2) ≤ f.bias)
    (x : BitVec (2 ^ (k + 2))) :
    RoundsTo (x.toInt : ℝ) (fpConvert f x) ↔ ConvertRounds f x.toInt.natAbs := by
  by_cases hx : x = 0
  · subst hx
    obtain ⟨hfin, hval⟩ := value_fpConvert_zero (f := f) (k := k)
    have h := roundsTo_value hfin
    rw [hval] at h
    refine iff_of_true (by simpa using h) (Or.inl ?_)
    simp
  · obtain ⟨hp, hlo, hhi⟩ := ffs_spec hx
    obtain ⟨hge, hle⟩ := kept_bounds (f := f) hlo hhi
    have hnorm := normalised (f := f) hx
    have hval : (x.toInt : ℝ) = signed x.msb (((tIn x).toNat * 2 ^ f.F : ℕ) /
        (2 ^ (ffs x).toNat : ℕ) * 2 ^ (((f.bias + (ffs x).toNat : ℕ) : ℤ) - f.bias - f.F)) := by
      rw [cast_toInt]
      congr 1
      rw [show ((f.bias + (ffs x).toNat : ℕ) : ℤ) - f.bias - f.F = (ffs x).toNat - f.F by
        push_cast; ring, zpow_sub₀ two_ne_zero, zpow_natCast, zpow_natCast]
      push_cast
      field_simp
    have hbias := f.bias_pos
    obtain ⟨hwge, hwle⟩ := wrapped_bounds hge hle
    rw [fpConvert_eq hW hx, hval, encode_wrapped hle, hnorm.roundsTo_encode
      (hnorm.roundsToNormal (by omega) (Or.inl (by omega))) hwge hwle, if_neg (by omega),
      wrapped_iff hlo hhi, natAbs_toInt]

/-- A magnitude that fits the significand is converted without loss. -/
theorem value_fpConvert (hW : f.F < 2 ^ (k + 2)) (hb : 2 ^ (k + 2) ≤ f.bias)
    (hx : x ≠ 0) (hfit : (ffs x).toNat ≤ f.F) :
    IsFinite (fpConvert f x) ∧ value (fpConvert f x) = x.toInt := by
  obtain ⟨hp, hlo, hhi⟩ := ffs_spec hx
  have hbias := f.bias_pos
  have hlo' := Nat.mul_le_mul_right (2 ^ (f.F - (ffs x).toNat)) hlo
  have hhi' := Nat.mul_lt_mul_of_pos_right hhi (Nat.two_pow_pos (f.F - (ffs x).toNat))
  rw [← pow_add, Nat.add_sub_cancel' hfit] at hlo'
  rw [← pow_add, show (ffs x).toNat + 1 + (f.F - (ffs x).toNat) = f.F + 1 by omega] at hhi'
  rw [fpConvert_eq hW hx, kept_of_le hfit]
  refine ⟨(isNormal_encode (by omega) (by omega)).2, ?_⟩
  rw [value_encode (by omega) (by omega) hlo' hhi', cast_toInt]
  congr 1
  rw [show ((f.bias + (ffs x).toNat : ℕ) : ℤ) - f.bias - f.F = -((f.F - (ffs x).toNat : ℕ) : ℤ) by
    omega, zpow_neg, zpow_natCast]
  push_cast
  field_simp

/-- A sign-extended 32-bit integer has a magnitude of at most 32 bits. -/
theorem ffs_signExtend {x : BitVec 32}
    (hx : (x.signExtend 64 : BitVec (2 ^ (4 + 2))) ≠ 0) :
    (ffs (k := 4) (x.signExtend 64)).toNat ≤ 52 := by
  obtain ⟨-, hlo, -⟩ := ffs_spec (k := 4) hx
  have hle := BitVec.toInt_lt (x := x)
  have hge := BitVec.le_toInt (x := x)
  have habs : (x.signExtend 64).toInt.natAbs = (tIn (k := 4) (x.signExtend 64)).toNat :=
    natAbs_toInt (k := 4) _
  rw [BitVec.toInt_signExtend_of_le (by decide)] at habs
  have hpow : 2 ^ (ffs (k := 4) (x.signExtend 64)).toNat < 2 ^ 32 := by omega
  have := (Nat.pow_lt_pow_iff_right (by decide)).mp hpow
  omega

end FpConvert

open FpConvert in
/-- The conversion to single is the nearest one just when the bits that are cut are of one of the
kinds that the source rounds as it should, and the conversion to double is exact. -/
theorem fpConvert_rounds_iff (x : BitVec 32) :
    (RoundsTo (x.toInt : ℝ) (fpConvert (k := 3) single x) ↔
        ConvertRounds single x.toInt.natAbs) ∧
      IsFinite (fpConvert (k := 4) double (x.signExtend 64)) ∧
        value (fpConvert (k := 4) double (x.signExtend 64)) = x.toInt := by
  refine ⟨roundsTo_fpConvert (k := 3) (by decide) (by decide) x, ?_⟩
  have hext : (x.signExtend 64).toInt = x.toInt := BitVec.toInt_signExtend_of_le (by decide)
  by_cases hx : (x.signExtend 64 : BitVec (2 ^ (4 + 2))) = 0
  · have hzero : x.toInt = 0 := by
      rw [← hext]
      exact congrArg BitVec.toInt hx
    rw [hx, hzero, Int.cast_zero]
    exact value_fpConvert_zero
  · have h := value_fpConvert (f := double) (k := 4) (by decide) (by decide) hx (ffs_signExtend hx)
    rwa [hext] at h

/-- 2^25 + 3 is three quarters of a unit above an even significand, and is rounded down. -/
theorem not_roundsTo_fpConvert :
    ¬RoundsTo ((0x02000003#32).toInt : ℝ) (fpConvert (k := 3) single 0x02000003#32) := by
  rw [FpConvert.roundsTo_fpConvert (k := 3) (by decide) (by decide)]
  decide +kernel

end MipsCore
