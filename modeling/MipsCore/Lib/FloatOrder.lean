import Mathlib.Algebra.Order.Field.Power
import Mathlib.Data.EReal.Operations
import MipsCore.Lib.BinaryFormat

/-! # The order of a binary format

Without its sign a pattern is a natural number, and the numbers that are no NaN are ordered like
the magnitudes they denote, infinity included.
-/
namespace BinaryFormat
variable {f : BinaryFormat} {x y : BitVec f.W}

/-- A pattern without its sign. -/
def mag (x : BitVec f.W) : ℕ := (exp x).toNat * 2 ^ f.F + (frac x).toNat

/-- A pattern as an integer in sign and magnitude. -/
def key (x : BitVec f.W) : ℤ := if sign x then -mag x else mag x

/-- The magnitude of a finite pattern in units of the smallest last place. -/
def units (x : BitVec f.W) : ℕ := sig x * 2 ^ ((exp x).toNat - 1)

attribute [local instance] NearestEven.atLeastTwo_two in
/-- The magnitude of a pattern other than a NaN. -/
noncomputable def extAbs (x : BitVec f.W) : EReal :=
  if exp x = BitVec.allOnes f.E then ⊤ else ((units x * 2 ^ f.minUlp : ℝ) : EReal)

theorem exp_eq_zero : exp x = 0 ↔ (exp x).toNat = 0 := by
  rw [← BitVec.toNat_inj]
  simp

theorem sig_mul_ulp (x : BitVec f.W) : (sig x : ℝ) * 2 ^ ulp x = units x * 2 ^ f.minUlp := by
  have hu : ulp x = f.minUlp + ((exp x).toNat - 1 : ℕ) := by
    unfold ulp minUlp
    omega
  rw [hu, zpow_add₀ two_ne_zero, zpow_natCast, units]
  push_cast
  ring

theorem extValue_eq (x : BitVec f.W) : extValue x = if sign x then -extAbs x else extAbs x := by
  unfold extValue extAbs value
  rw [sig_mul_ulp]
  by_cases he : exp x = BitVec.allOnes f.E
  · simp [he]
  · cases hs : sign x <;> simp [he]

/-- The magnitudes grow with the patterns. -/
theorem units_lt (h : mag x < mag y) : units x < units y := by
  have hx := (frac x).isLt
  have hy := (frac y).isLt
  have hsx := sig_lt x
  rw [pow_succ] at hsx
  unfold mag at h
  rcases lt_trichotomy (exp x).toNat (exp y).toNat with hlt | heq | hgt
  · have hy0 : (exp y).toNat ≠ 0 := by omega
    have hsy : 2 ^ f.F ≤ sig y := by
      rw [sig, if_neg (mt exp_eq_zero.mp hy0)]
      omega
    have hle : 2 ^ f.F * 2 ^ ((exp y).toNat - 1) ≤ units y := Nat.mul_le_mul_right _ hsy
    refine lt_of_lt_of_le ?_ hle
    by_cases hx0 : (exp x).toNat = 0
    · have hsx : sig x < 2 ^ f.F := by
        rw [sig, if_pos (exp_eq_zero.mpr hx0)]
        omega
      rw [units, hx0, Nat.zero_sub, pow_zero, Nat.mul_one]
      exact lt_of_lt_of_le hsx (Nat.le_mul_of_pos_right _ (Nat.two_pow_pos _))
    · calc units x < 2 ^ f.F * 2 * 2 ^ ((exp x).toNat - 1) :=
            Nat.mul_lt_mul_of_pos_right hsx (Nat.two_pow_pos _)
        _ = 2 ^ f.F * 2 ^ (exp x).toNat := by
          rw [Nat.mul_assoc, ← pow_succ', show (exp x).toNat - 1 + 1 = (exp x).toNat by omega]
        _ ≤ 2 ^ f.F * 2 ^ ((exp y).toNat - 1) :=
          Nat.mul_le_mul_left _ (Nat.pow_le_pow_right (by decide) (by omega))
  · have he : exp x = exp y := BitVec.eq_of_toNat_eq heq
    rw [heq] at h
    rw [units, units, sig, sig, he]
    exact Nat.mul_lt_mul_of_pos_right (by omega) (Nat.two_pow_pos _)
  · have h1 := Nat.mul_le_mul_right (2 ^ f.F) (Nat.succ_le_of_lt hgt)
    rw [Nat.succ_mul] at h1
    omega

theorem mag_eq (h : mag x = mag y) : exp x = exp y ∧ frac x = frac y := by
  have hx := (frac x).isLt
  have hy := (frac y).isLt
  unfold mag at h
  have he : (exp x).toNat = (exp y).toNat := by
    have h1 := Nat.add_mul_div_right (frac x).toNat (exp x).toNat (Nat.two_pow_pos f.F)
    have h2 := Nat.add_mul_div_right (frac y).toNat (exp y).toNat (Nat.two_pow_pos f.F)
    rw [Nat.div_eq_of_lt hx, Nat.add_comm, h] at h1
    rw [Nat.div_eq_of_lt hy, Nat.add_comm] at h2
    omega
  rw [he] at h
  exact ⟨BitVec.eq_of_toNat_eq he, BitVec.eq_of_toNat_eq (by omega)⟩

theorem extAbs_eq (h : mag x = mag y) : extAbs x = extAbs y := by
  obtain ⟨he, hm⟩ := mag_eq h
  rw [extAbs, extAbs, units, units, sig, sig, he, hm]

theorem extAbs_lt (hx : ¬IsNaN x) (hy : ¬IsNaN y) (h : mag x < mag y) : extAbs x < extAbs y := by
  by_cases hex : exp x = BitVec.allOnes f.E
  · have hm : frac x = 0 := by
      by_contra hne
      exact hx ⟨hex, hne⟩
    have hle : (exp y).toNat ≤ (exp x).toNat := by
      have := (exp y).isLt
      rw [hex, BitVec.toNat_allOnes]
      omega
    have hmul := Nat.mul_le_mul_right (2 ^ f.F) hle
    unfold mag at h
    rw [hm, BitVec.ofNat_eq_ofNat, BitVec.toNat_ofNat, Nat.zero_mod] at h
    rcases Nat.eq_or_lt_of_le hle with heq | hlt
    · have hey : exp y = BitVec.allOnes f.E := by rw [BitVec.eq_of_toNat_eq heq, hex]
      refine absurd ⟨hey, fun hm => ?_⟩ hy
      rw [hm, heq, BitVec.ofNat_eq_ofNat, BitVec.toNat_ofNat, Nat.zero_mod] at h
      omega
    · have h1 := Nat.mul_le_mul_right (2 ^ f.F) (Nat.succ_le_of_lt hlt)
      rw [Nat.succ_mul] at h1
      have := (frac y).isLt
      omega
  · rw [extAbs, extAbs, if_neg hex]
    split
    · exact EReal.coe_lt_top _
    · rw [EReal.coe_lt_coe_iff]
      refine mul_lt_mul_of_pos_right ?_ (zpow_pos two_pos _)
      exact_mod_cast units_lt h

theorem extAbs_lt_iff (hx : ¬IsNaN x) (hy : ¬IsNaN y) : extAbs x < extAbs y ↔ mag x < mag y := by
  refine ⟨fun h => ?_, extAbs_lt hx hy⟩
  rcases lt_trichotomy (mag x) (mag y) with hlt | heq | hgt
  · exact hlt
  · exact absurd h (extAbs_eq heq).not_lt
  · exact absurd h (extAbs_lt hy hx hgt).not_gt

theorem extAbs_nonneg (x : BitVec f.W) : 0 ≤ extAbs x := by
  unfold extAbs
  split
  · exact le_top
  · rw [EReal.coe_nonneg]
    positivity

theorem mag_eq_zero (h : mag x = 0) : extAbs x = 0 := by
  have hpos := Nat.two_pow_pos f.F
  have hE := f.two_pow_E
  unfold mag at h
  have he : exp x = 0 := exp_eq_zero.mpr (by
    rcases Nat.eq_zero_or_pos (exp x).toNat with h0 | hp
    · exact h0
    · have := Nat.mul_le_mul_right (2 ^ f.F) hp
      omega)
  have hne : exp x ≠ BitVec.allOnes f.E := by
    rw [he]
    intro hc
    have hc := congrArg BitVec.toNat hc
    rw [BitVec.toNat_allOnes, BitVec.ofNat_eq_ofNat, BitVec.toNat_ofNat, Nat.zero_mod] at hc
    omega
  have hm : (frac x).toNat = 0 := by omega
  rw [extAbs, if_neg hne, units, sig, if_pos he, hm]
  simp

/-- The zero pattern is as small as any. -/
theorem extAbs_pos_iff (hx : ¬IsNaN x) : 0 < extAbs x ↔ 0 < mag x := by
  have hz : mag (pack false 0 0 : BitVec f.W) = 0 := by simp [mag]
  have hn : ¬IsNaN (pack false 0 0 : BitVec f.W) := by simp [IsNaN]
  have h := extAbs_lt_iff hn hx
  rwa [mag_eq_zero hz, hz] at h

/-- The extended reals that two patterns denote compare like the patterns in sign and
magnitude. -/
theorem extValue_lt_iff (hx : ¬IsNaN x) (hy : ¬IsNaN y) :
    extValue x < extValue y ↔ key x < key y := by
  rw [extValue_eq, extValue_eq, key, key]
  have hx0 := extAbs_nonneg x
  have hy0 := extAbs_nonneg y
  cases sign x with
  | false =>
    cases sign y with
    | false => simpa using extAbs_lt_iff hx hy
    | true =>
      have hneg : -extAbs y ≤ 0 := by simpa using hy0
      simp only [Bool.false_eq_true, if_false, if_true]
      exact iff_of_false (hneg.trans hx0).not_gt (by omega)
  | true =>
    cases sign y with
    | false =>
      have hneg : -extAbs x ≤ 0 := by simpa using hx0
      simp only [Bool.false_eq_true, if_false, if_true]
      rcases Nat.eq_zero_or_pos (mag x) with h0 | hpos
      · rw [mag_eq_zero h0, neg_zero, extAbs_pos_iff hy]
        omega
      · have hlt : -extAbs x < 0 := by simpa using (extAbs_pos_iff hx).mpr hpos
        exact iff_of_true (hlt.trans_le hy0) (by omega)
    | true =>
      simp only [if_true, EReal.neg_lt_neg_iff, extAbs_lt_iff hy hx]
      omega

theorem extValue_le_iff (hx : ¬IsNaN x) (hy : ¬IsNaN y) :
    extValue x ≤ extValue y ↔ key x ≤ key y := by
  rw [← not_lt, ← not_lt, extValue_lt_iff hy hx]

theorem extValue_eq_iff (hx : ¬IsNaN x) (hy : ¬IsNaN y) :
    extValue x = extValue y ↔ key x = key y := by
  rw [le_antisymm_iff, le_antisymm_iff, extValue_le_iff hx hy, extValue_le_iff hy hx]

end BinaryFormat
