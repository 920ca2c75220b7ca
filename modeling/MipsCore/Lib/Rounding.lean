import Mathlib.Algebra.Order.Field.Power
import MipsCore.Lib.BinaryFormat

/-! # Rounding to a binary format

A real is scaled by the unit in the last place of its binade and rounded to an integer.  The
lattice of that unit holds every representable number that could be as near, so the pattern of
the rounded integer, and no other value, is the nearest one.
-/
open NearestEven

namespace BinaryFormat
variable {f : BinaryFormat}

attribute [local instance] NearestEven.atLeastTwo_two in
/-- The numbers of the format with exponents that have no upper bound. -/
def Representable (f : BinaryFormat) (v : ℝ) : Prop :=
  ∃ (j : ℤ) (e : ℤ), |j| < 2 ^ (f.F + 1) ∧ f.minUlp ≤ e ∧ v = j * 2 ^ e

/-- The finite pattern `y` is `x` rounded to the nearest representable number, ties to the one
with an even last place. -/
structure RoundsTo (x : ℝ) (y : BitVec f.W) : Prop where
  finite : IsFinite y
  nearest : ∀ v, f.Representable v → |x - value y| ≤ |x - v|
  tie : (∃ v, f.Representable v ∧ v ≠ value y ∧ |x - v| = |x - value y|) → y.getLsbD 0 = false

attribute [local instance] NearestEven.atLeastTwo_two in
/-- A magnitude from the smallest to the largest normal number. -/
def InNormalRange (f : BinaryFormat) (x : ℝ) : Prop :=
  2 ^ f.F * 2 ^ f.minUlp ≤ |x| ∧ |x| ≤ (2 ^ (f.F + 1) - 1) * 2 ^ ((f.bias : ℤ) - f.F)

/-- A real that rounds to a normal number. -/
def RoundsToNormal (f : BinaryFormat) (x : ℝ) : Prop := ∃ y : BitVec f.W, IsNormal y ∧ RoundsTo x y

theorem Representable.neg {v : ℝ} (h : f.Representable v) : f.Representable (-v) := by
  obtain ⟨j, e, hj, he, rfl⟩ := h
  exact ⟨-j, e, by rwa [abs_neg], he, by push_cast; ring⟩

theorem representable_value (y : BitVec f.W) : f.Representable (value y) := by
  have hS : |(sig y : ℤ)| < 2 ^ (f.F + 1) := by
    rw [Nat.abs_cast]
    exact_mod_cast sig_lt y
  have h : f.Representable (sig y * 2 ^ ulp y) := ⟨sig y, ulp y, hS, minUlp_le y, by push_cast; rfl⟩
  unfold value signed
  split
  · exact h.neg
  · exact h

/-- The last bit of a pattern is that of its significand. -/
theorem getLsbD_zero (y : BitVec f.W) : y.getLsbD 0 = decide (sig y % 2 = 1) := by
  have hF := f.four_le_F
  have h1 : y.getLsbD 0 = (frac y).getLsbD 0 := by
    rw [frac, BitVec.getLsbD_extractLsb']
    simp [show 0 < f.F by omega]
  have h2 : 2 ^ f.F % 2 = 0 := by
    rw [show f.F = f.F - 1 + 1 by omega, pow_succ, Nat.mul_mod_left]
  have h3 : sig y % 2 = (frac y).toNat % 2 := by
    unfold sig
    split <;> omega
  rw [h1, h3, BitVec.getLsbD, Nat.testBit_zero]

theorem RoundsTo.negate {x : ℝ} {y : BitVec f.W} (h : RoundsTo x y) :
    RoundsTo (-x) (BinaryFormat.negate y) := by
  have hflip : ∀ v w : ℝ, |-x - v| = |x - -v| := by
    intro v w
    rw [← abs_neg]
    congr 1
    ring
  have habs : |-x - value (BinaryFormat.negate y)| = |x - value y| := by
    rw [hflip _ 0, value_negate, neg_neg]
  refine ⟨by rw [IsFinite, exp_negate]; exact h.finite, fun v hv => ?_, ?_⟩
  · rw [habs, hflip v 0]
    exact h.nearest _ hv.neg
  · rintro ⟨v, hv, hne, he⟩
    rw [getLsbD_zero, sig_negate, ← getLsbD_zero]
    refine h.tie ⟨-v, hv.neg, fun hc => hne ?_, ?_⟩
    · rw [value_negate, ← hc, neg_neg]
    · rw [← hflip v 0, he, habs]

theorem negate_negate (y : BitVec f.W) : negate (negate y) = y :=
  ext_fields (by simp) (by simp) (by simp)

theorem roundsTo_neg {x : ℝ} {y : BitVec f.W} : RoundsTo (-x) (negate y) ↔ RoundsTo x y := by
  refine ⟨fun h => ?_, RoundsTo.negate⟩
  have h := h.negate
  rwa [neg_neg, negate_negate] at h

/-! ## The lattice of one unit -/

section
variable {t : ℝ} {n : ℕ} {k : ℤ}

/-- What rounding asks of a unit: it is that of the binade of the scaled number, or the
smallest. -/
structure Scaled (f : BinaryFormat) (t : ℝ) (k : ℤ) : Prop where
  nonneg : 0 ≤ t
  lt : t < 2 ^ (f.F + 1)
  minUlp_le : f.minUlp ≤ k
  normal : 2 ^ f.F ≤ t ∨ k = f.minUlp

/-- A representable number lies on the lattice or below the binade. -/
theorem Representable.lattice (hs : f.Scaled t k) {v : ℝ} (h : f.Representable v) :
    (∃ j : ℤ, v = j * 2 ^ k) ∨ 2 ^ f.F ≤ t ∧ v < 2 ^ f.F * 2 ^ k := by
  obtain ⟨j, e, hj, he, rfl⟩ := h
  by_cases hke : k ≤ e
  · obtain ⟨d, rfl⟩ : ∃ d : ℕ, e = k + d := ⟨(e - k).toNat, by omega⟩
    refine Or.inl ⟨j * 2 ^ d, ?_⟩
    rw [zpow_add₀ two_ne_zero, zpow_natCast]
    push_cast
    ring
  · have ht : 2 ^ f.F ≤ t := hs.normal.resolve_right (by omega)
    obtain ⟨d, rfl⟩ : ∃ d : ℕ, k = e + 1 + d := ⟨(k - e - 1).toNat, by omega⟩
    refine Or.inr ⟨ht, ?_⟩
    have hj : (j : ℝ) < 2 ^ (f.F + 1) := by exact_mod_cast (le_abs_self j).trans_lt hj
    have he : (0 : ℝ) < 2 ^ e := zpow_pos two_pos e
    have hd : (1 : ℝ) ≤ 2 ^ d := one_le_pow₀ (by norm_num)
    calc (j : ℝ) * 2 ^ e < 2 ^ (f.F + 1) * 2 ^ e := mul_lt_mul_of_pos_right hj he
      _ ≤ 2 ^ (f.F + 1) * 2 ^ e * 2 ^ d := le_mul_of_one_le_right (by positivity) hd
      _ = 2 ^ f.F * 2 ^ (e + 1 + d) := by
        rw [zpow_add₀ two_ne_zero, zpow_add₀ two_ne_zero, zpow_natCast, zpow_one]
        ring

theorem le_nearest (hn : IsNearest t n) (ht : 2 ^ f.F ≤ t) : 2 ^ f.F ≤ n := by
  have h := (abs_le.mp hn.1).2
  have : (2 : ℝ) ^ f.F - 1 < n := by linarith
  have : (2 ^ f.F : ℝ) < (n + 1 : ℕ) := by push_cast; linarith
  have : 2 ^ f.F < n + 1 := by exact_mod_cast this
  omega

theorem Scaled.nearest_le (hs : f.Scaled t k) (hn : IsNearest t n) : n ≤ 2 ^ (f.F + 1) := by
  have h := (abs_le.mp hn.1).1
  have hlt := hs.lt
  have : (n : ℝ) < (2 ^ (f.F + 1) + 1 : ℕ) := by push_cast; linarith
  have : n < 2 ^ (f.F + 1) + 1 := by exact_mod_cast this
  omega

/-- The rounded number is representable. -/
theorem Scaled.representable (hs : f.Scaled t k) (hn : IsNearest t n) :
    f.Representable (n * 2 ^ k) := by
  rcases Nat.lt_or_eq_of_le (hs.nearest_le hn) with h | h
  · refine ⟨n, k, ?_, hs.minUlp_le, by push_cast; rfl⟩
    rw [Nat.abs_cast]
    exact_mod_cast h
  · refine ⟨2 ^ f.F, k + 1, ?_, by have := hs.minUlp_le; omega, ?_⟩
    · rw [abs_of_pos (by positivity)]
      exact pow_lt_pow_right₀ (by norm_num) (Nat.lt_succ_self _)
    · rw [h, zpow_add₀ two_ne_zero, zpow_one, pow_succ]
      push_cast
      ring

theorem abs_scaled (t v : ℝ) (k : ℤ) : |t * 2 ^ k - v * 2 ^ k| = |t - v| * 2 ^ k := by
  have hk : (0 : ℝ) < 2 ^ k := zpow_pos two_pos k
  rw [← sub_mul, abs_mul, abs_of_pos hk]

/-- No representable number is nearer than the rounded one. -/
theorem Scaled.nearest (hs : f.Scaled t k) (hn : IsNearest t n) {v : ℝ} (hv : f.Representable v) :
    |t * 2 ^ k - n * 2 ^ k| ≤ |t * 2 ^ k - v| := by
  have hk : (0 : ℝ) < 2 ^ k := zpow_pos two_pos k
  have hlat : ∀ j : ℤ, |t * 2 ^ k - n * 2 ^ k| ≤ |t * 2 ^ k - j * 2 ^ k| := by
    intro j
    rw [abs_scaled, abs_scaled]
    exact mul_le_mul_of_nonneg_right (hn.le j) hk.le
  rcases hv.lattice hs with ⟨j, rfl⟩ | ⟨ht, hlt⟩
  · exact hlat j
  · have hx : (2 : ℝ) ^ f.F * 2 ^ k ≤ t * 2 ^ k := mul_le_mul_of_nonneg_right ht hk.le
    have h := hlat (2 ^ f.F)
    push_cast at h
    rw [abs_of_nonneg (sub_nonneg.mpr hx)] at h
    rw [abs_of_pos (by linarith : 0 < t * 2 ^ k - v)]
    linarith

/-- Another representable number that is as near is the other integer of a tie. -/
theorem Scaled.tie (hs : f.Scaled t k) (hn : IsNearest t n) {v : ℝ} (hv : f.Representable v)
    (hne : v ≠ n * 2 ^ k) (he : |t * 2 ^ k - v| ≤ |t * 2 ^ k - n * 2 ^ k|) :
    Even n ∧ ∃ j : ℕ, v = j * 2 ^ k ∧ Odd j ∧ j < 2 ^ (f.F + 1) ∧ (2 ^ f.F ≤ j ∨ k = f.minUlp) := by
  have hk : (0 : ℝ) < 2 ^ k := zpow_pos two_pos k
  rcases hv.lattice hs with ⟨j, rfl⟩ | ⟨ht, hlt⟩
  · have hj : j ≠ n := by
      rintro rfl
      exact hne (by push_cast; rfl)
    rw [abs_scaled, abs_scaled, mul_le_mul_iff_left₀ hk] at he
    obtain ⟨heven, habs, hodd⟩ := hn.tie hj he
    obtain ⟨hlo, hhi⟩ := abs_le.mp habs.le
    have hpos : 0 ≤ j := by
      have : (-1 : ℝ) < j := by linarith [hs.nonneg]
      have : (-1 : ℤ) < j := by exact_mod_cast this
      omega
    obtain ⟨j, rfl⟩ := Int.eq_ofNat_of_zero_le hpos
    have hodd : Odd j := by exact_mod_cast hodd
    refine ⟨heven, j, by push_cast; rfl, hodd, ?_, ?_⟩
    · have h1 : (j : ℝ) < (2 ^ (f.F + 1) + 1 : ℕ) := by
        push_cast at hlo ⊢
        linarith [hs.lt]
      have h1 : j < 2 ^ (f.F + 1) + 1 := by exact_mod_cast h1
      have h2 : 2 ^ (f.F + 1) % 2 = 0 := by rw [pow_succ, Nat.mul_mod_left]
      obtain ⟨r, hr⟩ := hodd
      omega
    · refine hs.normal.imp (fun ht => ?_) id
      have h1 : ((2 ^ f.F : ℕ) : ℝ) < (j + 1 : ℕ) := by
        push_cast at hhi ⊢
        linarith
      have h1 : 2 ^ f.F < j + 1 := by exact_mod_cast h1
      omega
  · have h := hs.nearest hn (v := 2 ^ f.F * 2 ^ k) ⟨2 ^ f.F, k, by
      rw [abs_of_pos (by positivity)]
      exact pow_lt_pow_right₀ (by norm_num) (Nat.lt_succ_self _), hs.minUlp_le, by push_cast; rfl⟩
    have hx : (2 : ℝ) ^ f.F * 2 ^ k ≤ t * 2 ^ k := mul_le_mul_of_nonneg_right ht hk.le
    rw [abs_of_nonneg (sub_nonneg.mpr hx)] at h
    rw [abs_of_pos (by linarith : 0 < t * 2 ^ k - v)] at he
    linarith

/-- The significand of a pattern whose value is on the lattice. -/
theorem sig_of_value {y : BitVec f.W} {S : ℕ} (hS : S < 2 ^ (f.F + 1)) (hk : f.minUlp ≤ k)
    (hn : 2 ^ f.F ≤ S ∨ k = f.minUlp) (h : value y = S * 2 ^ k) : sig y = S := by
  refine scaled_inj (sig_lt y) hS (minUlp_le y) hk (sig_normal_or y) hn ?_
  have h1 : (0 : ℝ) ≤ sig y * 2 ^ ulp y := by positivity
  have h2 : (0 : ℝ) ≤ S * 2 ^ k := by positivity
  have habs := congrArg (fun r => |r|) h
  rwa [value, abs_signed, abs_of_nonneg h1, abs_of_nonneg h2] at habs

theorem Scaled.even_last (hs : f.Scaled t k) (hn : IsNearest t n) (heven : Even n)
    {y : BitVec f.W} (h : value y = n * 2 ^ k) : y.getLsbD 0 = false := by
  have hmin := hs.minUlp_le
  rw [getLsbD_zero]
  rcases Nat.lt_or_eq_of_le (hs.nearest_le hn) with hlt | heq
  · have hnorm := hs.normal.imp (le_nearest hn) id
    rw [sig_of_value hlt hmin hnorm h]
    obtain ⟨r, hr⟩ := heven
    simp
    omega
  · have h' : value y = (2 ^ f.F : ℕ) * 2 ^ (k + 1) := by
      rw [h, heq, zpow_add₀ two_ne_zero, zpow_one, pow_succ]
      push_cast
      ring
    have hF := f.four_le_F
    have hlt : 2 ^ f.F < 2 ^ (f.F + 1) := Nat.pow_lt_pow_right (by decide) (Nat.lt_succ_self _)
    rw [sig_of_value hlt (by omega) (Or.inl le_rfl) h']
    have h2 : 2 ^ f.F % 2 = 0 := by
      rw [show f.F = f.F - 1 + 1 by omega, pow_succ, Nat.mul_mod_left]
    simp [h2]

/-- A number on the scale of its unit is rounded to the pattern of the nearest integer, and to no
other value. -/
theorem roundsTo_iff (hs : f.Scaled t k) (hn : IsNearest t n) (y : BitVec f.W) :
    RoundsTo (t * 2 ^ k) y ↔ IsFinite y ∧ value y = n * 2 ^ k := by
  constructor
  · rintro ⟨hfin, hnear, htie⟩
    refine ⟨hfin, ?_⟩
    by_contra hne
    have hle := hnear _ (hs.representable hn)
    have hge := hs.nearest hn (representable_value y)
    obtain ⟨-, j, hj, hodd, hjlt, hjn⟩ := hs.tie hn (representable_value y) hne hle
    have hbit := htie ⟨_, hs.representable hn, Ne.symm hne, le_antisymm hge hle⟩
    rw [getLsbD_zero, sig_of_value hjlt hs.minUlp_le hjn hj] at hbit
    obtain ⟨r, hr⟩ := hodd
    simp at hbit
    omega
  · rintro ⟨hfin, hval⟩
    refine ⟨hfin, fun v hv => by rw [hval]; exact hs.nearest hn hv, ?_⟩
    rintro ⟨v, hv, hne, he⟩
    rw [hval] at hne he
    exact hs.even_last hn (hs.tie hn hv hne he.le).1 hval
end

/-! ## Results with a biased exponent -/

/-- The pattern of a normalised significand `S` under the biased exponent `e`. -/
def encode (f : BinaryFormat) (s : Bool) (e S : ℕ) : BitVec f.W :=
  pack s (BitVec.ofNat f.E e) (BitVec.ofNat f.F S)

theorem encode_true (e S : ℕ) : encode f true e S = negate (encode f false e S) :=
  ext_fields (by simp [encode]) (by simp [encode]) (by simp [encode])

/-- A significand that has carried has the fraction of the smallest one. -/
theorem encode_two_pow {s : Bool} {e : ℕ} :
    encode f s e (2 ^ (f.F + 1)) = encode f s e (2 ^ f.F) := by
  refine ext_fields (by simp [encode]) (by simp [encode]) (BitVec.eq_of_toNat_eq ?_)
  rw [encode, encode, frac_pack, frac_pack, BitVec.toNat_ofNat, BitVec.toNat_ofNat, pow_succ,
    Nat.mul_mod_right, Nat.mod_self]

theorem roundsTo_signed {s : Bool} {x : ℝ} {e S : ℕ} :
    RoundsTo (signed s x) (encode f s e S) ↔ RoundsTo x (encode f false e S) := by
  cases s with
  | false => rfl
  | true => rw [signed_true, encode_true, roundsTo_neg]

theorem roundsToNormal_signed {s : Bool} {x : ℝ} :
    f.RoundsToNormal (signed s x) ↔ f.RoundsToNormal x := by
  have hneg : ∀ {x : ℝ}, f.RoundsToNormal x → f.RoundsToNormal (-x) := by
    rintro x ⟨y, hy, hr⟩
    refine ⟨negate y, ?_, hr.negate⟩
    rwa [IsNormal, exp_negate]
  cases s with
  | false => rfl
  | true =>
    refine ⟨fun h => ?_, hneg⟩
    have h := hneg h
    rwa [signed_true, neg_neg] at h

theorem exp_encode {s : Bool} {e S : ℕ} (he : e ≤ 2 * f.bias + 1) :
    (exp (encode f s e S)).toNat = e := by
  have hE := f.two_pow_E
  rw [encode, exp_pack, BitVec.toNat_ofNat, Nat.mod_eq_of_lt (by omega)]

theorem isNormal_encode {s : Bool} {e S : ℕ} (h1 : 1 ≤ e) (h2 : e ≤ 2 * f.bias) :
    IsNormal (encode f s e S) := by
  have he := exp_encode (f := f) (s := s) (S := S) (by omega : e ≤ 2 * f.bias + 1)
  have hE := f.two_pow_E
  refine ⟨fun h => ?_, fun h => ?_⟩
  · rw [h, BitVec.ofNat_eq_ofNat, BitVec.toNat_ofNat, Nat.zero_mod] at he
    omega
  · rw [h, BitVec.toNat_allOnes] at he
    omega

theorem not_isFinite_encode {s : Bool} {S : ℕ} : ¬IsFinite (encode f s (2 * f.bias + 1) S) := by
  have he := exp_encode (f := f) (s := s) (S := S) le_rfl
  have hE := f.two_pow_E
  refine not_not.mpr (BitVec.eq_of_toNat_eq ?_)
  rw [he, BitVec.toNat_allOnes]
  omega

theorem sig_encode {s : Bool} {e S : ℕ} (h1 : 1 ≤ e) (h2 : e ≤ 2 * f.bias) (hlo : 2 ^ f.F ≤ S)
    (hhi : S < 2 ^ (f.F + 1)) : sig (encode f s e S) = S := by
  have hmod : S % 2 ^ f.F = S - 2 ^ f.F := by
    rw [Nat.mod_eq_sub_mod hlo, Nat.mod_eq_of_lt (by rw [pow_succ] at hhi; omega)]
  rw [sig_of_normal (isNormal_encode h1 h2), encode, frac_pack, BitVec.toNat_ofNat, hmod]
  omega

theorem value_encode {s : Bool} {e S : ℕ} (h1 : 1 ≤ e) (h2 : e ≤ 2 * f.bias) (hlo : 2 ^ f.F ≤ S)
    (hhi : S < 2 ^ (f.F + 1)) :
    value (encode f s e S) = signed s (S * 2 ^ ((e : ℤ) - f.bias - f.F)) := by
  rw [value, sig_encode h1 h2 hlo hhi, ulp_of_normal (isNormal_encode h1 h2),
    exp_encode (by omega), encode, sign_pack]

theorem value_of_normal {x : BitVec f.W} (h : IsNormal x) :
    value x = signed (sign x) (sig x * 2 ^ (((exp x).toNat : ℤ) - f.bias - f.F)) := by
  rw [value, ulp_of_normal h]

/-- A pattern without an exponent is too small to be normal. -/
theorem value_encode_zero_lt {S : ℕ} :
    value (encode f false 0 S) < 2 ^ f.F * 2 ^ f.minUlp := by
  have he : exp (encode f false 0 S) = 0 := by simp [encode]
  have hlt : sig (encode f false 0 S) < 2 ^ f.F := by
    rw [sig, if_pos he, Nat.zero_add]
    exact BitVec.isLt _
  have hu : ulp (encode f false 0 S) = f.minUlp := by
    rw [ulp, he, minUlp]
    simp
  have hlt : (sig (encode f false 0 S) : ℝ) < 2 ^ f.F := by exact_mod_cast hlt
  have hs : sign (encode f false 0 S) = false := by simp [encode]
  rw [value, hs, hu, signed_false]
  exact mul_lt_mul_of_pos_right hlt (zpow_pos two_pos _)

/-- `N / D` is a normalised significand. -/
structure Normalised (f : BinaryFormat) (N D : ℕ) : Prop where
  pos : 0 < D
  le : 2 ^ f.F * D ≤ N
  lt : N < 2 ^ (f.F + 1) * D

section
variable {N D : ℕ}

theorem Normalised.scaled (h : f.Normalised N D) {k : ℤ} (hk : f.minUlp ≤ k) :
    f.Scaled (N / D) k := by
  have hD : (0 : ℝ) < D := Nat.cast_pos.mpr h.pos
  refine ⟨by positivity, ?_, hk, Or.inl ?_⟩
  · rw [div_lt_iff₀ hD]
    exact_mod_cast h.lt
  · rw [le_div_iff₀ hD]
    exact_mod_cast h.le

/-- The value of a normal pattern on a lattice bounds the unit of the lattice. -/
theorem exp_of_normal_value {y : BitVec f.W} (hy : IsNormal y) {n : ℕ} {e : ℤ}
    (hn : 2 ^ f.F ≤ n) (h : value y = n * 2 ^ (e - f.bias - f.F)) : e ≤ (exp y).toNat := by
  have h1 : (0 : ℝ) ≤ sig y * 2 ^ ulp y := by positivity
  have h2 : (0 : ℝ) ≤ n * 2 ^ (e - f.bias - f.F) := by positivity
  have habs := congrArg (fun r => |r|) h
  rw [value, abs_signed, abs_of_nonneg h1, abs_of_nonneg h2, ulp_of_normal hy] at habs
  by_contra hlt
  obtain ⟨d, rfl⟩ : ∃ d : ℕ, e = (exp y).toNat + 1 + d :=
    ⟨(e - (exp y).toNat - 1).toNat, by omega⟩
  have hsplit : ((2 : ℝ) ^ (((exp y).toNat : ℤ) + 1 + d - f.bias - f.F)) =
      2 * 2 ^ d * 2 ^ (((exp y).toNat : ℤ) - f.bias - f.F) := by
    rw [show (((exp y).toNat : ℤ) + 1 + d - f.bias - f.F) =
      1 + d + (((exp y).toNat : ℤ) - f.bias - f.F) by ring, zpow_add₀ two_ne_zero,
      zpow_add₀ two_ne_zero, zpow_one, zpow_natCast]
  rw [hsplit, ← mul_assoc] at habs
  have hS : (sig y : ℝ) = n * (2 * 2 ^ d) := mul_right_cancel₀ (zpow_pos two_pos _).ne' habs
  have hS : sig y = n * (2 * 2 ^ d) := by exact_mod_cast hS
  have hge : n * 2 ≤ sig y := by
    rw [hS]
    exact Nat.mul_le_mul_left _ (Nat.le_mul_of_pos_right 2 (Nat.two_pow_pos d))
  have hlt := sig_lt y
  rw [pow_succ] at hlt
  omega

theorem le_abs_value_of_normal {y : BitVec f.W} (hy : IsNormal y) :
    2 ^ f.F * 2 ^ f.minUlp ≤ |value y| := by
  have hS : (2 ^ f.F : ℝ) ≤ sig y := by
    rw [sig_of_normal hy]
    push_cast
    linarith [(Nat.cast_nonneg (frac y).toNat : (0 : ℝ) ≤ _)]
  have hu : (2 : ℝ) ^ f.minUlp ≤ 2 ^ ulp y := zpow_le_zpow_right₀ one_le_two (minUlp_le y)
  rw [value, abs_signed, abs_of_nonneg (by positivity)]
  exact mul_le_mul hS hu (by positivity) (by positivity)

/-- A number below the smallest normal one, on the scale of the smallest unit. -/
theorem Normalised.scaled_below (h : f.Normalised N D) (j : ℕ) :
    f.Scaled (N / (D * 2 ^ (j + 1) : ℕ)) f.minUlp ∧
      (N : ℝ) / D * 2 ^ (-(j : ℤ) - f.bias - f.F) = N / (D * 2 ^ (j + 1) : ℕ) * 2 ^ f.minUlp := by
  have hD : (0 : ℝ) < D := Nat.cast_pos.mpr h.pos
  have hj : (1 : ℝ) ≤ 2 ^ (j + 1) := one_le_pow₀ (by norm_num)
  refine ⟨⟨by positivity, ?_, le_rfl, Or.inr rfl⟩, ?_⟩
  · push_cast
    rw [div_lt_iff₀ (by positivity)]
    have hlt : (N : ℝ) < 2 ^ (f.F + 1) * D := by exact_mod_cast h.lt
    calc (N : ℝ) < 2 ^ (f.F + 1) * D := hlt
      _ ≤ 2 ^ (f.F + 1) * D * 2 ^ (j + 1) := le_mul_of_one_le_right (by positivity) hj
      _ = 2 ^ (f.F + 1) * (D * 2 ^ (j + 1)) := mul_assoc _ _ _
  · have hz : (2 : ℝ) ^ f.minUlp = 2 ^ (-(j : ℤ) - f.bias - f.F) * 2 ^ (j + 1) := by
      rw [minUlp, ← zpow_natCast, ← zpow_add₀ two_ne_zero]
      congr 1
      push_cast
      ring
    rw [hz]
    push_cast
    field_simp

/-- The exponents of what rounds to a normal number: none is above the range, and one below it
only when the significand is at the top of its binade. -/
theorem Normalised.range (h : f.Normalised N D) {e : ℤ}
    (hx : f.RoundsToNormal (N / D * 2 ^ (e - f.bias - f.F))) :
    0 ≤ e ∧ e ≤ 2 * f.bias ∧ (e = 0 → (2 ^ (f.F + 1) - 1) * D ≤ N) ∧
      (e = 2 * f.bias → nearestEven N D < 2 ^ (f.F + 1)) := by
  obtain ⟨y, hy, hr⟩ := hx
  have hexp := exp_lt_of_finite hr.finite
  have hbias := f.bias_pos
  have hn := isNearest (N := N) h.pos
  rcases le_or_gt e 0 with he | he
  · obtain ⟨j, rfl⟩ : ∃ j : ℕ, e = -j := ⟨(-e).toNat, by omega⟩
    obtain ⟨hs, heq⟩ := h.scaled_below j
    have hpos : 0 < D * 2 ^ (j + 1) := Nat.mul_pos h.pos (Nat.two_pow_pos _)
    rw [heq, roundsTo_iff hs (isNearest hpos)] at hr
    have hle := le_abs_value_of_normal hy
    rw [hr.2, abs_of_nonneg (by positivity), mul_le_mul_iff_left₀ (zpow_pos two_pos _)] at hle
    have hle : 2 ^ f.F ≤ nearestEven N (D * 2 ^ (j + 1)) := by exact_mod_cast hle
    have htop : (2 ^ (f.F + 1) - 1) * (D * 2 ^ (j + 1)) ≤ 2 * N := by
      have hdm := Nat.div_add_mod N (D * 2 ^ (j + 1))
      have h16 := f.sixteen_le
      rcases nearestEven_cases N (D * 2 ^ (j + 1)) with ⟨h1, -⟩ | ⟨h1, h2⟩
      · rw [h1] at hle
        have hm := Nat.mul_le_mul_right (D * 2 ^ (j + 1)) hle
        have hc := Nat.mul_comm (D * 2 ^ (j + 1)) (N / (D * 2 ^ (j + 1)))
        rw [pow_succ, Nat.sub_mul, Nat.mul_right_comm]
        omega
      · have hle : 2 ^ f.F - 1 ≤ N / (D * 2 ^ (j + 1)) := by omega
        have hm := Nat.mul_le_mul_right (D * 2 ^ (j + 1)) hle
        have hc := Nat.mul_comm (D * 2 ^ (j + 1)) (N / (D * 2 ^ (j + 1)))
        have hge := Nat.mul_le_mul_right (D * 2 ^ (j + 1)) (by omega : 1 ≤ 2 ^ f.F)
        rw [Nat.sub_mul] at hm
        rw [pow_succ, Nat.sub_mul, Nat.mul_right_comm]
        omega
    have hlt := h.lt
    rcases j with _ | j
    · refine ⟨by simp, by simp, fun _ => ?_, fun hc => by simp at hc; omega⟩
      rw [zero_add, pow_one, ← Nat.mul_assoc] at htop
      omega
    · exfalso
      have hp := Nat.two_pow_pos j
      have h16 := f.sixteen_le
      have hD := h.pos
      have h4 : (2 ^ (f.F + 1) - 1) * (D * 4) ≤ (2 ^ (f.F + 1) - 1) * (D * 2 ^ (j + 1 + 1)) := by
        refine Nat.mul_le_mul_left _ (Nat.mul_le_mul_left _ ?_)
        rw [pow_succ, pow_succ]
        omega
      have h5 : (2 ^ (f.F + 1) - 1) * (D * 4) = 4 * (2 ^ (f.F + 1) * D) - 4 * D := by
        rw [Nat.sub_mul, Nat.mul_left_comm, Nat.one_mul]
        ring_nf
      have h6 := Nat.mul_le_mul_right D (by rw [pow_succ]; omega : 4 ≤ 2 ^ (f.F + 1))
      omega
  · have hs := h.scaled (k := e - f.bias - f.F) (by unfold minUlp; omega)
    rw [roundsTo_iff hs hn] at hr
    have hge := le_nearestEven_of_mul_le h.pos h.le
    have hle := exp_of_normal_value hy hge hr.2
    refine ⟨by omega, by omega, fun hc => by omega, fun hc => ?_⟩
    refine lt_of_le_of_ne (nearestEven_le_of_lt_mul h.pos h.lt) fun heq => ?_
    have hval : value y = (2 ^ f.F : ℕ) * 2 ^ (e + 1 - f.bias - f.F) := by
      rw [hr.2, heq, show e + 1 - f.bias - f.F = (e - f.bias - f.F) + 1 by ring,
        zpow_add₀ two_ne_zero, zpow_one, pow_succ]
      push_cast
      ring
    have := exp_of_normal_value hy le_rfl hval
    omega

/-- The value of a significand that may have carried into the next binade. -/
theorem value_encode_carry {e c : ℕ} (h1 : 1 ≤ e + c / 2 ^ (f.F + 1))
    (h2 : e + c / 2 ^ (f.F + 1) ≤ 2 * f.bias) (hlo : 2 ^ f.F ≤ c) (hhi : c ≤ 2 ^ (f.F + 1)) :
    value (encode f false (e + c / 2 ^ (f.F + 1)) c) = c * 2 ^ ((e : ℤ) - f.bias - f.F) := by
  have hpos := Nat.two_pow_pos (f.F + 1)
  rcases Nat.lt_or_eq_of_le hhi with hlt | rfl
  · rw [Nat.div_eq_of_lt hlt, Nat.add_zero] at *
    rw [value_encode h1 h2 hlo hlt, signed_false]
  · rw [Nat.div_self hpos] at *
    have hlt : 2 ^ f.F < 2 ^ (f.F + 1) := Nat.pow_lt_pow_right (by decide) (Nat.lt_succ_self _)
    rw [encode_two_pow, value_encode h1 h2 le_rfl hlt, signed_false, pow_succ,
      show ((e + 1 : ℕ) : ℤ) - f.bias - f.F = (e - f.bias - f.F) + 1 by push_cast; ring,
      zpow_add₀ two_ne_zero, zpow_one]
    push_cast
    ring

/-- At the top of the last binade below the normal numbers, everything rounds to the smallest
normal number. -/
theorem Normalised.nearestEven_top (h : f.Normalised N D)
    (htop : (2 ^ (f.F + 1) - 1) * D ≤ N) : nearestEven N (D * 2) = 2 ^ f.F := by
  have hD := h.pos
  have hF := f.four_le_F
  have hpow : 2 ^ (f.F + 1) = 2 * 2 ^ f.F := pow_succ' _ _
  have heven : 2 ^ f.F % 2 = 0 := by
    rw [show f.F = f.F - 1 + 1 by omega, pow_succ, Nat.mul_mod_left]
  have h16 := f.sixteen_le
  have hlt := h.lt
  rw [hpow, Nat.sub_mul, Nat.mul_assoc, Nat.one_mul] at htop
  rw [hpow, Nat.mul_assoc] at hlt
  have hge := Nat.mul_le_mul_right D (by omega : 1 ≤ 2 ^ f.F)
  have hq : N / (D * 2) = 2 ^ f.F - 1 := by
    rw [Nat.div_eq_iff (by omega), Nat.mul_comm D 2, Nat.mul_left_comm, Nat.sub_mul]
    omega
  have hr : N % (D * 2) = N - (2 ^ f.F - 1) * (D * 2) := by
    rw [Nat.mod_eq_sub, hq, Nat.mul_comm]
  have hmul : (2 ^ f.F - 1) * (D * 2) = 2 * (2 ^ f.F * D) - 2 * D := by
    rw [Nat.sub_mul, Nat.one_mul, Nat.mul_comm D 2, Nat.mul_left_comm]
  rw [hmul] at hr
  rw [nearestEven_eq_succ.mpr ?_, hq]
  · omega
  · rw [hq]
    omega

/-- The rounded significand, carry included, is the rounded result. -/
theorem Normalised.roundsToNormal (h : f.Normalised N D) {s : Bool} {e : ℕ} (h1 : 1 ≤ e)
    (h2 : e < 2 * f.bias ∨ e = 2 * f.bias ∧ nearestEven N D < 2 ^ (f.F + 1)) :
    f.RoundsToNormal (signed s (N / D * 2 ^ ((e : ℤ) - f.bias - f.F))) := by
  have hlo := le_nearestEven_of_mul_le h.pos h.le
  have hhi := nearestEven_le_of_lt_mul h.pos h.lt
  have hle : e + nearestEven N D / 2 ^ (f.F + 1) ≤ 2 * f.bias := by
    rcases h2 with h2 | ⟨h2, hlt⟩
    · have hc : nearestEven N D / 2 ^ (f.F + 1) ≤ 1 :=
        Nat.div_le_of_le_mul (by rwa [Nat.mul_one])
      omega
    · rw [Nat.div_eq_of_lt hlt]
      omega
  have hge := Nat.le_add_right_of_le (k := nearestEven N D / 2 ^ (f.F + 1)) h1
  have hnorm := isNormal_encode (f := f) (s := false) (S := nearestEven N D) hge hle
  rw [roundsToNormal_signed]
  refine ⟨_, hnorm, ?_⟩
  rw [roundsTo_iff (h.scaled (by unfold minUlp; omega)) (isNearest h.pos)]
  exact ⟨hnorm.2, value_encode_carry hge hle hlo hhi⟩

/-- A finite pattern is its own value rounded. -/
theorem roundsTo_value {y : BitVec f.W} (hy : IsFinite y) : RoundsTo (value y) y := by
  refine ⟨hy, fun v _ => by rw [sub_self, abs_zero]; exact abs_nonneg _, ?_⟩
  rintro ⟨v, -, hne, he⟩
  rw [sub_self, abs_zero, abs_eq_zero, sub_eq_zero] at he
  exact absurd he.symm hne

theorem roundsToNormal_value {y : BitVec f.W} (hy : IsNormal y) : f.RoundsToNormal (value y) :=
  ⟨y, hy, roundsTo_value hy.2⟩

/-- Zero does not round to a normal number. -/
theorem RoundsToNormal.ne_zero {x : ℝ} (h : f.RoundsToNormal x) : x ≠ 0 := by
  rintro rfl
  obtain ⟨y, hy, hr⟩ := h
  have hz : f.Representable 0 := ⟨0, f.minUlp, by simp, le_rfl, by simp⟩
  have hle := hr.nearest 0 hz
  have hge := le_abs_value_of_normal hy
  rw [sub_zero, abs_zero, zero_sub, abs_neg] at hle
  exact absurd (hge.trans hle) (not_le.mpr (by positivity))

/-- What rounds a representable number has its value. -/
theorem RoundsTo.value_eq {x : ℝ} {y : BitVec f.W} (h : RoundsTo x y) (hx : f.Representable x) :
    value y = x := by
  have hle := h.nearest x hx
  rw [sub_self, abs_zero] at hle
  exact (sub_eq_zero.mp (abs_eq_zero.mp (le_antisymm hle (abs_nonneg _)))).symm

/-- The value of a normal pattern is that of no other pattern. -/
theorem value_inj {y z : BitVec f.W} (hy : IsNormal y) (h : value z = value y) : z = y := by
  have hpos : ∀ w : BitVec f.W, (0 : ℝ) ≤ sig w * 2 ^ ulp w := fun w => by positivity
  have hnorm : 2 ^ f.F ≤ sig y := by
    rw [sig_of_normal hy]
    exact Nat.le_add_right _ _
  have hF := Nat.two_pow_pos f.F
  have habs : (sig z : ℝ) * 2 ^ ulp z = sig y * 2 ^ ulp y := by
    have := congrArg (fun r => |r|) h
    rwa [value, value, abs_signed, abs_signed, abs_of_nonneg (hpos z), abs_of_nonneg (hpos y)]
      at this
  have hsig : sig z = sig y := scaled_inj (sig_lt z) (sig_lt y) (minUlp_le z) (minUlp_le y)
    (sig_normal_or z) (sig_normal_or y) habs
  have hS : (0 : ℝ) < sig y := Nat.cast_pos.mpr (by omega)
  have hulp : ulp z = ulp y := by
    rw [hsig] at habs
    exact zpow_right_injective₀ two_pos (by norm_num) (mul_left_cancel₀ hS.ne' habs)
  have hez : exp z ≠ 0 := fun hz => by
    have := (frac z).isLt
    rw [sig, if_pos hz] at hsig
    omega
  have hsign : sign z = sign y := by
    have hne : (0 : ℝ) < sig y * 2 ^ ulp y := mul_pos hS (zpow_pos two_pos _)
    rw [value, value, hsig, hulp] at h
    revert h
    cases sign z <;> cases sign y <;> simp <;> intro h <;> linarith
  refine ext_fields hsign (BitVec.eq_of_toNat_eq ?_) (BitVec.eq_of_toNat_eq ?_)
  · have hz1 : 0 < (exp z).toNat := Nat.pos_of_ne_zero fun h0 => hez (BitVec.eq_of_toNat_eq (by
      simpa using h0))
    have hy1 := exp_pos_of_normal hy
    unfold ulp at hulp
    omega
  · rw [sig, if_neg hez, sig_of_normal hy] at hsig
    omega

/-- A normal number is rounded to its own pattern only. -/
theorem roundsTo_value_iff {y z : BitVec f.W} (hy : IsNormal y) : RoundsTo (value y) z ↔ z = y := by
  refine ⟨fun h => value_inj hy (h.value_eq (representable_value y)), ?_⟩
  rintro rfl
  exact roundsTo_value hy.2

/-- What is rounded to a normal number is rounded to its pattern only. -/
theorem Normalised.roundsTo_inj (h : f.Normalised N D) {s : Bool} {e : ℕ} (he : 1 ≤ e)
    {y z : BitVec f.W} (hy : IsNormal y)
    (h1 : RoundsTo (signed s (N / D * 2 ^ ((e : ℤ) - f.bias - f.F))) y)
    (h2 : RoundsTo (signed s (N / D * 2 ^ ((e : ℤ) - f.bias - f.F))) z) : z = y := by
  have hs := h.scaled (k := (e : ℤ) - f.bias - f.F) (by unfold minUlp; omega)
  have hvalue : ∀ {w : BitVec f.W},
      RoundsTo (signed s (N / D * 2 ^ ((e : ℤ) - f.bias - f.F))) w →
        value w = signed s (nearestEven N D * 2 ^ ((e : ℤ) - f.bias - f.F)) := by
    intro w hw
    cases s with
    | false => exact ((roundsTo_iff hs (isNearest h.pos) _).mp hw).2
    | true =>
      rw [signed_true, ← negate_negate w, roundsTo_neg] at hw
      have hval := ((roundsTo_iff hs (isNearest h.pos) _).mp hw).2
      rw [value_negate] at hval
      rw [signed_true, ← hval, neg_neg]
  exact value_inj hy ((hvalue h2).trans (hvalue h1).symm)

/-- The exact condition for an integer next to the significand to be encoded as the rounded
result, the carry out of the significand included. -/
theorem Normalised.roundsTo_encode (h : f.Normalised N D) {s : Bool} {e c : ℕ}
    (hx : f.RoundsToNormal (signed s (N / D * 2 ^ ((e : ℤ) - f.bias - f.F))))
    (hlo : 2 ^ f.F ≤ c) (hhi : c ≤ 2 ^ (f.F + 1)) :
    RoundsTo (signed s (N / D * 2 ^ ((e : ℤ) - f.bias - f.F)))
        (encode f s (e + c / 2 ^ (f.F + 1)) c) ↔
      if e = 0 then c = 2 ^ (f.F + 1) else c = nearestEven N D := by
  rw [roundsToNormal_signed] at hx
  rw [roundsTo_signed]
  obtain ⟨-, he, htop, hmax⟩ := h.range hx
  rcases Nat.eq_zero_or_pos e with rfl | hpos
  · obtain ⟨hs, heq⟩ := h.scaled_below 0
    have hD : 0 < D * 2 ^ (0 + 1) := Nat.mul_pos h.pos (by decide)
    have hn' : nearestEven N (D * 2 ^ (0 + 1)) = 2 ^ f.F := h.nearestEven_top (htop rfl)
    rw [Nat.cast_zero, neg_zero] at heq
    rw [if_pos rfl, Nat.cast_zero, heq, roundsTo_iff hs (isNearest hD), hn']
    rcases Nat.lt_or_eq_of_le hhi with hlt | rfl
    · rw [Nat.div_eq_of_lt hlt]
      have hval := value_encode_zero_lt (f := f) (S := c)
      refine iff_of_false (fun hc => ?_) hlt.ne
      rw [Nat.add_zero] at hc
      rw [hc.2] at hval
      push_cast at hval
      exact lt_irrefl _ hval
    · have hone : 0 + 2 ^ (f.F + 1) / 2 ^ (f.F + 1) = 1 := by
        rw [Nat.div_self (Nat.two_pow_pos _)]
      have hb := f.bias_pos
      have hval := value_encode_carry (f := f) (e := 0) (by omega) (by omega) hlo le_rfl
      rw [hone] at hval ⊢
      refine iff_of_true ⟨(isNormal_encode le_rfl (by omega)).2, ?_⟩ rfl
      rw [hval, minUlp, pow_succ, show (1 : ℤ) - f.bias - f.F = ((0 : ℕ) - f.bias - f.F) + 1 by
        push_cast; ring, zpow_add₀ two_ne_zero, zpow_one]
      push_cast
      ring
  · have hs := h.scaled (k := (e : ℤ) - f.bias - f.F) (by unfold minUlp; omega)
    rw [if_neg hpos.ne', roundsTo_iff hs (isNearest h.pos)]
    by_cases hfin : e + c / 2 ^ (f.F + 1) ≤ 2 * f.bias
    · have hge := Nat.le_add_right_of_le (k := c / 2 ^ (f.F + 1)) hpos
      rw [value_encode_carry hge hfin hlo hhi]
      have hnorm := isNormal_encode (f := f) (s := false) (S := c) hge hfin
      constructor
      · rintro ⟨-, hv⟩
        exact_mod_cast mul_right_cancel₀ (zpow_pos two_pos _).ne' hv
      · rintro rfl
        exact ⟨hnorm.2, rfl⟩
    · have hc : c = 2 ^ (f.F + 1) := by
        rcases Nat.lt_or_eq_of_le hhi with hlt | heq
        · rw [Nat.div_eq_of_lt hlt] at hfin
          omega
        · exact heq
      rw [hc, Nat.div_self (Nat.two_pow_pos _)] at hfin ⊢
      obtain rfl : e = 2 * f.bias := by omega
      refine iff_of_false (fun hy => not_isFinite_encode hy.1) (hmax (by push_cast; rfl)).ne'

end

end BinaryFormat
