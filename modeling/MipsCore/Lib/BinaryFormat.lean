import Mathlib
import MipsCore.Lib.NearestEven

/-! # Binary floating-point formats

A format has a sign, an exponent of `E` bits and a fraction of `F` bits.  A pattern denotes a
real, or an infinity, or no number.  Rounding is stated against every real that the format would
represent if its exponents had no upper bound, so that a result too large for the format is the
nearest of no pattern.
-/
open NearestEven

/-- The widths of the fields. -/
structure BinaryFormat where
  E : ℕ
  F : ℕ
  two_le_E : 2 ≤ E
  four_le_F : 4 ≤ F

namespace BinaryFormat

/-- 32 bits. -/
abbrev single : BinaryFormat := ⟨8, 23, by decide, by decide⟩
/-- 64 bits. -/
abbrev double : BinaryFormat := ⟨11, 52, by decide, by decide⟩

variable (f : BinaryFormat)

/-- The width of a pattern. -/
abbrev W : ℕ := 1 + f.E + f.F
def bias : ℕ := 2 ^ (f.E - 1) - 1
/-- The exponent of the smallest unit in the last place. -/
def minUlp : ℤ := 1 - f.bias - f.F

theorem two_pow_E : 2 ^ f.E = 2 * f.bias + 2 := by
  have hE := f.two_le_E
  have h1 : 2 ^ f.E = 2 * 2 ^ (f.E - 1) := by
    rw [← pow_succ']
    congr 1
    omega
  have h2 := Nat.two_pow_pos (f.E - 1)
  unfold bias
  omega

theorem bias_pos : 0 < f.bias := by
  have h1 : 2 ^ 2 ≤ 2 ^ f.E := Nat.pow_le_pow_right (by decide) f.two_le_E
  have h2 := f.two_pow_E
  omega

theorem sixteen_le : 16 ≤ 2 ^ f.F := Nat.pow_le_pow_right (n := 2) (by decide) f.four_le_F

variable {f}

/-! ## Fields -/

/-- A bit as a digit. -/
theorem getLsbD_eq_decide {w : ℕ} (m : BitVec w) (i : ℕ) :
    m.getLsbD i = decide (m.toNat / 2 ^ i % 2 = 1) := by
  rw [BitVec.getLsbD, Nat.testBit_eq_decide_div_mod_eq]

/-- The pattern with the given fields. -/
def pack (s : Bool) (e : BitVec f.E) (m : BitVec f.F) : BitVec f.W := BitVec.ofBool s ++ e ++ m

def sign (x : BitVec f.W) : Bool := x.getLsbD (f.E + f.F)
def exp (x : BitVec f.W) : BitVec f.E := x.extractLsb' f.F f.E
def frac (x : BitVec f.W) : BitVec f.F := x.extractLsb' 0 f.F

@[simp] theorem sign_pack (s : Bool) (e : BitVec f.E) (m : BitVec f.F) : sign (pack s e m) = s := by
  rw [sign, pack, BitVec.getLsbD_append, BitVec.getLsbD_append]
  simp

@[simp] theorem exp_pack (s : Bool) (e : BitVec f.E) (m : BitVec f.F) : exp (pack s e m) = e := by
  refine BitVec.eq_of_getLsbD_eq fun i hi => ?_
  rw [exp, pack, BitVec.getLsbD_extractLsb', BitVec.getLsbD_append, BitVec.getLsbD_append]
  simp [hi]

@[simp] theorem frac_pack (s : Bool) (e : BitVec f.E) (m : BitVec f.F) : frac (pack s e m) = m := by
  refine BitVec.eq_of_getLsbD_eq fun i hi => ?_
  rw [frac, pack, BitVec.getLsbD_extractLsb', BitVec.getLsbD_append]
  simp [hi]

theorem pack_fields (x : BitVec f.W) : pack (sign x) (exp x) (frac x) = x := by
  refine BitVec.eq_of_getLsbD_eq fun i hi => ?_
  rw [pack, BitVec.getLsbD_append, BitVec.getLsbD_append, frac, exp, sign,
    BitVec.getLsbD_extractLsb', BitVec.getLsbD_extractLsb', BitVec.getLsbD_ofBool]
  by_cases h1 : i < f.F
  · simp [h1]
  · by_cases h2 : i - f.F < f.E
    · simp [h1, h2, show f.F + (i - f.F) = i by omega]
    · have hi : i < 1 + f.E + f.F := hi
      obtain rfl : i = f.E + f.F := by omega
      simp

/-- A pattern is its fields. -/
theorem ext_fields {x y : BitVec f.W} (hs : sign x = sign y) (he : exp x = exp y)
    (hm : frac x = frac y) : x = y := by
  rw [← pack_fields x, hs, he, hm, pack_fields]

/-- The pattern with the other sign. -/
def negate (x : BitVec f.W) : BitVec f.W := pack (!sign x) (exp x) (frac x)

/-! ## Values -/

def IsFinite (x : BitVec f.W) : Prop := exp x ≠ BitVec.allOnes f.E
def IsNormal (x : BitVec f.W) : Prop := exp x ≠ 0 ∧ exp x ≠ BitVec.allOnes f.E
def IsNaN (x : BitVec f.W) : Prop := exp x = BitVec.allOnes f.E ∧ frac x ≠ 0
def IsZero (x : BitVec f.W) : Prop := exp x = 0 ∧ frac x = 0

instance (x : BitVec f.W) : Decidable (IsFinite x) := inferInstanceAs (Decidable (_ ≠ _))
instance (x : BitVec f.W) : Decidable (IsNormal x) := inferInstanceAs (Decidable (_ ∧ _))
instance (x : BitVec f.W) : Decidable (IsNaN x) := inferInstanceAs (Decidable (_ ∧ _))
instance (x : BitVec f.W) : Decidable (IsZero x) := inferInstanceAs (Decidable (_ ∧ _))

/-- The significand, with the leading one of a normal number. -/
def sig (x : BitVec f.W) : ℕ := (if exp x = 0 then 0 else 2 ^ f.F) + (frac x).toNat
/-- The exponent of the unit in the last place. -/
def ulp (x : BitVec f.W) : ℤ := max (exp x).toNat 1 - f.bias - f.F
def signed (s : Bool) (v : ℝ) : ℝ := if s then -v else v
attribute [local instance] NearestEven.atLeastTwo_two in
/-- The real that a finite pattern denotes. -/
noncomputable def value (x : BitVec f.W) : ℝ := signed (sign x) (sig x * 2 ^ ulp x)

/-- The extended real that a pattern other than a NaN denotes. -/
noncomputable def extValue (x : BitVec f.W) : EReal :=
  if exp x = BitVec.allOnes f.E then if sign x then ⊥ else ⊤ else (value x : EReal)

@[simp] theorem signed_false (v : ℝ) : signed false v = v := rfl
@[simp] theorem signed_true (v : ℝ) : signed true v = -v := rfl

theorem signed_not (s : Bool) (v : ℝ) : signed (!s) v = -signed s v := by cases s <;> simp
theorem abs_signed (s : Bool) (v : ℝ) : |signed s v| = |v| := by cases s <;> simp
theorem signed_inj {s : Bool} {v w : ℝ} : signed s v = signed s w ↔ v = w := by
  cases s <;> simp

@[simp] theorem sign_negate (x : BitVec f.W) : sign (negate x) = !sign x := sign_pack _ _ _
@[simp] theorem exp_negate (x : BitVec f.W) : exp (negate x) = exp x := exp_pack _ _ _
@[simp] theorem frac_negate (x : BitVec f.W) : frac (negate x) = frac x := frac_pack _ _ _
@[simp] theorem sig_negate (x : BitVec f.W) : sig (negate x) = sig x := by simp [sig]
@[simp] theorem ulp_negate (x : BitVec f.W) : ulp (negate x) = ulp x := by simp [ulp]
@[simp] theorem value_negate (x : BitVec f.W) : value (negate x) = -value x := by
  rw [value, value, sign_negate, signed_not, sig_negate, ulp_negate]

theorem sig_lt (x : BitVec f.W) : sig x < 2 ^ (f.F + 1) := by
  have h := (frac x).isLt
  rw [pow_succ]
  unfold sig
  split <;> omega

theorem minUlp_le (x : BitVec f.W) : f.minUlp ≤ ulp x := by
  unfold minUlp ulp
  omega

/-- A significand is normalised unless the exponent is the smallest. -/
theorem sig_normal_or (x : BitVec f.W) : 2 ^ f.F ≤ sig x ∨ ulp x = f.minUlp := by
  by_cases h : exp x = 0
  · refine Or.inr ?_
    rw [ulp, minUlp, h]
    simp
  · refine Or.inl ?_
    rw [sig, if_neg h]
    omega

theorem sig_of_normal {x : BitVec f.W} (h : IsNormal x) : sig x = 2 ^ f.F + (frac x).toNat := by
  rw [sig, if_neg h.1]

theorem exp_pos_of_normal {x : BitVec f.W} (h : IsNormal x) : 0 < (exp x).toNat := by
  refine Nat.pos_of_ne_zero fun he => h.1 (BitVec.eq_of_toNat_eq ?_)
  simpa using he

theorem exp_lt_of_finite {x : BitVec f.W} (h : IsFinite x) : (exp x).toNat < 2 * f.bias + 1 := by
  have hlt := (exp x).isLt
  rw [f.two_pow_E] at hlt
  by_contra hge
  refine h (BitVec.eq_of_toNat_eq ?_)
  rw [BitVec.toNat_allOnes, f.two_pow_E]
  omega

theorem isZero_zero : IsZero (0 : BitVec f.W) := by
  constructor <;> exact BitVec.eq_of_toNat_eq (by simp [exp, frac])

theorem not_isNormal_of_zero {x : BitVec f.W} (h : IsZero x) : ¬IsNormal x := fun hn => hn.1 h.1

theorem isFinite_of_zero {x : BitVec f.W} (h : IsZero x) : IsFinite x := by
  intro hc
  have hE := f.two_pow_E
  have hc := congrArg BitVec.toNat (h.1.symm.trans hc)
  rw [BitVec.toNat_allOnes, BitVec.ofNat_eq_ofNat, BitVec.toNat_ofNat, Nat.zero_mod] at hc
  omega

theorem value_zero {x : BitVec f.W} (h : IsZero x) : value x = 0 := by
  have hsig : sig x = 0 := by
    rw [sig, if_pos h.1, h.2]
    simp
  rw [value, hsig, Nat.cast_zero, zero_mul, signed]
  split <;> simp

theorem ulp_of_normal {x : BitVec f.W} (h : IsNormal x) :
    ulp x = (exp x).toNat - f.bias - f.F := by
  have := exp_pos_of_normal h
  unfold ulp
  omega

/-! ## Uniqueness of significands -/

/-- Two scaled significands of one value agree. -/
theorem scaled_inj {S T : ℕ} {a b : ℤ} (hS : S < 2 ^ (f.F + 1)) (hT : T < 2 ^ (f.F + 1))
    (ha : f.minUlp ≤ a) (hb : f.minUlp ≤ b) (hSn : 2 ^ f.F ≤ S ∨ a = f.minUlp)
    (hTn : 2 ^ f.F ≤ T ∨ b = f.minUlp) (h : (S : ℝ) * 2 ^ a = T * 2 ^ b) : S = T := by
  have key : ∀ {S T : ℕ} {a b : ℤ}, S < 2 ^ (f.F + 1) → f.minUlp ≤ a →
      (2 ^ f.F ≤ T ∨ b = f.minUlp) → (S : ℝ) * 2 ^ a = T * 2 ^ b → ¬a < b := by
    intro S T a b hS ha hTn h hab
    obtain ⟨k, rfl⟩ : ∃ k : ℕ, b = a + (k + 1 : ℕ) := ⟨(b - a - 1).toNat, by omega⟩
    rw [zpow_add₀ two_ne_zero, zpow_natCast, mul_comm ((2 : ℝ) ^ a), ← mul_assoc] at h
    have h : (S : ℝ) = T * 2 ^ (k + 1) := mul_right_cancel₀ (zpow_pos two_pos a).ne' h
    have h : S = T * 2 ^ (k + 1) := by exact_mod_cast h
    have hT : 2 ^ f.F ≤ T := hTn.resolve_right (by omega)
    have h2 : T * 2 ≤ S := by
      rw [h, pow_succ']
      exact Nat.mul_le_mul_left _ (Nat.le_mul_of_pos_right 2 (Nat.two_pow_pos k))
    rw [pow_succ] at hS
    omega
  have hab : a = b := by
    have h1 := key hS ha hTn h
    have h2 := key hT hb hSn h.symm
    omega
  subst hab
  exact_mod_cast mul_right_cancel₀ (zpow_pos two_pos a).ne' h

end BinaryFormat
