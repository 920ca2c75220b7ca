import Mathlib.Data.Nat.ModEq
import Mathlib.Data.Int.Lemmas
import Mathlib.Tactic.Ring

/-! # Restoring division

Doubling the remainder and subtracting the divisor when it fits yields the quotient one
bit at a time, from the top.  With the divisor in the upper half of a double word, the
remainder never outgrows it, and ends in its upper half.
-/
namespace Restoring
variable (a b d k w : ℕ)

/-- The remainder after `k` steps, and the bits of the quotient so far. -/
def rem : ℕ := a * 2 ^ k % d
def quo : ℕ := a * 2 ^ k / d

/-- The divisor fits in the doubled remainder. -/
def fits : Prop := d ≤ 2 * rem a d k

instance : Decidable (fits a d k) := inferInstanceAs (Decidable (_ ≤ _))

variable {a b d k w}

theorem rem_zero (h : a < d) : rem a d 0 = a := by simp [rem, Nat.mod_eq_of_lt h]
theorem quo_zero (h : a < d) : quo a d 0 = 0 := by simp [quo, Nat.div_eq_of_lt h]

/-- One step: both follow from the division of the doubled remainder. -/
theorem succ_eq (h : 0 < d) :
    rem a d (k + 1) = (if fits a d k then 2 * rem a d k - d else 2 * rem a d k) ∧
      quo a d (k + 1) = 2 * quo a d k + if fits a d k then 1 else 0 := by
  have hlt : rem a d k < d := Nat.mod_lt _ h
  have hdiv : d * quo a d k + rem a d k = a * 2 ^ k := Nat.div_add_mod _ _
  have hdouble : a * 2 ^ (k + 1) = d * (2 * quo a d k) + 2 * rem a d k := by
    rw [pow_succ, ← mul_assoc, ← hdiv]
    ring
  have hrem : rem a d (k + 1) = (d * (2 * quo a d k) + 2 * rem a d k) % d := by rw [← hdouble, rem]
  have hquo : quo a d (k + 1) = (d * (2 * quo a d k) + 2 * rem a d k) / d := by rw [← hdouble, quo]
  rw [hrem, hquo, Nat.mul_add_mod, Nat.mul_add_div h]
  split_ifs with hf
  · have hsub : 2 * rem a d k - d < d := by omega
    have hge : d ≤ 2 * rem a d k := hf
    refine ⟨?_, ?_⟩
    · rw [Nat.mod_eq_sub_mod hge, Nat.mod_eq_of_lt hsub]
    · rw [Nat.div_eq_sub_div h hge, Nat.div_eq_of_lt hsub]
  · have hlt' : 2 * rem a d k < d := Nat.lt_of_not_le hf
    refine ⟨Nat.mod_eq_of_lt hlt', ?_⟩
    rw [Nat.div_eq_of_lt hlt']

/-- A dividend of `w` bits leaves a remainder of `w + k` bits. -/
theorem rem_lt (h : a < 2 ^ w) : rem a d k < 2 ^ (w + k) := by
  have hlt : a * 2 ^ k < 2 ^ (w + k) := by
    rw [pow_add]
    exact Nat.mul_lt_mul_of_pos_right h (Nat.two_pow_pos _)
  exact lt_of_le_of_lt (Nat.mod_le _ _) hlt

/-- After `w` steps against a divisor in the upper half. -/
theorem rem_done : rem a (b * 2 ^ w) w = a % b * 2 ^ w := Nat.mul_mod_mul_right _ _ _
theorem quo_done : quo a (b * 2 ^ w) w = a / b := Nat.mul_div_mul_right _ _ (Nat.two_pow_pos _)

/-! ## Signs -/

/-- An integer from its magnitude and its sign. -/
def signed (neg : Bool) (n : ℕ) : ℤ := if neg then -n else n

theorem tdiv_signed (s t : Bool) (m n : ℕ) :
    (signed s m).tdiv (signed t n) = signed (s ^^ t) (m / n) := by
  cases s <;> cases t <;> simp [signed, Int.neg_tdiv, Int.tdiv_neg]

theorem tmod_signed (s t : Bool) (m n : ℕ) :
    (signed s m).tmod (signed t n) = signed s (m % n) := by
  have h : (m : ℤ).tmod n = ((m % n : ℕ) : ℤ) := rfl
  cases s <;> cases t <;> simp only [signed, Bool.false_eq_true, if_true, if_false, Int.neg_tmod,
    Int.tmod_neg, h]

end Restoring
