import Mathlib.Data.Real.Basic
import Mathlib.Algebra.Order.Floor.Semiring
import Mathlib.Tactic.Linarith
import Mathlib.Tactic.FieldSimp
import Mathlib.Tactic.Ring

/-! # Rounding a quotient to the nearest integer

The nearest integer to a real, ties to even, is one relation; the quotient of two naturals is
rounded by its remainder, and only the remainder, the halfway point and the parity of the
quotient matter.
-/
namespace NearestEven

/-- The numeral of the reals, under a name. -/
theorem atLeastTwo_two : Nat.AtLeastTwo 2 := ⟨le_rfl⟩

attribute [local instance] atLeastTwo_two in
/-- `n` is the nearest integer to `t`, and the even one of two. -/
def IsNearest (t : ℝ) (n : ℕ) : Prop := |t - n| ≤ 1 / 2 ∧ (|t - n| = 1 / 2 → Even n)

/-- The quotient `N / D` rounded to the nearest integer, ties to even. -/
def nearestEven (N D : ℕ) : ℕ :=
  if 2 * (N % D) < D then N / D
  else if D < 2 * (N % D) then N / D + 1
  else N / D + N / D % 2

section
variable {N D : ℕ}

theorem nearestEven_cases (N D : ℕ) :
    (nearestEven N D = N / D ∧ (2 * (N % D) < D ∨ 2 * (N % D) = D ∧ N / D % 2 = 0)) ∨
      nearestEven N D = N / D + 1 ∧ (D < 2 * (N % D) ∨ 2 * (N % D) = D ∧ N / D % 2 = 1) := by
  unfold nearestEven
  split
  · exact Or.inl ⟨rfl, by omega⟩
  · split
    · exact Or.inr ⟨rfl, by omega⟩
    · rcases Nat.mod_two_eq_zero_or_one (N / D) with h | h
      · exact Or.inl ⟨by omega, by omega⟩
      · exact Or.inr ⟨by omega, by omega⟩

theorem le_nearestEven (N D : ℕ) : N / D ≤ nearestEven N D := by
  rcases nearestEven_cases N D with ⟨h, -⟩ | ⟨h, -⟩ <;> omega

theorem nearestEven_le (N D : ℕ) : nearestEven N D ≤ N / D + 1 := by
  rcases nearestEven_cases N D with ⟨h, -⟩ | ⟨h, -⟩ <;> omega

/-- The quotient is kept. -/
theorem nearestEven_eq_div :
    nearestEven N D = N / D ↔ 2 * (N % D) < D ∨ 2 * (N % D) = D ∧ N / D % 2 = 0 := by
  rcases nearestEven_cases N D with ⟨h, hr⟩ | ⟨h, hr⟩
  · exact ⟨fun _ => hr, fun _ => h⟩
  · constructor <;> intro h' <;> omega

/-- The quotient is rounded up. -/
theorem nearestEven_eq_succ :
    nearestEven N D = N / D + 1 ↔ D < 2 * (N % D) ∨ 2 * (N % D) = D ∧ N / D % 2 = 1 := by
  rcases nearestEven_cases N D with ⟨h, hr⟩ | ⟨h, hr⟩
  · constructor <;> intro h' <;> omega
  · exact ⟨fun _ => hr, fun _ => h⟩

/-- The nearest integer by the distance to it. -/
theorem nearestEven_eq_iff {n : ℕ} (hD : 0 < D) : nearestEven N D = n ↔
    2 * (n * D) ≤ 2 * N + D ∧ 2 * N ≤ 2 * (n * D) + D ∧
      (2 * (n * D) = 2 * N + D ∨ 2 * N = 2 * (n * D) + D → n % 2 = 0) := by
  have hdm := Nat.div_add_mod' N D
  have hlt := Nat.mod_lt N hD
  have hcases := nearestEven_cases N D
  generalize N / D = q at hdm hcases
  generalize N % D = r at hdm hlt hcases
  have hsucc : (q + 1) * D = q * D + D := Nat.succ_mul q D
  constructor
  · rintro rfl
    rcases hcases with ⟨h, hr⟩ | ⟨h, hr⟩
    · rw [h]
      omega
    · rw [h, hsucc]
      omega
  · rintro ⟨hlo, hhi, htie⟩
    rcases Nat.lt_trichotomy n q with hn | rfl | hn
    · have hmul := Nat.mul_le_mul_right D (by omega : n + 1 ≤ q)
      rw [Nat.succ_mul] at hmul
      rcases hcases with ⟨h, hr⟩ | ⟨h, hr⟩ <;> omega
    · omega
    · rcases Nat.lt_or_eq_of_le (Nat.succ_le_of_lt hn) with hn' | rfl
      · have hmul := Nat.mul_le_mul_right D (by omega : q + 2 ≤ n)
        rw [Nat.succ_mul (q + 1), hsucc] at hmul
        omega
      · rw [Nat.succ_eq_add_one, hsucc] at hlo hhi htie
        omega

theorem le_nearestEven_of_mul_le {B : ℕ} (hD : 0 < D) (h : B * D ≤ N) : B ≤ nearestEven N D :=
  ((Nat.le_div_iff_mul_le hD).mpr h).trans (le_nearestEven N D)

theorem nearestEven_le_of_lt_mul {B : ℕ} (hD : 0 < D) (h : N < B * D) : nearestEven N D ≤ B := by
  have h1 := nearestEven_le N D
  have h2 := (Nat.div_lt_iff_lt_mul hD).mpr h
  omega

/-- A multiple of the divisor is not rounded. -/
@[simp] theorem nearestEven_mul (n : ℕ) (hD : 0 < D) : nearestEven (n * D) D = n := by
  simp [nearestEven, hD]

/-- A common factor cancels. -/
theorem nearestEven_mul_mul {c : ℕ} (hc : 0 < c) (N D : ℕ) :
    nearestEven (c * N) (c * D) = nearestEven N D := by
  have h1 : ∀ a b : ℕ, 2 * (c * a) < c * b ↔ 2 * a < b := by
    intro a b
    rw [Nat.mul_left_comm, Nat.mul_lt_mul_left hc]
  have h2 : ∀ a b : ℕ, c * b < 2 * (c * a) ↔ b < 2 * a := by
    intro a b
    rw [Nat.mul_left_comm, Nat.mul_lt_mul_left hc]
  simp only [nearestEven, Nat.mul_mod_mul_left, Nat.mul_div_mul_left _ _ hc, h1, h2]

/-- The first bit that is cut asks for at least half. -/
theorem guard_iff (hD : 0 < D) : 2 * N / D % 2 = 1 ↔ D ≤ 2 * (N % D) := by
  have hlt := Nat.mod_lt N hD
  have h : 2 * N / D = 2 * (N / D) + 2 * (N % D) / D := by
    rw [← Nat.mul_add_div hD]
    congr 1
    have := Nat.div_add_mod N D
    rw [Nat.mul_left_comm]
    omega
  rw [h]
  by_cases hr : D ≤ 2 * (N % D)
  · have hone : 2 * (N % D) / D = 1 := Nat.div_eq_of_lt_le (by omega) (by omega)
    omega
  · have hzero : 2 * (N % D) / D = 0 := Nat.div_eq_of_lt (by omega)
    omega

/-- The rounded quotient is the nearest integer. -/
theorem isNearest (hD : 0 < D) : IsNearest ((N : ℝ) / D) (nearestEven N D) := by
  have hDr : (0 : ℝ) < D := Nat.cast_pos.mpr hD
  have hN : (N : ℝ) = D * (N / D : ℕ) + (N % D : ℕ) := by exact_mod_cast (Nat.div_add_mod N D).symm
  have hlt : ((N % D : ℕ) : ℝ) < D := by exact_mod_cast Nat.mod_lt N hD
  have hq : (N : ℝ) / D = (N / D : ℕ) + (N % D : ℕ) / (D : ℝ) := by
    rw [div_eq_iff hDr.ne', add_mul, div_mul_cancel₀ _ hDr.ne']
    linarith
  have hr0 : (0 : ℝ) ≤ (N % D : ℕ) / (D : ℝ) := by positivity
  rcases nearestEven_cases N D with ⟨h, hr⟩ | ⟨h, hr⟩
  · have hle : ((N % D : ℕ) : ℝ) / D ≤ 1 / 2 := by
      rw [div_le_iff₀ hDr]
      have : 2 * ((N % D : ℕ) : ℝ) ≤ D := by exact_mod_cast (by omega : 2 * (N % D) ≤ D)
      linarith
    have habs : |(N : ℝ) / D - (N / D : ℕ)| = (N % D : ℕ) / (D : ℝ) := by
      rw [hq, add_sub_cancel_left, abs_of_nonneg hr0]
    rw [h, IsNearest, habs]
    refine ⟨hle, fun ht => ?_⟩
    rw [div_eq_iff hDr.ne'] at ht
    have ht : 2 * (N % D) = D := by
      have : 2 * ((N % D : ℕ) : ℝ) = D := by linarith
      exact_mod_cast this
    exact Nat.even_iff.mpr (by omega)
  · have hge : 1 / 2 ≤ ((N % D : ℕ) : ℝ) / D := by
      rw [le_div_iff₀ hDr]
      have : (D : ℝ) ≤ 2 * ((N % D : ℕ) : ℝ) := by exact_mod_cast (by omega : D ≤ 2 * (N % D))
      linarith
    have hle : ((N % D : ℕ) : ℝ) / D ≤ 1 := by
      rw [div_le_one hDr]
      exact hlt.le
    have habs : |(N : ℝ) / D - ((N / D + 1 : ℕ) : ℝ)| = 1 - (N % D : ℕ) / (D : ℝ) := by
      rw [hq, Nat.cast_add, Nat.cast_one, abs_of_nonpos (by linarith)]
      ring
    rw [h, IsNearest, habs]
    refine ⟨by linarith, fun ht => ?_⟩
    have ht : ((N % D : ℕ) : ℝ) / D = 1 / 2 := by linarith
    rw [div_eq_iff hDr.ne'] at ht
    have ht : 2 * (N % D) = D := by
      have : 2 * ((N % D : ℕ) : ℝ) = D := by linarith
      exact_mod_cast this
    exact Nat.even_iff.mpr (by omega)
end

/-! ## Sticky bits -/

/-- Setting the last bit. -/
def stick (c : ℕ) (s : Bool) : ℕ := c + if s = true ∧ c % 2 = 0 then 1 else 0

/-- `X` stands for `N / P`: it is equal to it or is the odd one of the integers next to it. -/
def Jams (N P X : ℕ) : Prop := N = X * P ∨ X % 2 = 1 ∧ (X - 1) * P < N ∧ N < (X + 1) * P

section
variable {N P X A B K : ℕ}

/-- Between two even numbers every rounding to a multiple of four is that of the odd number. -/
theorem Jams.nearestEven_mul (h : Jams N P X) (hP : 0 < P) (hK : 0 < K) (h4 : 4 ∣ K) :
    nearestEven N (K * P) = nearestEven X K := by
  rcases h with rfl | ⟨hodd, hlo, hhi⟩
  · rw [Nat.mul_comm X, Nat.mul_comm K, nearestEven_mul_mul hP]
  · obtain ⟨k, rfl⟩ := h4
    obtain ⟨h1, h2, -⟩ := (nearestEven_eq_iff hK).mp (rfl : nearestEven X (4 * k) = _)
    generalize nearestEven X (4 * k) = n at h1 h2
    have hn : n * (4 * k) = 4 * (n * k) := Nat.mul_left_comm n 4 k
    have hnP : n * (4 * k * P) = 4 * (n * k) * P := by rw [← hn, Nat.mul_assoc n]
    rw [hn] at h1 h2
    have hlo' : 4 * (n * k) * P ≤ (X - 1 + 2 * k) * P := Nat.mul_le_mul_right P (by omega)
    have hhi' : (X + 1) * P ≤ (4 * (n * k) + 2 * k) * P := Nat.mul_le_mul_right P (by omega)
    have hk : 4 * k * P = 2 * (2 * k * P) := by ring
    rw [Nat.add_mul] at hlo'
    rw [Nat.add_mul (4 * (n * k))] at hhi'
    rw [nearestEven_eq_iff (Nat.mul_pos hK hP), hnP, hk]
    omega

/-- An even number bounds one just when it bounds the other. -/
theorem Jams.le_iff (h : Jams N P X) (hP : 0 < P) (hB : B % 2 = 0) : B * P ≤ N ↔ B ≤ X := by
  rcases h with rfl | ⟨hodd, hlo, hhi⟩
  · exact Nat.mul_le_mul_right_iff hP
  · constructor
    · intro hle
      have := Nat.lt_of_mul_lt_mul_right (hle.trans_lt hhi)
      omega
    · intro hle
      exact (Nat.mul_le_mul_right P (by omega : B ≤ X - 1)).trans hlo.le

/-- Cutting a number off with a bit for what is lost. -/
theorem jams_stick (N : ℕ) (hP : 0 < P) :
    Jams N P (stick (N / P) (decide (N % P ≠ 0))) := by
  have hdm := Nat.div_add_mod' N P
  have hlt := Nat.mod_lt N hP
  unfold stick
  by_cases h0 : N % P = 0
  · left
    simp [h0]
    omega
  · right
    generalize N / P = q at *
    have h1 : q * P < N := by omega
    have h2 : N < (q + 1) * P := by
      rw [Nat.succ_mul]
      omega
    have h3 : (q - 1) * P ≤ q * P := Nat.mul_le_mul_right P (Nat.sub_le q 1)
    have h4 : (q + 1) * P ≤ (q + 1 + 1) * P := Nat.mul_le_mul_right P (Nat.le_succ _)
    rcases Nat.mod_two_eq_zero_or_one q with hq | hq
    · simp [h0, hq]
      omega
    · simp [hq]
      omega

theorem Jams.add (h : Jams N P X) (hA : A % 2 = 0) : Jams (A * P + N) P (A + X) := by
  rcases h with rfl | ⟨hodd, hlo, hhi⟩
  · left
    rw [Nat.add_mul]
  · right
    rw [show A + X - 1 = A + (X - 1) by omega, Nat.add_assoc, Nat.add_mul, Nat.add_mul]
    omega

theorem Jams.le_of_le (h : Jams N P X) (hP : 0 < P) (hle : N ≤ A * P) : X ≤ A := by
  rcases h with rfl | ⟨-, hlo, -⟩
  · exact Nat.le_of_mul_le_mul_right hle hP
  · have := Nat.lt_of_mul_lt_mul_right (hlo.trans_le hle)
    omega

theorem Jams.sub (h : Jams N P X) (hP : 0 < P) (hA : A % 2 = 0) (hN : N ≤ A * P) :
    Jams (A * P - N) P (A - X) := by
  have hle := h.le_of_le hP hN
  rcases h with rfl | ⟨hodd, hlo, hhi⟩
  · left
    rw [Nat.sub_mul]
  · right
    have h1 := Nat.mul_le_mul_right P (by omega : X + 1 ≤ A)
    rw [show A - X - 1 = A - (X + 1) by omega, show A - X + 1 = A - (X - 1) by omega, Nat.sub_mul,
      Nat.sub_mul]
    have h2 := Nat.mul_le_mul_right P (by omega : X - 1 ≤ X + 1)
    omega
end

/-! ## A wrong sticky bit -/

section
variable {Y K : ℕ}

/-- A bit that is set for nothing, above. -/
theorem nearestEven_succ (h4 : 4 ∣ K) (hK : 0 < K) (hY : Y % 2 = 0) :
    nearestEven (Y + 1) K = nearestEven Y K ↔ ¬(2 * (Y % K) = K ∧ Y / K % 2 = 0) := by
  obtain ⟨k, rfl⟩ := h4
  have hdm := Nat.div_add_mod Y (4 * k)
  have hlt := Nat.mod_lt Y hK
  have hev : Y % (4 * k) % 2 = 0 := by rw [Nat.mod_mod_of_dvd _ ⟨2 * k, by ring⟩, hY]
  have hdiv : (Y + 1) / (4 * k) = Y / (4 * k) := by
    refine Nat.div_eq_of_lt_le ?_ ?_
    · rw [Nat.mul_comm]
      omega
    · rw [Nat.succ_mul, Nat.mul_comm]
      omega
  have hmod : (Y + 1) % (4 * k) = Y % (4 * k) + 1 := by
    have := Nat.div_add_mod (Y + 1) (4 * k)
    rw [hdiv] at this
    omega
  unfold nearestEven
  rw [hdiv, hmod]
  generalize Y / (4 * k) = q
  generalize Y % (4 * k) = y at *
  split_ifs <;> omega

/-- A bit that is set for nothing, below. -/
theorem nearestEven_pred (h4 : 4 ∣ K) (hK : 0 < K) (hY : Y % 2 = 0) (hpos : 0 < Y) :
    nearestEven (Y - 1) K = nearestEven Y K ↔ ¬(2 * (Y % K) = K ∧ Y / K % 2 = 1) := by
  obtain ⟨k, rfl⟩ := h4
  have hdm := Nat.div_add_mod Y (4 * k)
  have hlt := Nat.mod_lt Y hK
  have hev : Y % (4 * k) % 2 = 0 := by rw [Nat.mod_mod_of_dvd _ ⟨2 * k, by ring⟩, hY]
  have hdm' := Nat.div_add_mod (Y - 1) (4 * k)
  by_cases h0 : Y % (4 * k) = 0
  · have hq : 0 < Y / (4 * k) := Nat.pos_of_ne_zero fun hq => by
      rw [hq, h0] at hdm
      omega
    have hmul : 4 * k * (Y / (4 * k) - 1) = 4 * k * (Y / (4 * k)) - 4 * k := by
      rw [Nat.mul_sub, Nat.mul_one]
    have hge := Nat.mul_le_mul_left (4 * k) hq
    have hdiv : (Y - 1) / (4 * k) = Y / (4 * k) - 1 := by
      refine Nat.div_eq_of_lt_le ?_ ?_
      · rw [Nat.mul_comm]
        omega
      · rw [Nat.sub_add_cancel hq, Nat.mul_comm]
        omega
    rw [hdiv, hmul] at hdm'
    unfold nearestEven
    rw [hdiv]
    generalize Y / (4 * k) = q at *
    generalize Y % (4 * k) = y at *
    generalize (Y - 1) % (4 * k) = z at *
    split_ifs <;> omega
  · have hdiv : (Y - 1) / (4 * k) = Y / (4 * k) := by
      refine Nat.div_eq_of_lt_le ?_ ?_
      · rw [Nat.mul_comm]
        omega
      · rw [Nat.succ_mul, Nat.mul_comm]
        omega
    rw [hdiv] at hdm'
    unfold nearestEven
    rw [hdiv]
    generalize Y / (4 * k) = q at *
    generalize Y % (4 * k) = y at *
    generalize (Y - 1) % (4 * k) = z at *
    split_ifs <;> omega
end

/-! ## Against every other integer -/

section
variable {t : ℝ} {n : ℕ}

/-- No integer is nearer. -/
theorem IsNearest.le (h : IsNearest t n) (j : ℤ) : |t - n| ≤ |t - j| := by
  by_cases hj : j = n
  · rw [hj, Int.cast_natCast]
  · have hone : (1 : ℝ) ≤ |(n : ℝ) - j| := by
      have : (1 : ℤ) ≤ |(n : ℤ) - j| := Int.one_le_abs (by omega)
      exact_mod_cast this
    have htri := abs_sub_le (n : ℝ) t j
    rw [abs_sub_comm (n : ℝ) t] at htri
    linarith [h.1]

/-- Another integer that is as near is odd, and one away. -/
theorem IsNearest.tie (h : IsNearest t n) {j : ℤ} (hj : j ≠ n) (he : |t - j| ≤ |t - n|) :
    Even n ∧ |t - j| = 1 / 2 ∧ Odd j := by
  have hone : (1 : ℝ) ≤ |(n : ℝ) - j| := by
    have : (1 : ℤ) ≤ |(n : ℤ) - j| := Int.one_le_abs (by omega)
    exact_mod_cast this
  have htri := abs_sub_le (n : ℝ) t j
  rw [abs_sub_comm (n : ℝ) t] at htri
  have hn : |t - n| = 1 / 2 := by linarith [h.1]
  have ht : |t - j| = 1 / 2 := by linarith
  have heven := h.2 hn
  have hle : |(n : ℤ) - j| ≤ 1 := by
    have : |(n : ℝ) - j| ≤ 1 := by linarith
    exact_mod_cast this
  refine ⟨heven, ht, ?_⟩
  obtain ⟨k, hk⟩ := heven
  rw [abs_le] at hle
  rw [Int.odd_iff]
  omega
end

end NearestEven
