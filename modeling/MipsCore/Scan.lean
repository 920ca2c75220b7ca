import Mathlib.Data.BitVec
import Mathlib.Tactic.IntervalCases
import Mathlib.Tactic.NormNum

/-! # Priority encoders

`find_first_set` returns the index of the highest set bit, and a value past the
last index when there is none; `fair_sched` rotates its input by a counter before
it scans.  The parameter `LG_N` of the source is `k + 2` here.
-/
namespace MipsCore

/-- `in[N2-1:0]` -/
def loHalf {k : ℕ} (x : BitVec (2 ^ (k + 1 + 2))) : BitVec (2 ^ (k + 2)) := x.extractLsb' 0 _
/-- `in[N-1:N2]` -/
def hiHalf {k : ℕ} (x : BitVec (2 ^ (k + 1 + 2))) : BitVec (2 ^ (k + 2)) :=
  x.extractLsb' (2 ^ (k + 2)) _

/-- `find_first_set #(k + 2)`: two half-size scanners under a selector. -/
def findFirstSet : (k : ℕ) → BitVec (2 ^ (k + 2)) → BitVec (k + 3)
  | 0, x =>
    if x.getLsbD 3 then 3#3 else if x.getLsbD 2 then 2#3 else if x.getLsbD 1 then 1#3
    else if x.getLsbD 0 then 0#3 else 7#3
  | k + 1, x =>
    if loHalf x = 0 ∧ hiHalf x = 0 then BitVec.ofNat _ (2 ^ (k + 3))
    else if hiHalf x ≠ 0 then
      BitVec.ofNat _ (2 ^ (k + 2)) + (findFirstSet k (hiHalf x)).setWidth _
    else (findFirstSet k (loHalf x)).setWidth _

theorem two_pow_halves (k : ℕ) : 2 ^ (k + 1 + 2) = 2 ^ (k + 2) + 2 ^ (k + 2) := by
  rw [← Nat.two_mul, ← pow_succ']

theorem getLsbD_eq_loHalf {k i : ℕ} (x : BitVec (2 ^ (k + 1 + 2))) (hi : i < 2 ^ (k + 2)) :
    x.getLsbD i = (loHalf x).getLsbD i := by simp [loHalf, hi]

theorem getLsbD_eq_hiHalf {k i : ℕ} (x : BitVec (2 ^ (k + 1 + 2))) (hi : 2 ^ (k + 2) ≤ i) :
    x.getLsbD i = (hiHalf x).getLsbD (i - 2 ^ (k + 2)) := by
  by_cases h : i < 2 ^ (k + 1 + 2)
  · have := two_pow_halves k
    simp [hiHalf, show i - 2 ^ (k + 2) < 2 ^ (k + 2) by omega,
      show 2 ^ (k + 2) + (i - 2 ^ (k + 2)) = i by omega]
  · have := two_pow_halves k
    rw [BitVec.getLsbD_of_ge x i (by omega), BitVec.getLsbD_of_ge _ _ (by omega)]

theorem eq_zero_iff_getLsbD {w : ℕ} {x : BitVec w} : x = 0 ↔ ∀ i < w, x.getLsbD i = false := by
  refine ⟨fun h => by simp [h], fun h => BitVec.eq_of_getLsbD_eq fun i hi => by simp [h i hi]⟩

theorem eq_zero_of_halves {k : ℕ} {x : BitVec (2 ^ (k + 1 + 2))}
    (hlo : loHalf x = 0) (hhi : hiHalf x = 0) : x = 0 := by
  refine eq_zero_iff_getLsbD.mpr fun i _ => ?_
  by_cases hlt : i < 2 ^ (k + 2)
  · simp [getLsbD_eq_loHalf x hlt, hlo]
  · simp [getLsbD_eq_hiHalf x (not_lt.mp hlt), hhi]

theorem toNat_halves {k : ℕ} (x : BitVec (2 ^ (k + 1 + 2))) :
    x.toNat = (hiHalf x).toNat * 2 ^ 2 ^ (k + 2) + (loHalf x).toNat := by
  have hw := two_pow_halves k
  have hx : x.toNat / 2 ^ 2 ^ (k + 2) < 2 ^ 2 ^ (k + 2) := by
    rw [Nat.div_lt_iff_lt_mul (by positivity), ← pow_add, ← hw]
    exact x.isLt
  simp only [hiHalf, loHalf, BitVec.extractLsb'_toNat, Nat.shiftRight_eq_div_pow,
    Nat.mod_eq_of_lt hx]
  rw [pow_zero, Nat.div_one, Nat.mul_comm, Nat.div_add_mod]

/-- A nonzero input is answered with the index of its highest set bit. -/
theorem findFirstSet_spec (k : ℕ) (x : BitVec (2 ^ (k + 2))) (hx : x ≠ 0) :
    (findFirstSet k x).toNat < 2 ^ (k + 2) ∧ x.getLsbD (findFirstSet k x).toNat = true ∧
      ∀ i, (findFirstSet k x).toNat < i → x.getLsbD i = false := by
  induction k with
  | zero =>
    have hge : ∀ i, 4 ≤ i → x.getLsbD i = false := fun i hi => BitVec.getLsbD_of_ge x i hi
    have hne : x.getLsbD 0 = false → x.getLsbD 1 = false → x.getLsbD 2 = false →
        x.getLsbD 3 = false → False := by
      intro h0 h1 h2 h3
      exact hx (eq_zero_iff_getLsbD.mpr fun i hi => by interval_cases i <;> assumption)
    unfold findFirstSet
    split
    · exact ⟨by decide, by simpa, fun i hi => hge i hi⟩
    · split
      · refine ⟨by decide, by simpa, fun i hi => ?_⟩
        rcases Nat.lt_or_ge i 4 with h | h
        · obtain rfl : i = 3 := by simp at hi; omega
          simpa using ‹¬x.getLsbD 3 = true›
        · exact hge i h
      · split
        · refine ⟨by decide, by simpa, fun i hi => ?_⟩
          rcases Nat.lt_or_ge i 4 with h | h
          · have : i = 2 ∨ i = 3 := by simp at hi; omega
            rcases this with rfl | rfl <;> simp_all
          · exact hge i h
        · split
          · refine ⟨by decide, by simpa, fun i hi => ?_⟩
            rcases Nat.lt_or_ge i 4 with h | h
            · have : i = 1 ∨ i = 2 ∨ i = 3 := by simp at hi; omega
              rcases this with rfl | rfl | rfl <;> simp_all
            · exact hge i h
          · simp_all
  | succ k ih =>
    have hhalf := two_pow_halves k
    have hwidth : 2 ^ (k + 1 + 3) = 2 ^ (k + 1 + 2) + 2 ^ (k + 1 + 2) := two_pow_halves (k + 1)
    rw [findFirstSet]
    split
    · next h => exact absurd (eq_zero_of_halves h.1 h.2) hx
    · next hne =>
      split
      · next hhi =>
        obtain ⟨hlt, hbit, hmax⟩ := ih (hiHalf x) hhi
        have hval : (BitVec.ofNat (k + 1 + 3) (2 ^ (k + 2)) +
            (findFirstSet k (hiHalf x)).setWidth _).toNat =
              2 ^ (k + 2) + (findFirstSet k (hiHalf x)).toNat := by
          simp only [BitVec.toNat_add, BitVec.toNat_ofNat, BitVec.toNat_setWidth]
          rw [Nat.mod_eq_of_lt (a := 2 ^ (k + 2)) (by omega),
            Nat.mod_eq_of_lt (a := (findFirstSet k _).toNat) (by omega), Nat.mod_eq_of_lt (by omega)]
        rw [hval]
        refine ⟨by omega, ?_, fun i hi => ?_⟩
        · rwa [getLsbD_eq_hiHalf x (by omega), Nat.add_sub_cancel_left]
        · rw [getLsbD_eq_hiHalf x (by omega)]
          exact hmax _ (by omega)
      · next hhi =>
        have hhi : hiHalf x = 0 := not_not.mp hhi
        obtain ⟨hlt, hbit, hmax⟩ := ih (loHalf x) fun h => hne ⟨h, hhi⟩
        have hval : ((findFirstSet k (loHalf x)).setWidth (k + 1 + 3)).toNat =
            (findFirstSet k (loHalf x)).toNat := by
          rw [BitVec.toNat_setWidth, Nat.mod_eq_of_lt (by omega)]
        rw [hval]
        refine ⟨by omega, by rwa [getLsbD_eq_loHalf x hlt], fun i hi => ?_⟩
        rcases Nat.lt_or_ge i (2 ^ (k + 2)) with h | h
        · rw [getLsbD_eq_loHalf x h]
          exact hmax i hi
        · simp [getLsbD_eq_hiHalf x h, hhi]

/-- An empty input is answered with a value past the last index. -/
theorem findFirstSet_zero (k : ℕ) : 2 ^ (k + 2) ≤ (findFirstSet k 0).toNat := by
  cases k with
  | zero => decide
  | succ k =>
    have : 2 ^ (k + 3) < 2 ^ (k + 1 + 3) := Nat.pow_lt_pow_right (by norm_num) (by omega)
    have hlo : loHalf (0 : BitVec (2 ^ (k + 1 + 2))) = 0 := by simp [loHalf]
    have hhi : hiHalf (0 : BitVec (2 ^ (k + 1 + 2))) = 0 := by simp [hiHalf]
    rw [findFirstSet, if_pos ⟨hlo, hhi⟩, BitVec.toNat_ofNat, Nat.mod_eq_of_lt this]

/-! ## The rotating scheduler -/

/-- The rotated input of `fair_sched #(k + 2)`: the upper half of the doubled input
shifted left by the counter. -/
def fairSchedIn (k : ℕ) (cnt : BitVec (k + 2)) (x : BitVec (2 ^ (k + 2))) : BitVec (2 ^ (k + 2)) :=
  ((x ++ x) <<< cnt.toNat).extractLsb' (2 ^ (k + 2)) (2 ^ (k + 2))

/-- The selected index of `fair_sched #(k + 2)`. -/
def fairSched (k : ℕ) (cnt : BitVec (k + 2)) (x : BitVec (2 ^ (k + 2))) : BitVec (k + 3) :=
  if x ≠ 0 then
    ((findFirstSet k (fairSchedIn k cnt x)).setWidth (k + 2) - cnt).setWidth (k + 3)
  else BitVec.allOnes (k + 3)

/-- The counter of `fair_sched #(k + 2)` moves only when some input bit is set. -/
def fairSchedCnt (k : ℕ) (cnt : BitVec (k + 2)) (x : BitVec (2 ^ (k + 2))) : BitVec (k + 2) :=
  if x ≠ 0 then cnt + 1 else cnt

end MipsCore
