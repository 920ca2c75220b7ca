import MipsCore.Exec.Alu

/-! # The recursive bit scanners

`find_first_set`, `count_leading_zeros` and `popcount` split their input in halves down to a
four-bit table.  The parameter `LG_N` of the source is `k + 2` here.
-/
namespace MipsCore

/-- The four-bit table of `popcount`. -/
def popcountTable : List (BitVec 3) :=
  [0#3, 1#3, 1#3, 2#3, 1#3, 2#3, 2#3, 3#3, 1#3, 2#3, 2#3, 3#3, 2#3, 3#3, 3#3, 4#3]

/-- `popcount #(k + 2)` -/
def popcount : (k : ℕ) → BitVec (2 ^ (k + 2)) → BitVec (k + 3)
  | 0, x => popcountTable.getD x.toNat 0#3
  | k + 1, x => (popcount k (loHalf x)).setWidth _ + (popcount k (hiHalf x)).setWidth _

/-- The number of set bits. -/
def setBits {w : ℕ} (x : BitVec w) : ℕ := (List.range w).countP fun i => x.getLsbD i

/-- The highest set bit of `x` is bit `i`. -/
def IsHighestBit {w : ℕ} (x : BitVec w) (i : ℕ) : Prop :=
  i < w ∧ x.getLsbD i = true ∧ ∀ j, i < j → x.getLsbD j = false

/-- There is one highest set bit. -/
theorem IsHighestBit.eq {w i j : ℕ} {x : BitVec w} (hi : IsHighestBit x i)
    (hj : IsHighestBit x j) : i = j := by
  rcases lt_trichotomy i j with h | h | h
  · exact absurd hj.2.1 (by simp [hi.2.2 j h])
  · exact h
  · exact absurd hi.2.1 (by simp [hj.2.2 i h])

theorem setBits_le {w : ℕ} (x : BitVec w) : setBits x ≤ w :=
  (List.countP_le_length).trans (List.length_range).le

theorem setBits_halves {k : ℕ} (x : BitVec (2 ^ (k + 1 + 2))) :
    setBits x = setBits (loHalf x) + setBits (hiHalf x) := by
  have hlo : (List.range (2 ^ (k + 2))).countP (fun i => x.getLsbD i) = setBits (loHalf x) := by
    refine List.countP_congr fun i hi => ?_
    rw [getLsbD_eq_loHalf x (List.mem_range.mp hi)]
  have hhi : (List.range (2 ^ (k + 2))).countP
      ((fun i => x.getLsbD i) ∘ fun i => 2 ^ (k + 2) + i) = setBits (hiHalf x) := by
    refine List.countP_congr fun i _ => ?_
    rw [Function.comp_apply, getLsbD_eq_hiHalf x (Nat.le_add_right _ _), Nat.add_sub_cancel_left]
  have hrange : setBits x =
      (List.range (2 ^ (k + 2) + 2 ^ (k + 2))).countP (fun i => x.getLsbD i) := by
    rw [← two_pow_halves]
    rfl
  rw [hrange, List.range_add, List.countP_append, List.countP_map, hlo, hhi]

/-- `popcount` counts the set bits. -/
theorem popcount_spec (k : ℕ) (x : BitVec (2 ^ (k + 2))) :
    (popcount k x).toNat = setBits x := by
  induction k with
  | zero =>
    revert x
    decide
  | succ k ih =>
    have hlo := setBits_le (loHalf x)
    have hhi := setBits_le (hiHalf x)
    have hpos := Nat.two_pow_pos (k + 2)
    have hw3 : 2 ^ (k + 3) = 2 * 2 ^ (k + 2) := pow_succ' _ _
    have hw4 : 2 ^ (k + 1 + 3) = 2 * 2 ^ (k + 3) := pow_succ' _ _
    rw [popcount, BitVec.toNat_add, BitVec.toNat_setWidth, BitVec.toNat_setWidth, ih, ih,
      Nat.mod_eq_of_lt (a := setBits (loHalf x)) (by omega),
      Nat.mod_eq_of_lt (a := setBits (hiHalf x)) (by omega), Nat.mod_eq_of_lt (by omega),
      setBits_halves]

/-- The index of the highest set bit is the binary logarithm. -/
theorem findFirstSet_log (k : ℕ) (x : BitVec (2 ^ (k + 2))) (hx : x ≠ 0) :
    2 ^ (findFirstSet k x).toNat ≤ x.toNat ∧ x.toNat < 2 ^ ((findFirstSet k x).toNat + 1) := by
  obtain ⟨-, hbit, habove⟩ := findFirstSet_spec k x hx
  exact ⟨Nat.ge_two_pow_of_testBit hbit,
    Nat.lt_pow_two_of_testBit _ fun i hi => habove i (by omega)⟩

/-- The two scanners agree on where the highest set bit is. -/
theorem countLeadingZeros_findFirstSet (k : ℕ) (x : BitVec (2 ^ (k + 2))) (hx : x ≠ 0) :
    (countLeadingZeros k x).toNat + ((findFirstSet k x).toNat + 1) = 2 ^ (k + 2) := by
  obtain ⟨hle, hlt, hmax⟩ := countLeadingZeros_spec k x
  obtain ⟨hge, hub⟩ := findFirstSet_log k x hx
  have h1 : (findFirstSet k x).toNat < 2 ^ (k + 2) - (countLeadingZeros k x).toNat :=
    (Nat.pow_lt_pow_iff_right (by decide)).mp (lt_of_le_of_lt hge hlt)
  have h2 : 2 ^ (k + 2) - (countLeadingZeros k x).toNat < (findFirstSet k x).toNat + 2 := by
    refine (Nat.pow_lt_pow_iff_right (by decide)).mp (lt_of_le_of_lt (hmax hx) ?_)
    rw [pow_succ' 2 ((findFirstSet k x).toNat + 1)]
    omega
  omega

theorem loHalf_zero (k : ℕ) : loHalf (0 : BitVec (2 ^ (k + 1 + 2))) = 0 := by simp [loHalf]
theorem hiHalf_zero (k : ℕ) : hiHalf (0 : BitVec (2 ^ (k + 1 + 2))) = 0 := by simp [hiHalf]

theorem countLeadingZeros_zero (k : ℕ) : (countLeadingZeros k 0).toNat = 2 ^ (k + 2) := by
  induction k with
  | zero => decide
  | succ k ih =>
    have hpos := Nat.two_pow_pos (k + 2)
    have hw := two_pow_halves k
    have hw3 : 2 ^ (k + 3) = 2 * 2 ^ (k + 2) := pow_succ' _ _
    have hw4 : 2 ^ (k + 1 + 3) = 2 * 2 ^ (k + 3) := pow_succ' _ _
    rw [countLeadingZeros, if_pos (hiHalf_zero k), loHalf_zero, BitVec.toNat_add,
      BitVec.toNat_ofNat, BitVec.toNat_setWidth, ih, Nat.mod_eq_of_lt (a := 2 ^ (k + 2)) (by omega),
      Nat.mod_eq_of_lt (by omega), hw]

theorem findFirstSet_zero_top (k : ℕ) : (findFirstSet k 0).getLsbD (k + 2) = true := by
  cases k with
  | zero => decide
  | succ k =>
    rw [findFirstSet, if_pos ⟨loHalf_zero k, hiHalf_zero k⟩, BitVec.getLsbD_ofNat,
      Nat.testBit_two_pow_self]
    simp

/-- At every size, `find_first_set` finds the highest set bit or answers with its top bit set,
`count_leading_zeros` counts the zeros above the highest set bit, and `popcount` counts the
set bits. -/
theorem bitScanners (k : ℕ) (x : BitVec (2 ^ (k + 2))) :
    (x ≠ 0 → IsHighestBit x (findFirstSet k x).toNat) ∧
      (x = 0 → (findFirstSet k x).getLsbD (k + 2) = true ∧
        2 ^ (k + 2) ≤ (findFirstSet k x).toNat) ∧
      (∀ i, IsHighestBit x i → (countLeadingZeros k x).toNat = 2 ^ (k + 2) - 1 - i) ∧
      (x = 0 → (countLeadingZeros k x).toNat = 2 ^ (k + 2)) ∧
      (popcount k x).toNat = setBits x := by
  refine ⟨findFirstSet_spec k x, ?_, ?_, ?_, popcount_spec k x⟩
  · rintro rfl
    exact ⟨findFirstSet_zero_top k, findFirstSet_zero k⟩
  · intro i hi
    have hx : x ≠ 0 := by
      rintro rfl
      simpa using hi.2.1
    have hffs := findFirstSet_spec k x hx
    have hi : i = (findFirstSet k x).toNat := hi.eq hffs
    have hsum := countLeadingZeros_findFirstSet k x hx
    omega
  · rintro rfl
    exact countLeadingZeros_zero k

end MipsCore
