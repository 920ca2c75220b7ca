import MipsCore.Lib.Clocked
import MipsCore.Scan

/-! # Fairness of the rotating scheduler

Seen from the counter, every entry has a distance to the position that the priority
encoder favours.  A cycle with some input set brings each entry one position closer,
and the entry that has arrived there is selected whatever the others do.
-/
namespace MipsCore
open Clocked (run)

/-- The position of an entry in the rotated input. -/
def fairPos (k : ℕ) (c : BitVec (k + 2)) (e : ℕ) : ℕ := (e + c.toNat) % 2 ^ (k + 2)

section
variable {k : ℕ} {c : BitVec (k + 2)} {x : BitVec (2 ^ (k + 2))} {e : ℕ}

theorem fairPos_lt : fairPos k c e < 2 ^ (k + 2) := Nat.mod_lt _ (Nat.two_pow_pos _)

theorem fairPos_inj {e' : ℕ} (he : e < 2 ^ (k + 2)) (he' : e' < 2 ^ (k + 2))
    (h : fairPos k c e = fairPos k c e') : e = e' := by
  have hmod : e ≡ e' [MOD 2 ^ (k + 2)] := Nat.ModEq.add_right_cancel' c.toNat h
  exact Nat.ModEq.eq_of_lt_of_lt hmod he he'

theorem ne_zero_of_getLsbD (h : x.getLsbD e = true) : x ≠ 0 := by
  rintro rfl
  simp at h

/-- An entry that has not arrived moves on by one position. -/
theorem fairPos_succ (h : fairPos k c e + 1 < 2 ^ (k + 2)) :
    fairPos k (c + 1) e = fairPos k c e + 1 := by
  have hone : (1 : BitVec (k + 2)).toNat = 1 % 2 ^ (k + 2) := rfl
  unfold fairPos at h ⊢
  rw [BitVec.toNat_add, hone, Nat.add_mod_mod, ← Nat.add_assoc, Nat.add_mod_mod,
    ← Nat.mod_add_mod, Nat.mod_eq_of_lt h]

/-- The rotation brings the input of an entry to its position. -/
theorem getLsbD_fairSchedIn (he : e < 2 ^ (k + 2)) :
    (fairSchedIn k c x).getLsbD (fairPos k c e) = x.getLsbD e := by
  have hc := c.isLt
  have hp := fairPos_lt (k := k) (c := c) (e := e)
  rw [fairSchedIn, BitVec.getLsbD_extractLsb', BitVec.getLsbD_shiftLeft, BitVec.getLsbD_append]
  have hpos : fairPos k c e = e + c.toNat ∧ e + c.toNat < 2 ^ (k + 2) ∨
      fairPos k c e + 2 ^ (k + 2) = e + c.toNat ∧ 2 ^ (k + 2) ≤ e + c.toNat := by
    unfold fairPos
    rcases Nat.lt_or_ge (e + c.toNat) (2 ^ (k + 2)) with h | h
    · exact Or.inl ⟨Nat.mod_eq_of_lt h, h⟩
    · refine Or.inr ⟨?_, h⟩
      rw [Nat.mod_eq_sub_mod h, Nat.mod_eq_of_lt (by omega)]
      omega
  rcases hpos with ⟨h, -⟩ | ⟨h, -⟩
  · have hsub : 2 ^ (k + 2) + fairPos k c e - c.toNat = 2 ^ (k + 2) + e := by omega
    rw [hsub]
    simp [hp]
    omega
  · have hsub : 2 ^ (k + 2) + fairPos k c e - c.toNat = e := by omega
    rw [hsub]
    simp [hp, he]
    omega

/-- The selected entry is the one that is furthest on its way. -/
theorem fairSched_spec (hx : x ≠ 0) : ∃ y, (fairSched k c x).toNat = y ∧ y < 2 ^ (k + 2) ∧
    x.getLsbD y = true ∧
      ∀ e < 2 ^ (k + 2), x.getLsbD e = true → fairPos k c e ≤ fairPos k c y := by
  have hc := c.isLt
  have hin : fairSchedIn k c x ≠ 0 := by
    intro h
    refine hx (eq_zero_iff_getLsbD.mpr fun e he => ?_)
    rw [← getLsbD_fairSchedIn (c := c) he, h]
    exact BitVec.getLsbD_zero
  obtain ⟨hlt, hbit, hmax⟩ := findFirstSet_spec k _ hin
  have hy : (fairSched k c x).toNat =
      (2 ^ (k + 2) - c.toNat + (findFirstSet k (fairSchedIn k c x)).toNat) % 2 ^ (k + 2) := by
    have hw : 2 ^ (k + 2) ≤ 2 ^ (k + 3) := Nat.pow_le_pow_right (by decide) (by omega)
    rw [fairSched, if_pos hx, BitVec.toNat_setWidth, BitVec.toNat_sub, BitVec.toNat_setWidth,
      Nat.mod_eq_of_lt hlt, Nat.mod_eq_of_lt]
    exact lt_of_lt_of_le (Nat.mod_lt _ (Nat.two_pow_pos _)) hw
  have hylt : (fairSched k c x).toNat < 2 ^ (k + 2) := by
    rw [hy]
    exact Nat.mod_lt _ (Nat.two_pow_pos _)
  have hpos : fairPos k c (fairSched k c x).toNat =
      (findFirstSet k (fairSchedIn k c x)).toNat := by
    rw [fairPos, hy, Nat.mod_add_mod]
    have hsum : 2 ^ (k + 2) - c.toNat + (findFirstSet k (fairSchedIn k c x)).toNat + c.toNat =
        (findFirstSet k (fairSchedIn k c x)).toNat + 2 ^ (k + 2) := by omega
    rw [hsum, Nat.add_mod_right, Nat.mod_eq_of_lt hlt]
  refine ⟨_, rfl, hylt, ?_, fun e he hbe => ?_⟩
  · rw [← getLsbD_fairSchedIn (c := c) hylt, hpos]
    exact hbit
  · rw [hpos]
    by_contra hle
    have := hmax _ (Nat.lt_of_not_le hle)
    rw [getLsbD_fairSchedIn he, hbe] at this
    cases this

/-- An entry at the favoured position is selected. -/
theorem fairSched_arrived (he : e < 2 ^ (k + 2)) (hx : x.getLsbD e = true)
    (h : fairPos k c e + 1 = 2 ^ (k + 2)) : (fairSched k c x).toNat = e := by
  have hne := ne_zero_of_getLsbD hx
  obtain ⟨y, hy, hlt, -, hmax⟩ := fairSched_spec (c := c) hne
  have hle := hmax e he hx
  have hpos := fairPos_lt (k := k) (c := c) (e := y)
  rw [hy]
  exact fairPos_inj (c := c) hlt he (by omega)

end

/-- A waiting entry is selected by the time it arrives at the favoured position. -/
theorem fairSched_within {k e : ℕ} (he : e < 2 ^ (k + 2)) (xs : List (BitVec (2 ^ (k + 2)))) :
    ∀ c : BitVec (k + 2), 2 ^ (k + 2) ≤ fairPos k c e + xs.length →
      (∀ x ∈ xs, x.getLsbD e = true) → ∃ ys x zs, xs = ys ++ x :: zs ∧
        ys.length + fairPos k c e < 2 ^ (k + 2) ∧
          (fairSched k (run (fairSchedCnt k) c ys) x).toNat = e := by
  induction xs with
  | nil =>
    intro c hlen _
    have := fairPos_lt (k := k) (c := c) (e := e)
    rw [List.length_nil] at hlen
    omega
  | cons x xs ih =>
    intro c hlen hx
    have hlt := fairPos_lt (k := k) (c := c) (e := e)
    have hbit := hx x List.mem_cons_self
    rw [List.length_cons] at hlen
    by_cases harr : fairPos k c e + 1 = 2 ^ (k + 2)
    · exact ⟨[], x, xs, rfl, by simpa using hlt, fairSched_arrived he hbit harr⟩
    · have hcnt : fairSchedCnt k c x = c + 1 := if_pos (ne_zero_of_getLsbD hbit)
      have hsucc := fairPos_succ (k := k) (c := c) (e := e) (by omega)
      obtain ⟨ys, y, zs, heq, hys, hsel⟩ :=
        ih (c + 1) (by omega) fun y hy => hx y (List.mem_cons_of_mem _ hy)
      refine ⟨x :: ys, y, zs, by rw [heq, List.cons_append], ?_, ?_⟩
      · rw [List.length_cons]
        omega
      · rw [Clocked.run_cons, hcnt]
        exact hsel

/-- In every reachable state a set input selects an asserted entry, and an entry that stays asserted
is selected within as many cycles as there are entries. -/
theorem fairSched_safe_fair (k : ℕ) (past : List (BitVec (2 ^ (k + 2)))) :
    (∀ x : BitVec (2 ^ (k + 2)), x ≠ 0 →
      x.getLsbD (fairSched k (run (fairSchedCnt k) 0 past) x).toNat = true) ∧
    ∀ (e : ℕ) (xs : List (BitVec (2 ^ (k + 2)))), 2 ^ (k + 2) ≤ xs.length →
      (∀ x ∈ xs, x.getLsbD e = true) → ∃ ys x zs, xs = ys ++ x :: zs ∧ ys.length < 2 ^ (k + 2) ∧
        (fairSched k (run (fairSchedCnt k) 0 (past ++ ys)) x).toNat = e := by
  refine ⟨fun x hx => ?_, fun e xs hlen hx => ?_⟩
  · obtain ⟨y, hy, -, hbit, -⟩ := fairSched_spec (c := run (fairSchedCnt k) 0 past) hx
    rw [hy]
    exact hbit
  · have he : e < 2 ^ (k + 2) := by
      cases xs with
      | nil =>
        have := Nat.two_pow_pos (k + 2)
        rw [List.length_nil] at hlen
        omega
      | cons x xs => exact BitVec.lt_of_getLsbD (hx x List.mem_cons_self)
    obtain ⟨ys, x, zs, heq, hys, hsel⟩ :=
      fairSched_within he xs (run (fairSchedCnt k) 0 past) (by omega) hx
    refine ⟨ys, x, zs, heq, by omega, ?_⟩
    rw [Clocked.run_append]
    exact hsel

end MipsCore
