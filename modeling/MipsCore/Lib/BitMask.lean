import Mathlib.Data.BitVec
import Mathlib.Data.Set.Insert

/-! # Single-bit updates of a bit mask -/
namespace BitMask
variable {w : ℕ}

/-- The mask with bit `i` set to `b`; an index past the width changes nothing. -/
def setBit (m : BitVec w) (i : ℕ) (b : Bool) : BitVec w :=
  if b then m ||| BitVec.twoPow w i else m &&& ~~~BitVec.twoPow w i

@[simp] theorem getLsbD_setBit (m : BitVec w) (i j : ℕ) (b : Bool) :
    (setBit m i b).getLsbD j = if j = i ∧ i < w then b else m.getLsbD j := by
  cases b with
  | true =>
    simp only [setBit, ↓reduceIte, BitVec.getLsbD_or, BitVec.getLsbD_twoPow]
    by_cases hji : j = i
    · subst hji; by_cases hj : j < w <;> simp [hj]
    · simp [hji, Ne.symm hji]
  | false =>
    simp only [setBit, Bool.false_eq_true, ↓reduceIte, BitVec.getLsbD_and, BitVec.getLsbD_not,
      BitVec.getLsbD_twoPow]
    by_cases hj : j < w
    · by_cases hji : j = i
      · subst hji; simp [hj]
      · simp [hj, hji, Ne.symm hji]
    · have hm : m.getLsbD j = false := BitVec.getLsbD_of_ge m j (not_lt.mp hj)
      simp [hm]

/-- A conditional write of a mask bit. -/
def setBitIf {k : ℕ} (v : Bool) (p : BitVec k) (b : Bool) (m : BitVec w) : BitVec w :=
  if v then setBit m p.toNat b else m

/-- A mask with a bit for every index, read at an index. -/
theorem getLsbD_setBitIf {k : ℕ} (hw : 2 ^ k ≤ w) (v : Bool) (p q : BitVec k) (b : Bool)
    (m : BitVec w) :
    (setBitIf v p b m).getLsbD q.toNat = if v = true ∧ q = p then b else m.getLsbD q.toNat := by
  have hp : p.toNat < w := lt_of_lt_of_le p.isLt hw
  cases v with
  | false => simp [setBitIf]
  | true => simp [setBitIf, -BitVec.getLsbD_eq_getElem, BitVec.toNat_inj, hp]

theorem getLsbD_setBitIf_true {k : ℕ} (hw : 2 ^ k ≤ w) (v : Bool) (p q : BitVec k) (m : BitVec w) :
    (setBitIf v p true m).getLsbD q.toNat = (v && p == q || m.getLsbD q.toNat) := by
  rw [getLsbD_setBitIf hw]
  by_cases hp : p = q
  · cases v <;> simp [hp]
  · simp [hp, Ne.symm hp]

theorem getLsbD_setBitIf_false {k : ℕ} (hw : 2 ^ k ≤ w) (v : Bool) (p q : BitVec k)
    (m : BitVec w) :
    (setBitIf v p false m).getLsbD q.toNat = (!(v && p == q) && m.getLsbD q.toNat) := by
  rw [getLsbD_setBitIf hw]
  by_cases hp : p = q
  · cases v <;> simp [hp]
  · simp [hp, Ne.symm hp]

/-! ## A mask as a set -/

/-- The indices of the bits that are set. -/
def members {n : ℕ} (m : BitVec w) : Set (BitVec n) := {p | m.getLsbD p.toNat = true}

theorem mem_members {n : ℕ} {m : BitVec w} {p : BitVec n} :
    p ∈ members m ↔ m.getLsbD p.toNat = true := Iff.rfl

theorem notMem_members {n : ℕ} {m : BitVec w} {p : BitVec n} (h : p ∉ members m) :
    m.getLsbD p.toNat = false := by simpa only [mem_members, Bool.not_eq_true] using h

/-- A mask with a bit for every index. -/
theorem members_setBit {n : ℕ} (hw : 2 ^ n ≤ w) (m : BitVec w) (p : BitVec n) (b : Bool) :
    members (setBit m p.toNat b) = if b then insert p (members m) else members m \ {p} := by
  ext q
  have hlt : p.toNat < w := lt_of_lt_of_le p.isLt hw
  have hq : q.toNat = p.toNat ↔ q = p := BitVec.toNat_inj
  cases b <;> by_cases hqp : q = p <;>
    simp [-BitVec.getLsbD_eq_getElem, mem_members, hq, hqp, hlt]

theorem members_setBitIf {n : ℕ} (hw : 2 ^ n ≤ w) (v : Bool) (m : BitVec w) (p : BitVec n)
    (b : Bool) :
    members (setBitIf v p b m) =
      if v then if b then insert p (members m) else members m \ {p} else members m := by
  cases v with
  | false => rfl
  | true => exact members_setBit hw m p b

end BitMask
