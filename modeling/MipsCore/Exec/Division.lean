import MipsCore.Exec.Divider
import MipsCore.Lib.Restoring
import Mathlib.Algebra.Module.Submodule.Lattice

/-! # Correctness of the integer divider

`divider.sv` for any `LG_W`.  The quotient is the one truncated toward zero; the
remainder is negated together with the quotient and not with the dividend, so it is
wrong for a negative divisor unless the division is exact.
-/
namespace MipsCore

/-- The divider for words of `w` bits, `W`, and an index of `lg` bits, `LG_W`. -/
structure DividerW (w lg : ℕ) where
  state : DivFsm := .IDLE
  isSigned : Bool := false
  sign : Bool := false
  robPtr : RobPtr := 0
  hiloPtr : HiloPtr := 0
  A : BitVec w := 0
  B : BitVec w := 0
  Y : BitVec (w + w) := 0
  D : BitVec (w + w) := 0
  R : BitVec (w + w) := 0
  idx : BitVec lg := 0
  ss : BitVec w := 0

/-- What the divider reads in a cycle. -/
structure DivIn (w : ℕ) where
  startDiv : Bool := false
  isSignedDiv : Bool := false
  srcA : BitVec w := 0
  srcB : BitVec w := 0
  robPtrIn : RobPtr := 0
  hiloPrfPtrIn : HiloPtr := 0

namespace DividerW
variable {w lg : ℕ}

/-- Two's complement of a word with the sign bit set. -/
def magnitude (x : BitVec w) : BitVec w := if x.msb then ~~~x + 1 else x
/-- `shiftregbit` -/
def shiftIn (ss : BitVec w) (b : Bool) : BitVec w := (ss.concat b).setWidth w
def hi (y : BitVec (w + w)) : BitVec w := y.extractLsb' w w
def lo (y : BitVec (w + w)) : BitVec w := y.extractLsb' 0 w

variable (d : DividerW w lg)

def shifted : BitVec (w + w) := d.R <<< 1
def fits : Bool := d.D.ule d.shifted
def complete : Bool := d.state == .WAIT_FOR_WB

/-- One cycle of the divider. -/
def step (i : DivIn w) : DividerW w lg :=
  match d.state with
  | .IDLE =>
    if i.startDiv then
      { d with
        state := .INPUT_SIGN, robPtr := i.robPtrIn, hiloPtr := i.hiloPrfPtrIn,
        isSigned := i.isSignedDiv, A := i.srcA, B := i.srcB }
    else d
  | .INPUT_SIGN =>
    let a := if d.isSigned then magnitude d.A else d.A
    let b := if d.isSigned then magnitude d.B else d.B
    { d with
      sign := d.isSigned && (d.A.msb ^^ d.B.msb), A := a, B := b, D := b ++ 0#w,
      R := 0#w ++ a, idx := BitVec.ofNat lg (w - 1), state := .DIVIDE }
  | .DIVIDE =>
    { d with
      R := if d.fits then d.shifted - d.D else d.shifted
      ss := shiftIn d.ss d.fits
      state := if d.idx = 0 then .PACK_OUTPUT else .DIVIDE
      idx := d.idx - 1 }
  | .PACK_OUTPUT => { d with Y := hi d.R ++ d.ss, state := .OUTPUT_SIGN }
  | .OUTPUT_SIGN =>
    { d with
      Y := if d.isSigned && d.sign then (~~~hi d.Y + 1) ++ (~~~lo d.Y + 1) else d.Y
      state := .WAIT_FOR_WB }
  | .WAIT_FOR_WB => { d with state := .IDLE }

/-! ## The instance of the execution unit -/

/-- The registers of the divider for `LG_W = 5`. -/
def to32 (d : DividerW 32 5) : Divider where
  state := d.state
  isSigned := d.isSigned
  sign := d.sign
  robPtr := d.robPtr
  hiloPtr := d.hiloPtr
  A := d.A
  B := d.B
  Y := d.Y
  D := d.D
  R := d.R
  idx := d.idx
  ss := d.ss

theorem magnitude_32 (x : BitVec 32) : magnitude x = Divider.magnitude x := by
  rw [magnitude, Divider.magnitude, BitVec.msb_eq_getLsbD_last]

theorem shiftIn_32 (ss : BitVec 32) (b : Bool) :
    shiftIn ss b = ss.extractLsb' 0 31 ++ BitVec.ofBool b := by
  apply BitVec.eq_of_getLsbD_eq
  intro k hk
  rw [BitVec.getLsbD_append, shiftIn, BitVec.getLsbD_setWidth, BitVec.getLsbD_concat]
  cases k with
  | zero => simp
  | succ k =>
    have hk' : k < 31 := by omega
    simp [hk, hk']

/-- The generic divider at `LG_W = 5` is the divider of the execution unit. -/
theorem to32_step (d : DividerW 32 5) (i : DivIn 32) :
    (d.step i).to32 =
      d.to32.step i.startDiv i.isSignedDiv i.srcA i.srcB i.robPtrIn i.hiloPrfPtrIn := by
  unfold step Divider.step
  cases hs : d.state with
  | IDLE =>
    simp only [to32, hs]
    split_ifs <;> simp [hs]
  | INPUT_SIGN =>
    simp only [to32, hs, magnitude_32, BitVec.msb_eq_getLsbD_last]
    congr 1
    apply BitVec.eq_of_toNat_eq
    rw [BitVec.toNat_append, BitVec.toNat_setWidth, Nat.mod_eq_of_lt (by omega)]
    simp
  | DIVIDE =>
    simp only [to32, hs, shiftIn_32]
    rfl
  | PACK_OUTPUT =>
    simp only [to32, hs, hi]
  | OUTPUT_SIGN =>
    unfold to32
    dsimp only
    rw [hs]
    rfl
  | WAIT_FOR_WB => simp only [to32, hs]

/-! ## Words as numbers -/

theorem toNat_magnitude (x : BitVec w) :
    (magnitude x).toNat = if x.msb then 2 ^ w - x.toNat else x.toNat := by
  have h : magnitude x = x.abs := by
    change (if x.msb then ~~~x + 1#w else x) = x.abs
    rw [← BitVec.neg_eq_not_add]
    rfl
  rw [h, BitVec.toNat_abs]

theorem toInt_magnitude (x : BitVec w) :
    x.toInt = Restoring.signed x.msb (magnitude x).toNat := by
  have hx := x.isLt
  rw [BitVec.toInt_eq_msb_cond, toNat_magnitude, Restoring.signed]
  split_ifs
  · push_cast [hx.le]
    ring
  · rfl

theorem toNat_shiftIn (ss : BitVec w) (b : Bool) :
    (shiftIn ss b).toNat = (2 * ss.toNat + b.toNat) % 2 ^ w := by
  rw [shiftIn, BitVec.toNat_setWidth, BitVec.toNat_concat, Nat.mul_comm]

theorem hi_append (x y : BitVec w) : hi (x ++ y) = x := BitVec.extractLsb'_append_eq_left
theorem lo_append (x y : BitVec w) : lo (x ++ y) = y := BitVec.extractLsb'_append_eq_right

/-- A doubled remainder that has room for another bit. -/
theorem toNat_doubled {R : BitVec (w + w)} {k : ℕ} (hk : k < w) (h : R.toNat < 2 ^ (w + k)) :
    (R <<< 1).toNat = 2 * R.toNat := by
  have hlt : 2 * R.toNat < 2 ^ (w + w) := by
    calc
      2 * R.toNat < 2 * 2 ^ (w + k) := by omega
      _ = 2 ^ (w + k + 1) := by rw [pow_succ, Nat.mul_comm]
      _ ≤ 2 ^ (w + w) := Nat.pow_le_pow_right (by omega) (by omega)
  rw [BitVec.toNat_shiftLeft, Nat.shiftLeft_eq, pow_one, Nat.mul_comm, Nat.mod_eq_of_lt hlt]

/-- The quotient bits collected so far, in the low end of the register. -/
theorem shiftIn_mod {ss : BitVec w} {b : Bool} {k : ℕ} (hk : k < w) :
    (shiftIn ss b).toNat % 2 ^ (k + 1) = 2 * (ss.toNat % 2 ^ k) + b.toNat := by
  have hb : b.toNat < 2 := Bool.toNat_lt b
  have hdvd : 2 ^ (k + 1) ∣ 2 ^ w := Nat.pow_dvd_pow 2 hk
  have hlt := Nat.mod_lt ss.toNat (Nat.two_pow_pos k)
  rw [toNat_shiftIn, Nat.mod_mod_of_dvd _ hdvd]
  have hsplit : 2 * ss.toNat + b.toNat =
      2 * (ss.toNat % 2 ^ k) + b.toNat + 2 ^ (k + 1) * (ss.toNat / 2 ^ k) := by
    calc
      2 * ss.toNat + b.toNat =
          2 * (2 ^ k * (ss.toNat / 2 ^ k) + ss.toNat % 2 ^ k) + b.toNat := by
        rw [Nat.div_add_mod]
      _ = _ := by
        rw [pow_succ]
        ring
  rw [hsplit, Nat.add_mul_mod_self_left, Nat.mod_eq_of_lt]
  rw [pow_succ]
  omega

/-- One step on words is one step on numbers: nothing is shifted out of the remainder. -/
theorem restoring_step {a b k : ℕ} {R D : BitVec (w + w)} {ss : BitVec w} (hk : k < w)
    (ha : a < 2 ^ w) (hb : 0 < b) (hD : D.toNat = b * 2 ^ w)
    (hR : R.toNat = Restoring.rem a (b * 2 ^ w) k)
    (hss : ss.toNat % 2 ^ k = Restoring.quo a (b * 2 ^ w) k) :
    (if D.ule (R <<< 1) then R <<< 1 - D else R <<< 1).toNat = Restoring.rem a (b * 2 ^ w) (k + 1) ∧
      (shiftIn ss (D.ule (R <<< 1))).toNat % 2 ^ (k + 1) = Restoring.quo a (b * 2 ^ w) (k + 1) := by
  have hsh : (R <<< 1).toNat = 2 * R.toNat := by
    refine toNat_doubled hk ?_
    rw [hR]
    exact Restoring.rem_lt ha
  have hfits : D.ule (R <<< 1) = decide (Restoring.fits a (b * 2 ^ w) k) := by
    rw [BitVec.ule, hsh, hD, hR]
    rfl
  obtain ⟨hrem, hquo⟩ :=
    Restoring.succ_eq (a := a) (k := k) (Nat.mul_pos hb (Nat.two_pow_pos w))
  rw [hrem, hquo, shiftIn_mod hk, hss, hfits]
  by_cases hf : Restoring.fits a (b * 2 ^ w) k
  · have hle : D ≤ R <<< 1 := by
      rw [BitVec.le_def, hsh, hD, hR]
      exact hf
    simp only [hf, decide_true, if_true]
    refine ⟨?_, rfl⟩
    rw [BitVec.toNat_sub_of_le hle, hsh, hD, hR]
  · simp only [hf, decide_false, Bool.false_eq_true, if_false]
    exact ⟨hsh.trans (by rw [hR]), rfl⟩

end DividerW

/-! ## Divisions -/

namespace DivIn
variable {w : ℕ} (o : DivIn w)

/-- A word as the number that the division takes it for. -/
def value (x : BitVec w) : ℤ := if o.isSignedDiv then x.toInt else x.toNat

def negative (x : BitVec w) : Bool := o.isSignedDiv && x.msb
def magnitude (x : BitVec w) : ℕ :=
  (if o.isSignedDiv then DividerW.magnitude x else x).toNat

theorem value_eq (x : BitVec w) : o.value x = Restoring.signed (o.negative x) (o.magnitude x) := by
  unfold value negative magnitude
  cases o.isSignedDiv with
  | false => simp [Restoring.signed]
  | true => simpa using DividerW.toInt_magnitude x

/-- Quotient truncated toward zero in the low half and remainder in the high half. -/
structure Divides (y : BitVec (w + w)) : Prop where
  quotient : DividerW.lo y = BitVec.ofInt w ((o.value o.srcA).tdiv (o.value o.srcB))
  remainder : o.value (DividerW.hi y) = (o.value o.srcA).tmod (o.value o.srcB)
  identity : o.srcA = DividerW.lo y * o.srcB + DividerW.hi y
  bound : (o.value (DividerW.hi y)).natAbs < (o.value o.srcB).natAbs

/-- The divisor is not negative, or the division leaves no remainder. -/
def KeepsRemainder : Prop :=
  o.isSignedDiv = true → 0 ≤ o.srcB.toInt ∨ o.srcB.toInt ∣ o.srcA.toInt

end DivIn

/-- The divider and the operands of the division that it has taken last. -/
structure Division (w lg : ℕ) where
  unit : DividerW w lg := {}
  op : DivIn w := {}

namespace Division
open DividerW Restoring
variable {w lg : ℕ} (s : Division w lg) (i : DivIn w)

def accepts : Bool := s.unit.state == .IDLE && i.startDiv

def step : Division w lg where
  unit := s.unit.step i
  op := if s.accepts i then i else s.op

/-- The registers in each state of a division by a divisor that is not zero. -/
def Progress : Prop :=
  let a := s.op.magnitude s.op.srcA
  let b := s.op.magnitude s.op.srcB
  let sign := s.op.negative s.op.srcA ^^ s.op.negative s.op.srcB
  match s.unit.state with
  | .IDLE => True
  | .INPUT_SIGN =>
    s.unit.isSigned = s.op.isSignedDiv ∧ s.unit.A = s.op.srcA ∧ s.unit.B = s.op.srcB
  | .DIVIDE =>
    (s.unit.isSigned && s.unit.sign) = sign ∧ s.unit.D.toNat = b * 2 ^ w ∧
      ∃ k, k + s.unit.idx.toNat + 1 = w ∧ s.unit.R.toNat = rem a (b * 2 ^ w) k ∧
        s.unit.ss.toNat % 2 ^ k = quo a (b * 2 ^ w) k
  | .PACK_OUTPUT =>
    (s.unit.isSigned && s.unit.sign) = sign ∧ s.unit.R.toNat = a % b * 2 ^ w ∧
      s.unit.ss.toNat = a / b
  | .OUTPUT_SIGN =>
    (s.unit.isSigned && s.unit.sign) = sign ∧ (hi s.unit.Y).toNat = a % b ∧
      (lo s.unit.Y).toNat = a / b
  | .WAIT_FOR_WB =>
    hi s.unit.Y = BitVec.ofInt w (signed sign (a % b)) ∧
      lo s.unit.Y = BitVec.ofInt w (signed sign (a / b))

variable {s i}

/-- The divisor is positive, and both magnitudes are words. -/
theorem magnitude_lt (o : DivIn w) (x : BitVec w) : o.magnitude x < 2 ^ w := BitVec.isLt _

theorem magnitude_pos {o : DivIn w} {x : BitVec w} (h : x ≠ 0) : 0 < o.magnitude x := by
  have hx := x.isLt
  have hne : x.toNat ≠ 0 := fun he => h (BitVec.eq_of_toNat_eq he)
  unfold DivIn.magnitude
  split_ifs
  · rw [toNat_magnitude]
    split_ifs <;> omega
  · omega

/-- The index does not wrap before it is zero. -/
theorem toNat_pred {x : BitVec lg} (h : x ≠ 0) : (x - 1).toNat = x.toNat - 1 := by
  have hne : x.toNat ≠ 0 := fun he => h (BitVec.eq_of_toNat_eq (by simpa using he))
  have hlt := x.isLt
  have hone : (1 : BitVec lg).toNat = 1 := by
    change 1 % 2 ^ lg = 1
    exact Nat.mod_eq_of_lt (by omega)
  have hle : 1 ≤ x := by
    rw [BitVec.le_def, hone]
    omega
  rw [BitVec.toNat_sub_of_le hle, hone]

theorem step_op (h : s.unit.state ≠ .IDLE) : (s.step i).op = s.op := by
  simp [step, accepts, h]

theorem step_inputSign (hw : w = 2 ^ lg) (hs : s.unit.state = .INPUT_SIGN) (hb : s.op.srcB ≠ 0)
    (h : s.Progress) : (s.step i).Progress := by
  simp only [Progress, hs] at h
  obtain ⟨hi, hA, hB⟩ := h
  have hpos := magnitude_pos (o := s.op) hb
  have ha := magnitude_lt s.op s.op.srcA
  have hlt : s.op.magnitude s.op.srcA < s.op.magnitude s.op.srcB * 2 ^ w :=
    lt_of_lt_of_le ha (Nat.le_mul_of_pos_left _ hpos)
  have hop := step_op (s := s) (i := i) (by simp [hs])
  have hu : (s.step i).unit = s.unit.step i := rfl
  simp only [Progress, hop, hu, DividerW.step, hs]
  refine ⟨?_, ?_, 0, ?_, ?_, ?_⟩
  · rw [hi, hA, hB, DivIn.negative, DivIn.negative]
    cases s.op.isSignedDiv <;> simp
  · rw [BitVec.toNat_append, hi, hB, DivIn.magnitude]
    simp [Nat.shiftLeft_eq]
  · have hpow := Nat.two_pow_pos lg
    rw [BitVec.toNat_ofNat, Nat.mod_eq_of_lt (by omega)]
    omega
  · rw [rem_zero hlt, BitVec.toNat_append, hi, hA, DivIn.magnitude]
    simp
  · rw [quo_zero hlt, pow_zero, Nat.mod_one]

theorem step_divide (hs : s.unit.state = .DIVIDE) (hb : s.op.srcB ≠ 0) (h : s.Progress) :
    (s.step i).Progress := by
  simp only [Progress, hs] at h
  obtain ⟨hsign, hD, k, hk, hR, hq⟩ := h
  have hpos := magnitude_pos (o := s.op) hb
  have ha := magnitude_lt s.op s.op.srcA
  obtain ⟨hR', hq'⟩ := restoring_step (by omega) ha hpos hD hR hq
  have hop := step_op (s := s) (i := i) (by simp [hs])
  have hu : (s.step i).unit = s.unit.step i := rfl
  by_cases hidx : s.unit.idx = 0
  · have hkw : k + 1 = w := by simpa [hidx] using hk
    simp only [Progress, hop, hu, DividerW.step, hs, hidx, if_true]
    refine ⟨hsign, ?_, ?_⟩
    · refine hR'.trans ?_
      rw [hkw, rem_done]
    · rw [hkw, quo_done] at hq'
      rwa [Nat.mod_eq_of_lt (BitVec.isLt _)] at hq'
  · simp only [Progress, hop, hu, DividerW.step, hs, hidx, if_false]
    refine ⟨hsign, hD, k + 1, ?_, hR', hq'⟩
    have hne : s.unit.idx.toNat ≠ 0 := fun he => hidx (BitVec.eq_of_toNat_eq (by simpa using he))
    rw [toNat_pred hidx]
    omega

theorem step_packOutput (hs : s.unit.state = .PACK_OUTPUT) (h : s.Progress) :
    (s.step i).Progress := by
  simp only [Progress, hs] at h
  obtain ⟨hsign, hR, hss⟩ := h
  have hop := step_op (s := s) (i := i) (by simp [hs])
  have hu : (s.step i).unit = s.unit.step i := rfl
  simp only [Progress, hop, hu, DividerW.step, hs]
  refine ⟨hsign, ?_, ?_⟩
  · rw [hi_append, hi, BitVec.extractLsb'_toNat, hR, Nat.shiftRight_eq_div_pow,
      Nat.mul_div_cancel _ (Nat.two_pow_pos w), Nat.mod_eq_of_lt]
    exact lt_of_le_of_lt (Nat.mod_le _ _) (magnitude_lt _ _)
  · rw [lo_append, hss]

theorem step_outputSign (hs : s.unit.state = .OUTPUT_SIGN) (h : s.Progress) :
    (s.step i).Progress := by
  simp only [Progress, hs] at h
  obtain ⟨hsign, hr, hq⟩ := h
  have hop := step_op (s := s) (i := i) (by simp [hs])
  have hu : (s.step i).unit = s.unit.step i := rfl
  have hword : ∀ x : BitVec w, BitVec.ofInt w (x.toNat : ℤ) = x := by
    intro x
    rw [BitVec.ofInt_natCast, BitVec.ofNat_toNat, BitVec.setWidth_eq]
  simp only [Progress, hop, hu, DividerW.step, hs]
  rw [← hr, ← hq, hsign]
  cases s.op.negative s.op.srcA ^^ s.op.negative s.op.srcB with
  | false => simp [signed, hword]
  | true =>
    have hneg : ∀ x : BitVec w, ~~~x + 1#w = -x := fun x => (BitVec.neg_eq_not_add x).symm
    simp [signed, hi_append, lo_append, BitVec.ofInt_neg, hword, hneg]

theorem step_progress (hw : w = 2 ^ lg) (h : s.op.srcB ≠ 0 → s.Progress) :
    (s.step i).op.srcB ≠ 0 → (s.step i).Progress := by
  intro hb
  cases hs : s.unit.state with
  | IDLE =>
    cases hst : i.startDiv with
    | false => simp [Progress, step, DividerW.step, hs, hst]
    | true => simp [Progress, step, DividerW.step, accepts, hs, hst]
  | INPUT_SIGN =>
    rw [step_op (by simp [hs])] at hb
    exact step_inputSign hw hs hb (h hb)
  | DIVIDE =>
    rw [step_op (by simp [hs])] at hb
    exact step_divide hs hb (h hb)
  | PACK_OUTPUT =>
    rw [step_op (by simp [hs])] at hb
    exact step_packOutput hs (h hb)
  | OUTPUT_SIGN =>
    rw [step_op (by simp [hs])] at hb
    exact step_outputSign hs (h hb)
  | WAIT_FOR_WB => simp [Progress, step, DividerW.step, hs]

/-! ## The result -/

variable {o : DivIn w}

/-- In a signed division the magnitudes are at most that of the least integer. -/
theorem magnitude_le (hs : o.isSignedDiv = true) (x : BitVec w) :
    o.magnitude x ≤ 2 ^ (w - 1) := by
  have hx := x.isLt
  have hpow : 2 ^ w ≤ 2 * 2 ^ (w - 1) := by
    rw [← pow_succ']
    exact Nat.pow_le_pow_right (by omega) (by omega)
  rw [DivIn.magnitude, if_pos hs, toNat_magnitude, BitVec.msb_eq_decide]
  split_ifs with h
  · simp only [decide_eq_true_eq] at h
    omega
  · simp only [decide_eq_true_eq, not_le] at h
    omega

/-- A number below the magnitude of the divisor is the value of its word, with either sign. -/
theorem value_ofInt {neg : Bool} {n : ℕ} (hn : n < o.magnitude o.srcB)
    (hs : neg = true → o.isSignedDiv = true) :
    o.value (BitVec.ofInt w (signed neg n)) = signed neg n := by
  unfold DivIn.value
  cases h : o.isSignedDiv with
  | false =>
    have hneg : neg = false := by
      cases neg with
      | false => rfl
      | true => simp [h] at hs
    have hlt := lt_trans hn (magnitude_lt o o.srcB)
    simp [hneg, signed, Nat.mod_eq_of_lt hlt]
  | true =>
    have hle := magnitude_le h o.srcB
    have hlt : (n : ℤ) < 2 ^ (w - 1) := by
      have hlt : n < 2 ^ (w - 1) := by omega
      exact_mod_cast hlt
    have hw : 0 < w := by
      by_contra h0
      have hw0 : w = 0 := by omega
      subst hw0
      have h1 := magnitude_lt o o.srcB
      rw [pow_zero] at h1
      omega
    simp only [if_true]
    apply BitVec.toInt_ofInt_eq_self hw
    · unfold signed
      split_ifs <;> omega
    · unfold signed
      split_ifs <;> omega

theorem ofInt_value (x : BitVec w) : BitVec.ofInt w (o.value x) = x := by
  unfold DivIn.value
  split_ifs
  · exact BitVec.ofInt_toInt
  · rw [BitVec.ofInt_natCast, BitVec.ofNat_toNat, BitVec.setWidth_eq]

theorem natAbs_signed (neg : Bool) (n : ℕ) : (signed neg n).natAbs = n := by
  cases neg <;> simp [signed]

theorem signed_inj {s t : Bool} {n : ℕ} : signed s n = signed t n ↔ s = t ∨ n = 0 := by
  cases s <;> cases t <;> simp [signed]

/-- The remainder with the quotient's sign is the remainder. -/
def SignAgrees (o : DivIn w) : Prop :=
  o.negative o.srcB = false ∨ o.magnitude o.srcA % o.magnitude o.srcB = 0

theorem signAgrees_iff : SignAgrees o ↔ o.KeepsRemainder := by
  unfold SignAgrees DivIn.KeepsRemainder
  cases h : o.isSignedDiv with
  | false => simp [DivIn.negative, h]
  | true =>
    have hB : o.srcB.toInt = signed o.srcB.msb (o.magnitude o.srcB) := by
      rw [toInt_magnitude, DivIn.magnitude, if_pos h]
    have hA : o.srcA.toInt = signed o.srcA.msb (o.magnitude o.srcA) := by
      rw [toInt_magnitude, DivIn.magnitude, if_pos h]
    have hdvd : o.srcB.toInt ∣ o.srcA.toInt ↔ o.magnitude o.srcB ∣ o.magnitude o.srcA := by
      rw [hA, hB, ← Int.natAbs_dvd_natAbs, natAbs_signed, natAbs_signed]
    rw [hdvd, Nat.dvd_iff_mod_eq_zero, DivIn.negative, h, BitVec.msb_eq_toInt]
    simp

/-- The registers at the end of a division hold its quotient and remainder exactly when the sign of
the remainder may follow the quotient's. -/
theorem divides_iff (hb : o.srcB ≠ 0) {y : BitVec (w + w)}
    (hhi : hi y = BitVec.ofInt w (signed (o.negative o.srcA ^^ o.negative o.srcB)
      (o.magnitude o.srcA % o.magnitude o.srcB)))
    (hlo : lo y = BitVec.ofInt w (signed (o.negative o.srcA ^^ o.negative o.srcB)
      (o.magnitude o.srcA / o.magnitude o.srcB))) :
    o.Divides y ↔ o.KeepsRemainder := by
  have hlt := Nat.mod_lt (o.magnitude o.srcA) (magnitude_pos (o := o) hb)
  have hquo : lo y = BitVec.ofInt w ((o.value o.srcA).tdiv (o.value o.srcB)) := by
    rw [hlo, DivIn.value_eq, DivIn.value_eq, tdiv_signed]
  have hval : o.value (hi y) = signed (o.negative o.srcA ^^ o.negative o.srcB)
      (o.magnitude o.srcA % o.magnitude o.srcB) := by
    rw [hhi, value_ofInt hlt]
    intro h
    cases hf : o.isSignedDiv with
    | true => rfl
    | false => simp [DivIn.negative, hf] at h
  have hrem : o.value (hi y) = (o.value o.srcA).tmod (o.value o.srcB) ↔ SignAgrees o := by
    rw [hval, o.value_eq o.srcA, o.value_eq o.srcB, tmod_signed, signed_inj, SignAgrees]
    cases o.negative o.srcA <;> cases o.negative o.srcB <;> simp
  rw [← signAgrees_iff, ← hrem]
  constructor
  · exact fun h => h.remainder
  · intro h
    refine ⟨hquo, h, ?_, ?_⟩
    · -- the identity of the integers, read modulo the width
      have hid := Int.tmod_add_tdiv_mul (o.value o.srcA) (o.value o.srcB)
      rw [← h] at hid
      have hword := congrArg (BitVec.ofInt w) hid
      rw [BitVec.ofInt_add, BitVec.ofInt_mul, ofInt_value, ofInt_value, ofInt_value, ← hquo] at hword
      rw [BitVec.add_comm]
      exact hword.symm
    · rw [hval, natAbs_signed, o.value_eq o.srcB, natAbs_signed]
      exact hlt

/-! ## Runs -/

/-- The cycles until the division in the unit completes. -/
def left (s : Division w lg) : ℕ :=
  match s.unit.state with
  | .IDLE => 0
  | .INPUT_SIGN => w + 3
  | .DIVIDE => s.unit.idx.toNat + 3
  | .PACK_OUTPUT => 2
  | .OUTPUT_SIGN => 1
  | .WAIT_FOR_WB => 0

/-- A division under way comes one cycle closer to its end. -/
theorem left_step (hw : w = 2 ^ lg) (hs : s.unit.state ≠ .IDLE) (hl : 0 < s.left) :
    (s.step i).op = s.op ∧ (s.step i).unit.state ≠ .IDLE ∧ (s.step i).left + 1 = s.left := by
  refine ⟨step_op hs, ?_⟩
  have hu : (s.step i).unit = s.unit.step i := rfl
  cases h : s.unit.state with
  | IDLE => exact absurd h hs
  | INPUT_SIGN =>
    have hpow := Nat.two_pow_pos lg
    have hlt : w - 1 < 2 ^ lg := by omega
    refine ⟨by simp [hu, DividerW.step, h], ?_⟩
    simp only [left, hu, DividerW.step, h, BitVec.toNat_ofNat, Nat.mod_eq_of_lt hlt]
    omega
  | DIVIDE =>
    by_cases hidx : s.unit.idx = 0
    · simp [left, hu, DividerW.step, h, hidx]
    · refine ⟨by simp only [hu, DividerW.step, h, hidx, if_false]; exact nofun, ?_⟩
      simp only [left, hu, DividerW.step, h, hidx, if_false]
      rw [toNat_pred hidx]
      have hne : s.unit.idx.toNat ≠ 0 :=
        fun he => hidx (BitVec.eq_of_toNat_eq (by simpa using he))
      omega
  | PACK_OUTPUT => simp [left, hu, DividerW.step, h]
  | OUTPUT_SIGN => simp [left, hu, DividerW.step, h]
  | WAIT_FOR_WB => simp [left, h] at hl

theorem left_run (hw : w = 2 ^ lg) (inputs : List (DivIn w)) :
    ∀ s : Division w lg, s.unit.state ≠ .IDLE → s.left = inputs.length →
      (Clocked.run step s inputs).op = s.op ∧
        (Clocked.run step s inputs).unit.complete = true := by
  induction inputs with
  | nil =>
    intro s hs hl
    refine ⟨rfl, ?_⟩
    change (s.unit.state == .WAIT_FOR_WB) = true
    cases h : s.unit.state <;> simp [left, h] at hl hs ⊢
  | cons i inputs ih =>
    intro s hs hl
    rw [List.length_cons] at hl
    obtain ⟨hop, hs', hl'⟩ := left_step (i := i) hw hs (by omega)
    have h := ih (s.step i) hs' (by omega)
    rw [Clocked.run_cons]
    exact ⟨h.1.trans hop, h.2⟩

theorem run_progress (hw : w = 2 ^ lg) (inputs : List (DivIn w)) :
    (Clocked.run step ({} : Division w lg) inputs).op.srcB ≠ 0 →
      (Clocked.run step ({} : Division w lg) inputs).Progress := by
  apply @Clocked.run_invariant _ _ step (fun s : Division w lg => s.op.srcB ≠ 0 → s.Progress)
    (fun _ _ h => step_progress hw h)
  intro hb
  exact absurd rfl hb

/-- Every division that the unit accepts completes `W + 4` cycles later.  For a divisor that is not
zero the low half is then the quotient truncated toward zero and the high half the remainder, with
the sign of the dividend, exactly when the divisor is not negative or divides the dividend. -/
theorem complete_exact (lg : ℕ) (inputs : List (DivIn (2 ^ lg))) :
    (∀ i later, (Clocked.run step ({} : Division (2 ^ lg) lg) inputs).accepts i = true →
      later.length = 2 ^ lg + 3 →
        (Clocked.run step ({} : Division (2 ^ lg) lg) (inputs ++ i :: later)).op = i ∧
        (Clocked.run step ({} : Division (2 ^ lg) lg) (inputs ++ i :: later)).unit.complete = true) ∧
      ((Clocked.run step ({} : Division (2 ^ lg) lg) inputs).unit.complete = true →
        (Clocked.run step ({} : Division (2 ^ lg) lg) inputs).op.srcB ≠ 0 →
          ((Clocked.run step ({} : Division (2 ^ lg) lg) inputs).op.Divides
              (Clocked.run step ({} : Division (2 ^ lg) lg) inputs).unit.Y ↔
            (Clocked.run step ({} : Division (2 ^ lg) lg) inputs).op.KeepsRemainder)) := by
  refine ⟨?_, ?_⟩
  · intro i later ha hlen
    rw [Clocked.run_append, Clocked.run_cons]
    generalize Clocked.run step ({} : Division (2 ^ lg) lg) inputs = s at ha
    have hop : (s.step i).op = i := by
      change (if s.accepts i then i else s.op) = i
      rw [if_pos ha]
    have hst : (s.step i).unit.state = .INPUT_SIGN := by
      change (s.unit.step i).state = .INPUT_SIGN
      simp only [accepts, Bool.and_eq_true, beq_iff_eq] at ha
      simp [DividerW.step, ha.1, ha.2]
    have hl : (s.step i).left = later.length := by
      rw [hlen, left, hst]
    have h := left_run rfl later (s.step i) (by simp [hst]) hl
    exact ⟨h.1.trans hop, h.2⟩
  · intro hc hb
    have hp := run_progress rfl inputs hb
    simp only [DividerW.complete, beq_iff_eq] at hc
    simp only [Progress, hc] at hp
    exact divides_iff hb hp.1 hp.2

/-- Seven divided by two on four bits. -/
def sevenByTwo : List (DivIn (2 ^ 2)) :=
  { startDiv := true, isSignedDiv := true, srcA := 7, srcB := 2 } :: List.replicate 7 {}

theorem complete_exact_sevenByTwo :
    (Clocked.run step ({} : Division (2 ^ 2) 2) sevenByTwo).op.Divides
      (Clocked.run step ({} : Division (2 ^ 2) 2) sevenByTwo).unit.Y := by
  have hkeep : (Clocked.run step ({} : Division (2 ^ 2) 2) sevenByTwo).op.KeepsRemainder :=
    fun _ => Or.inl (by decide +kernel)
  exact ((complete_exact 2 sevenByTwo).2 (by decide +kernel) (by decide +kernel)).mpr hkeep

/-- Seven divided by minus two. -/
def sevenByMinusTwo : List (DivIn (2 ^ 5)) :=
  { startDiv := true, isSignedDiv := true, srcA := 7, srcB := -2 } :: List.replicate 35 {}

/-- The remainder of a signed division of seven by minus two comes out as minus one. -/
theorem exists_wrong_remainder :
    ¬∀ (lg : ℕ) (inputs : List (DivIn (2 ^ lg))),
      (Clocked.run step ({} : Division (2 ^ lg) lg) inputs).unit.complete = true →
        (Clocked.run step ({} : Division (2 ^ lg) lg) inputs).op.srcB ≠ 0 →
          (Clocked.run step ({} : Division (2 ^ lg) lg) inputs).op.Divides
            (Clocked.run step ({} : Division (2 ^ lg) lg) inputs).unit.Y := by
  intro h
  have hd := h 5 sevenByMinusTwo (by decide +kernel) (by decide +kernel)
  have hhi : hi (Clocked.run step ({} : Division (2 ^ 5) 5) sevenByMinusTwo).unit.Y = 4294967295 := by
    decide +kernel
  have hlo : lo (Clocked.run step ({} : Division (2 ^ 5) 5) sevenByMinusTwo).unit.Y = 4294967293 := by
    decide +kernel
  have hA : (Clocked.run step ({} : Division (2 ^ 5) 5) sevenByMinusTwo).op.srcA = 7 := by decide +kernel
  have hB : (Clocked.run step ({} : Division (2 ^ 5) 5) sevenByMinusTwo).op.srcB = -2 := by decide +kernel
  have hid := hd.identity
  rw [hA, hB, hhi, hlo] at hid
  exact absurd hid (by decide)

end Division
end MipsCore
