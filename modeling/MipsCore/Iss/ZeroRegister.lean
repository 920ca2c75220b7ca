import MipsCore.Iss.Interpreter
import MipsCore.L1d.Lanes

/-! # Register zero of the interpreter

`execMips` writes its destination register without looking whether it is register 0,
but for OR, DI and EI.  Register 0 stays zero as long as the operands of every
instruction that names it make zero.
-/
namespace MipsCore
open Clocked (Guarded attempt run)

/-! ## Values that are zero -/

theorem shiftLeft_eq_zero_iff {n : ℕ} (hn : n ≤ 32) (x : BitVec 32) :
    x <<< n = 0 ↔ 2 ^ (32 - n) ∣ x.toNat := by
  have hp : 2 ^ 32 = 2 ^ (32 - n) * 2 ^ n := by rw [← pow_add, Nat.sub_add_cancel hn]
  rw [← BitVec.toNat_inj, BitVec.toNat_shiftLeft, Nat.shiftLeft_eq, hp]
  exact (Nat.dvd_iff_mod_eq_zero ..).symm.trans (Nat.mul_dvd_mul_iff_right (Nat.two_pow_pos n))

theorem ushiftRight_eq_zero_iff {n : ℕ} (x : BitVec 32) : x >>> n = 0 ↔ x.toNat < 2 ^ n := by
  rw [← BitVec.toNat_inj, BitVec.toNat_ushiftRight, Nat.shiftRight_eq_div_pow]
  exact Nat.div_eq_zero_iff_lt (Nat.two_pow_pos n)

theorem sshiftRight_eq_zero_iff {n : ℕ} (hn : n < 32) (x : BitVec 32) :
    x.sshiftRight n = 0 ↔ x.toNat < 2 ^ n := by
  cases hm : x.msb with
  | false => rw [BitVec.sshiftRight_eq_of_msb_false hm, ushiftRight_eq_zero_iff]
  | true =>
    have hlt : 2 ^ n ≤ 2 ^ 31 := Nat.pow_le_pow_right (by decide) (by omega)
    have hge : 2 ^ 31 ≤ x.toNat := by
      have := BitVec.msb_eq_true_iff_two_mul_ge.mp hm
      omega
    refine iff_of_false (fun h => ?_) (by omega)
    have hmsb := BitVec.msb_sshiftRight (n := n) (x := x)
    rw [h, hm] at hmsb
    cases hmsb

theorem not_eq_zero_iff (x : BitVec 32) : ~~~x = 0 ↔ x = BitVec.allOnes 32 := by
  rw [BitVec.not_eq_comm]
  rfl

theorem add_eq_zero_iff (x y : BitVec 32) : x + y = 0 ↔ x = -y := by
  constructor <;> intro h <;> bv_omega

theorem sub_eq_zero_iff' (x y : BitVec 32) : x - y = 0 ↔ x = y := by
  constructor <;> intro h <;> bv_omega

theorem mul_eq_zero_iff' (x y : BitVec 32) :
    (x.signExtend 64 * y.signExtend 64).setWidth 32 = 0 ↔ 2 ^ 32 ∣ x.toNat * y.toNat := by
  have hx : ∀ z : BitVec 32, (z.signExtend 64).setWidth 32 = z := lo32_signExtend
  rw [BitVec.setWidth_mul _ _ (by decide), hx, hx, ← BitVec.toNat_inj, BitVec.toNat_mul]
  exact (Nat.dvd_iff_mod_eq_zero ..).symm

theorem setWidth_eq_zero_iff {n : ℕ} (hn : n ≤ 32) (x : BitVec n) :
    x.setWidth 32 = 0 ↔ x = 0 := by
  have hlt : x.toNat < 2 ^ 32 := x.isLt.trans_le (Nat.pow_le_pow_right (by decide) hn)
  rw [← BitVec.toNat_inj, ← BitVec.toNat_inj, BitVec.toNat_setWidth, Nat.mod_eq_of_lt hlt]
  simp

theorem signExtend_eq_zero_iff {n : ℕ} (hn : n ≤ 32) (x : BitVec n) :
    x.signExtend 32 = 0 ↔ x = 0 := by
  rw [← BitVec.toInt_inj, ← BitVec.toInt_inj, BitVec.toInt_signExtend_of_le hn]
  simp

theorem low_eq_zero_iff {n : ℕ} (x : BitVec 32) : x.setWidth n = 0 ↔ x.toNat % 2 ^ n = 0 := by
  rw [← BitVec.toNat_inj, BitVec.toNat_setWidth]
  simp

theorem ofBool_eq_zero_iff (b : Bool) : Iss.ofBool b = 0 ↔ b = false := by
  cases b <;> decide

theorem clz_zero_iff (x : BitVec 32) : x.clz = 0 ↔ 2 ^ 31 ≤ x.toNat := by
  rw [← BitVec.toNat_inj]
  exact BitVec.clz_eq_zero_iff (x := x) (by decide)

theorem getLsbD_lowMask {n : BitVec 32} (hn : n.toNat ≤ 32) {k : ℕ} (hk : k < 32) :
    (Iss.lowMask n).getLsbD k = decide (k < n.toNat) := by
  rcases Nat.lt_or_ge n.toNat 32 with h | h
  · rw [lowMask_eq h, BitVec.getLsbD_ofNat, Nat.testBit_two_pow_sub_one, decide_eq_true hk,
      Bool.true_and]
  · have hall : Iss.lowMask n = BitVec.allOnes 32 := by
      rw [Iss.lowMask, BitVec.shiftLeft_eq_zero h]
      rfl
    rw [hall, BitVec.getLsbD_allOnes]
    exact decide_eq_decide.mpr (by omega)

/-- The field that `EXT` moves, read with the sign above the register. -/
theorem ext_eq_zero_iff (x : BitVec 32) (n : ℕ) (m : BitVec 5) :
    x.sshiftRight n &&& Iss.lowMask (m.setWidth 32 + 1) = 0 ↔
      ∀ k ≤ m.toNat, x.getLsbD (min (n + k) 31) = false := by
  have hm := m.isLt
  have hs : (m.setWidth 32 + 1).toNat = m.toNat + 1 := by
    simp
    omega
  have hbit : ∀ k < 32, (x.sshiftRight n).getLsbD k = x.getLsbD (min (n + k) 31) := fun k hk => by
    rw [BitVec.getLsbD_sshiftRight, decide_eq_false (by omega), Bool.not_false, Bool.true_and]
    split_ifs with h
    · rw [min_eq_left (by omega)]
    · rw [min_eq_right (by omega)]
      rfl
  constructor
  · intro h k hk
    have hb := congrArg (fun y : BitVec 32 => y.getLsbD k) h
    simp only [BitVec.getLsbD_and, getLsbD_lowMask (n := m.setWidth 32 + 1) (by omega)
      (show k < 32 by omega), hs, hbit k (by omega)] at hb
    simpa [Nat.lt_succ_of_le hk] using hb
  · intro h
    ext k hk
    rw [BitVec.getElem_and, ← BitVec.getLsbD_eq_getElem, ← BitVec.getLsbD_eq_getElem,
      getLsbD_lowMask (by omega) hk, hbit k hk, hs]
    rcases Nat.lt_or_ge m.toNat k with hlt | hge
    · rw [decide_eq_false (by omega)]
      simp
    · rw [h k hge]
      simp
theorem byte_zero (n j : ℕ) : byte (0 : BitVec n) j = 0#8 := BitVec.extractLsb'_zero

/-- A value is zero when its bytes are. -/
theorem eq_zero_iff_bytes {n : ℕ} (q : ℕ) (hn : n = 8 * q) (x : BitVec n) :
    x = 0 ↔ ∀ j < q, byte x j = 0 := by
  refine ⟨fun h j _ => by rw [h, byte_zero]; rfl, fun h => eq_of_bytes q hn fun j hj => ?_⟩
  rw [h j hj, byte_zero]
  rfl

/-- The bytes that `LWL` and `LWR` load on top of a register that is zero. -/
theorem byte_lwlWord (r : BitVec 32) {p j : ℕ} (hp : p < 4) (hj : j < 4) :
    byte (IssState.lwlWord r 0 p) j = if j < p then 0#8 else byte r (j - p) := by
  unfold IssState.lwlWord
  interval_cases p <;> interval_cases j <;>
    simp (disch := decide) [byte_and_ones, byte_shiftLeft]

theorem byte_lwrWord (r : BitVec 32) {p j : ℕ} (hp : p < 4) (hj : j < 4) :
    byte (IssState.lwrWord r 0 p) j = if j ≤ p then byte r (j + 3 - p) else 0#8 := by
  unfold IssState.lwrWord
  interval_cases p <;> interval_cases j <;>
    simp (disch := decide) [byte_shiftRight, byte_of_le]

/-! ## Operands that make zero -/

namespace Iss
variable (s : Iss) (inst : BitVec 32)

/-- What major opcode 0 writes is zero.  OR looks at its destination, and a move that does not take
place keeps the register. -/
def rtypeZero : Prop :=
  match (funct inst).toNat with
  | 0x00 => 2 ^ (32 - (sa inst).toNat) ∣ (s.gpr (rt inst)).toNat
  | 0x01 =>
    inst.getLsbD 16 = decide (s.getConditionCode (branchCc inst) ≠ 0) → s.gpr (rs inst) = 0
  | 0x02 => (s.gpr (rt inst)).toNat < 2 ^ (sa inst).toNat
  | 0x03 => (s.gpr (rt inst)).toNat < 2 ^ (sa inst).toNat
  | 0x04 => 2 ^ (32 - (s.gpr (rs inst)).toNat % 32) ∣ (s.gpr (rt inst)).toNat
  | 0x06 => (s.gpr (rt inst)).toNat < 2 ^ ((s.gpr (rs inst)).toNat % 32)
  | 0x07 => (s.gpr (rt inst)).toNat < 2 ^ ((s.gpr (rs inst)).toNat % 32)
  | 0x0a => s.gpr (rt inst) = 0 → s.gpr (rs inst) = 0
  | 0x0b => s.gpr (rt inst) ≠ 0 → s.gpr (rs inst) = 0
  | 0x10 => s.hi = 0
  | 0x12 => s.lo = 0
  | 0x20 => s.gpr (rs inst) = -s.gpr (rt inst)
  | 0x21 => s.gpr (rs inst) = -s.gpr (rt inst)
  | 0x23 => s.gpr (rs inst) = s.gpr (rt inst)
  | 0x24 => s.gpr (rs inst) &&& s.gpr (rt inst) = 0
  | 0x26 => s.gpr (rs inst) = s.gpr (rt inst)
  | 0x27 => s.gpr (rs inst) ||| s.gpr (rt inst) = BitVec.allOnes 32
  | 0x2a => (s.gpr (rt inst)).toInt ≤ (s.gpr (rs inst)).toInt
  | 0x2b => (s.gpr (rt inst)).toNat ≤ (s.gpr (rs inst)).toNat
  | _ => True

/-- What MUL and CLZ write is zero. -/
def special2Zero : Prop :=
  match (funct inst).toNat with
  | 0x2 => 2 ^ 32 ∣ (s.gpr (rs inst)).toNat * (s.gpr (rt inst)).toNat
  | 0x20 => 2 ^ 31 ≤ (s.gpr (rs inst)).toNat
  | _ => True

/-- What SEB, SEH, EXT, INS and RDHWR write is zero: the last three write register `rt`. -/
def special3Zero : Prop :=
  match (funct inst).toNat with
  | 32 =>
    rd inst = 0 → (s.gpr (rt inst)).toNat % 2 ^ (if (sa inst).toNat = 0x10 then 8 else 16) = 0
  | 0 => rt inst = 0 →
    ∀ k ≤ (rd inst).toNat, (s.gpr (rs inst)).getLsbD (min ((sa inst).toNat + k) 31) = false
  | 4 => rt inst = 0 →
    (s.gpr (rs inst) &&& lowMask ((rd inst).setWidth 32 - (sa inst).setWidth 32 + 1)) <<<
      (sa inst).toNat = 0
  | 0x3b => rt inst = 0 → s.cpr0 29 = 0
  | _ => True

/-- What an immediate instruction writes is zero. -/
def itypeZero : Prop :=
  match (opcode inst).toNat with
  | 0x08 => s.gpr (rs inst) = -simm32 inst
  | 0x09 => s.gpr (rs inst) = -simm32 inst
  | 0x0a => (simm32 inst).toInt ≤ (s.gpr (rs inst)).toInt
  | 0x0b => (simm32 inst).toNat ≤ (s.gpr (rs inst)).toNat
  | 0x0c => s.gpr (rs inst) &&& uimm32 inst = 0
  | 0x0d => s.gpr (rs inst) = 0 ∧ uimm32 inst = 0
  | 0x0e => s.gpr (rs inst) = uimm32 inst
  | _ => uimm32 inst = 0

variable {s inst} {t : Iss} {r : ArchReg} {v : BitVec 32}

/-- A write leaves register 0 zero when it is to another register, or writes zero. -/
theorem write_zero_iff (h0 : s.gpr 0 = 0) (he : s.write r v = some t) :
    t.gpr 0 = 0 ↔ (r = 0 → v = 0) := by
  cases he
  change Function.update s.gpr r v 0 = 0 ↔ _
  by_cases hr : r = 0
  · rw [hr, Function.update_self, imp_iff_right rfl]
  · rw [Function.update_of_ne (Ne.symm hr)]
    exact iff_of_true h0 fun h => absurd h hr

theorem rtype_zero_iff (h0 : s.gpr 0 = 0) (he : s.rtype inst = some t) :
    t.gpr 0 = 0 ↔ (rd inst = 0 → s.rtypeZero inst) := by
  have hsa : (sa inst).toNat < 32 := (sa inst).isLt
  have hmod : (s.gpr (rs inst) &&& 0x1f).toNat = (s.gpr (rs inst)).toNat % 32 := by
    rw [BitVec.toNat_and]
    exact Nat.and_two_pow_sub_one_eq_mod _ 5
  have hlt : (s.gpr (rs inst)).toNat % 32 < 32 := Nat.mod_lt _ (by decide)
  have hw : ∀ {v : BitVec 32}, s.write (rd inst) v = some t →
      ∀ {P : Prop}, (rd inst = 0 → (v = 0 ↔ P)) → (t.gpr 0 = 0 ↔ (rd inst = 0 → P)) := fun hv P hP =>
    (write_zero_iff h0 hv).trans (forall_congr' hP)
  have hmove : ∀ (b : Prop) [Decidable b] (x : BitVec 32), rd inst = 0 →
      ((if b then x else s.gpr (rd inst)) = 0 ↔ (b → x = 0)) := fun b _ x hr => by
    rw [hr, h0]
    by_cases hb : b
    · rw [if_pos hb, imp_iff_right hb]
    · rw [if_neg hb]
      exact iff_of_true rfl fun h => absurd h hb
  unfold rtype at he
  unfold rtypeZero
  generalize (funct inst).toNat = f at he ⊢
  -- the arms of `rtype` in their order; the condition of each follows by evaluation
  split at he <;> try (cases he; done)
  case h_1 => exact hw he fun _ => shiftLeft_eq_zero_iff hsa.le _
  case h_3 => exact hw he fun _ => ushiftRight_eq_zero_iff _
  case h_4 => exact hw he fun _ => sshiftRight_eq_zero_iff hsa _
  case h_5 =>
    rw [hmod] at he
    exact hw he fun _ => shiftLeft_eq_zero_iff hlt.le _
  case h_6 =>
    rw [hmod] at he
    exact hw he fun _ => ushiftRight_eq_zero_iff _
  case h_7 =>
    rw [hmod] at he
    exact hw he fun _ => sshiftRight_eq_zero_iff hlt _
  case h_11 | h_13 => exact hw he fun _ => Iff.rfl
  case h_19 | h_20 => exact hw he fun _ => add_eq_zero_iff _ _
  case h_22 => exact hw he fun _ => sub_eq_zero_iff' _ _
  case h_23 => exact hw he fun _ => Iff.rfl
  case h_25 => exact hw he fun _ => BitVec.xor_eq_zero_iff
  case h_26 => exact hw he fun _ => not_eq_zero_iff _
  case h_27 =>
    refine hw he fun _ => (ofBool_eq_zero_iff _).trans ?_
    rw [BitVec.slt_eq_decide, decide_eq_false_iff_not, not_lt]
    exact Iff.rfl
  case h_28 =>
    refine hw he fun _ => (ofBool_eq_zero_iff _).trans ?_
    rw [BitVec.ult_eq_decide, decide_eq_false_iff_not, not_lt]
    exact Iff.rfl
  case h_8 | h_9 => exact hw he (hmove _ _)
  case h_2 =>
    refine hw he fun hr => ?_
    change (if inst.getLsbD 16 then if s.getConditionCode (branchCc inst) ≠ 0 then _ else _ else
      if s.getConditionCode (branchCc inst) ≠ 0 then _ else _) = 0 ↔ _
    rw [hr, h0]
    by_cases hc : s.getConditionCode (branchCc inst) = 0 <;> cases inst.getLsbD 16 <;> simp [hc]
  case h_24 =>
    split_ifs at he with hr
    · exact iff_of_true ((write_zero_iff h0 he).mpr fun h => absurd h hr) fun _ => trivial
    · cases he
      exact iff_of_true h0 fun _ => trivial
  all_goals
    refine iff_of_true ?_ fun _ => trivial
    try split_ifs at he
    all_goals
      cases he
      exact h0

theorem special2_zero_iff (h0 : s.gpr 0 = 0) (he : s.execSpecial2 inst = some t) :
    t.gpr 0 = 0 ↔ (rd inst = 0 → s.special2Zero inst) := by
  unfold execSpecial2 at he
  unfold special2Zero
  split at he <;> rename_i hf
  case h_3 =>
    rw [hf]
    exact (write_zero_iff h0 he).trans (forall_congr' fun _ => mul_eq_zero_iff' _ _)
  case h_5 =>
    rw [hf]
    exact (write_zero_iff h0 he).trans (forall_congr' fun _ => clz_zero_iff _)
  case h_6 => cases he
  all_goals
    cases he
    rw [hf]
    exact iff_of_true h0 fun _ => trivial

theorem special3_zero_iff (h0 : s.gpr 0 = 0) (he : s.execSpecial3 inst = some t) :
    t.gpr 0 = 0 ↔ s.special3Zero inst := by
  unfold execSpecial3 at he
  unfold special3Zero
  generalize (funct inst).toNat = f at he ⊢
  split at he
  case h_1 =>
    split at he <;> rename_i hsa
    · refine (write_zero_iff h0 he).trans (forall_congr' fun _ => ?_)
      rw [signExtend_eq_zero_iff (by decide), low_eq_zero_iff, if_pos hsa]
    · refine (write_zero_iff h0 he).trans (forall_congr' fun _ => ?_)
      rw [signExtend_eq_zero_iff (by decide), low_eq_zero_iff, if_neg (by rw [hsa]; decide)]
    · cases he
  case h_2 => exact (write_zero_iff h0 he).trans (forall_congr' fun _ => ext_eq_zero_iff _ _ _)
  case h_3 =>
    refine (write_zero_iff h0 he).trans (forall_congr' fun hr => ?_)
    have hz : ∀ m : BitVec 32, s.gpr (rt inst) &&& m = 0#32 := fun m => by
      rw [hr, h0]
      exact BitVec.zero_and
    rw [hz, BitVec.zero_or]
  case h_4 =>
    split_ifs at he
    exact write_zero_iff h0 he
  case h_5 => cases he

theorem itype_zero_iff (h0 : s.gpr 0 = 0) (he : s.itype inst = some t) :
    t.gpr 0 = 0 ↔ (rt inst = 0 → s.itypeZero inst) := by
  unfold itype at he
  unfold itypeZero
  split at he <;> rename_i ho
  case h_9 => cases he
  all_goals
    simp only [ho]
    refine (write_zero_iff h0 he).trans (forall_congr' fun _ => ?_)
  case h_1 | h_2 => exact add_eq_zero_iff _ _
  case h_3 =>
    refine (ofBool_eq_zero_iff _).trans ?_
    rw [BitVec.slt_eq_decide, decide_eq_false_iff_not, not_lt]
  case h_4 =>
    refine (ofBool_eq_zero_iff _).trans ?_
    rw [BitVec.ult_eq_decide, decide_eq_false_iff_not, not_lt]
  case h_5 => exact Iff.rfl
  case h_6 => exact BitVec.or_eq_zero_iff
  case h_7 => exact BitVec.xor_eq_zero_iff
  case h_8 =>
    have hlt : (uimm32 inst).toNat < 2 ^ 16 := by
      rw [uimm32, BitVec.toNat_setWidth]
      exact (Nat.mod_le ..).trans_lt (inst.extractLsb' 0 16).isLt
    rw [shiftLeft_eq_zero_iff (by decide), ← BitVec.toNat_inj]
    exact ⟨fun h => Nat.eq_zero_of_dvd_of_lt h hlt, fun h => h ▸ dvd_zero _⟩

end Iss

namespace IssState
open Iss
variable (s : IssState) (inst : BitVec 32)

/-- Bytes of memory that are zero. -/
def Clear (a : BitVec 32) (lo hi : ℕ) : Prop :=
  ∀ k < hi, lo ≤ k → s.mem (a + BitVec.ofNat 32 k) = 0

/-- What a load writes into an integer register is zero; SC writes 1. -/
def memoryZero : Prop :=
  match (opcode inst).toNat with
  | 0x20 => s.Clear (s.ea inst) 0 1
  | 0x21 => s.Clear (s.ea inst) 0 2
  | 0x22 => s.Clear (wordEa (s.ea inst)) (ma (s.ea inst)) 4
  | 0x23 => s.Clear (s.ea inst) 0 4
  | 0x24 => s.Clear (s.ea inst) 0 1
  | 0x25 => s.Clear (s.ea inst) 0 2
  | 0x26 => s.Clear (wordEa (s.ea inst)) 0 (ma (s.ea inst) + 1)
  | 0x30 => s.Clear (s.ea inst) 0 4
  | 0x38 => False
  | _ => True

/-- What MFC0 writes is zero.  DI and EI look at their destination. -/
def coproc0Zero : Prop :=
  inst.getLsbD 25 = false → (rs inst).toNat = 0 → rt inst = 0 → s.cpr0 (rd inst) = 0

/-- What MFC1 writes is zero. -/
def fpZero : Prop :=
  inst.extractLsb' 0 11 = 0 ∧ fmt inst = 0 → rt inst = 0 → s.single (rd inst) = 0

/-- An instruction that names register 0 where `execMips` does not look writes zero there.  Links
and monitor calls write other registers. -/
def operandsZero : Prop :=
  match (opcode inst).toNat with
  | 0 => rd inst = 0 → s.rtypeZero inst
  | 0x1c => rd inst = 0 → s.special2Zero inst
  | 0x1f => s.special3Zero inst
  | 0x10 => s.coproc0Zero inst
  | 0x11 => s.fpZero inst
  | 0x08 | 0x09 | 0x0a | 0x0b | 0x0c | 0x0d | 0x0e | 0x0f => rt inst = 0 → s.itypeZero inst
  | _ => rt inst = 0 → s.memoryZero inst

/-- The state on which a jump or a branch executes its delay slot. -/
def rtypeSlot : Option IssState :=
  match (funct inst).toNat with
  | 0x08 => some s.next
  | 0x09 => some (s.set 31 (s.pc + 8)).next
  | _ => none

/-- A likely branch skips its delay slot when it is not taken. -/
def likelySlot (takeBranch : Bool) : Option IssState := if takeBranch then some s.next else none

def bgezBltzSlot : Option IssState :=
  match (rt inst).toNat with
  | 0 | 1 | 17 => some s.next
  | 2 => s.likelySlot (s.isLtz inst)
  | 3 => s.likelySlot (s.isGez inst)
  | _ => none

def bc1Slot : Option IssState :=
  match (inst.extractLsb' 16 2).toNat with
  | 0 | 1 => some s.next
  | 2 => s.likelySlot (s.isFalse inst)
  | _ => s.likelySlot (s.isTrue inst)

def delaySlot : Option IssState :=
  match (opcode inst).toNat with
  | 0 => s.rtypeSlot inst
  | 1 => s.bgezBltzSlot inst
  | 3 => some (s.set 31 (s.pc + 8)).next
  | 2 | 4 | 5 | 6 | 7 => some s.next
  | 0x11 => if fmt inst = 8 then s.bc1Slot inst else none
  | 0x14 => s.likelySlot (s.isEq inst)
  | 0x15 => s.likelySlot (s.isNe inst)
  | 0x16 => s.likelySlot (s.isLez inst)
  | 0x17 => s.likelySlot (s.isGtz inst)
  | _ => none

/-- The operands make zero of the instruction that the state is at, or of the one in its delay
slot: a control transfer itself writes no register but 31. -/
def KeepsZero : ℕ → IssState → Prop
  | 0, _ => True
  | depth + 1, s => ∀ inst, s.fetch = some inst →
    match s.delaySlot inst with
    | some u => KeepsZero depth u
    | none => s.operandsZero inst

/-! ## Loads -/

variable {s inst} {h : Host} {t : IssState}

/-- A value is zero when the bytes of memory are that it is made of, the first at the high end. -/
theorem eq_zero_iff_clear {n q : ℕ} (hn : n = 8 * q) {x : BitVec n} {a : BitVec 32}
    (hx : ∀ j < q, byte x j = s.mem (a + BitVec.ofNat 32 (q - 1 - j))) :
    x = 0 ↔ s.Clear a 0 q := by
  rw [eq_zero_iff_bytes q hn]
  constructor
  · intro hz k hk _
    rw [← hz (q - 1 - k) (by omega), hx _ (by omega)]
    congr 3
    omega
  · intro hc j hj
    rw [hx j hj]
    exact hc _ (by omega) (Nat.zero_le _)

theorem half_eq_zero_iff (a : BitVec 32) : bswap16 (get16 s.mem a) = 0 ↔ s.Clear a 0 2 := by
  refine eq_zero_iff_clear (n := 16) (q := 2) rfl fun j hj => ?_
  rw [byte_bswap16 _ hj, byte_get16 _ _ (by omega)]

theorem byte_eq_zero_iff (a : BitVec 32) : s.mem a = 0 ↔ s.Clear a 0 1 := by
  refine eq_zero_iff_clear (n := 8) (q := 1) rfl fun j hj => ?_
  obtain rfl : j = 0 := by omega
  rw [byte_byte]
  exact congrArg s.mem (BitVec.add_zero a).symm

theorem byte_fetched (m : BitVec 32 → Byte) (a : BitVec 32) {j : ℕ} (hj : j < 4) :
    byte (bswap32 (get32 m a)) j = m (a + BitVec.ofNat 32 (3 - j)) := by
  rw [byte_bswap32 _ hj, byte_get32 _ _ (by omega)]

theorem word_eq_zero_iff (a : BitVec 32) : bswap32 (get32 s.mem a) = 0 ↔ s.Clear a 0 4 :=
  eq_zero_iff_clear (n := 32) (q := 4) rfl fun _ hj => byte_fetched _ _ hj

theorem lwlWord_eq_zero_iff (a : BitVec 32) {p : ℕ} (hp : p < 4) :
    lwlWord (bswap32 (get32 s.mem a)) 0 p = 0 ↔ s.Clear a p 4 := by
  rw [eq_zero_iff_bytes 4 rfl]
  constructor
  · intro hz k hk hpk
    have hb := hz (p + 3 - k) (by omega)
    rw [byte_lwlWord _ hp (by omega), if_neg (by omega), byte_fetched _ _ (by omega)] at hb
    rw [← hb]
    congr 3
    omega
  · intro hc j hj
    rw [byte_lwlWord _ hp hj]
    split_ifs
    · rfl
    · rw [byte_fetched _ _ (by omega)]
      exact hc _ (by omega) (by omega)

theorem lwrWord_eq_zero_iff (a : BitVec 32) {p : ℕ} (hp : p < 4) :
    lwrWord (bswap32 (get32 s.mem a)) 0 p = 0 ↔ s.Clear a 0 (p + 1) := by
  rw [eq_zero_iff_bytes 4 rfl]
  constructor
  · intro hz k hk _
    have hb := hz (p - k) (by omega)
    rw [byte_lwrWord _ hp (by omega), if_pos (by omega), byte_fetched _ _ (by omega)] at hb
    rw [← hb]
    congr 3
    omega
  · intro hc j hj
    rw [byte_lwrWord _ hp hj]
    split_ifs
    · rw [byte_fetched _ _ (by omega)]
      exact hc _ (by omega) (by omega)
    · rfl

/-- A load leaves register 0 zero when it is into another register, or loads zero. -/
theorem access_zero_iff {ea v : BitVec 32} {k : ℕ} {r : ArchReg} (h0 : s.gpr 0 = 0)
    (he : access ea k (s.set r v) = some t) : t.gpr 0 = 0 ↔ (r = 0 → v = 0) := by
  unfold access at he
  split_ifs at he
  exact Iss.write_zero_iff (s := s.toIss) h0 (congrArg some (congrArg toIss (Option.some.inj he)))

theorem access_gpr {ea : BitVec 32} {k : ℕ} {u : IssState} (he : access ea k u = some t) :
    t.gpr = u.gpr := by
  unfold access at he
  split_ifs at he
  cases he
  rfl

theorem execMemory_zero_iff (h0 : s.gpr 0 = 0) (he : s.execMemory inst h = some t) :
    t.gpr 0 = 0 ↔ (rt inst = 0 → s.memoryZero inst) := by
  have hma : ma (s.ea inst) < 4 := by
    rw [ma_eq]
    exact Nat.mod_lt _ (by decide)
  unfold execMemory at he
  unfold memoryZero
  split at he <;> rename_i ho <;> simp only [ho]
  case h_1 =>
    refine (access_zero_iff h0 he).trans (forall_congr' fun _ => ?_)
    rw [signExtend_eq_zero_iff (by decide), byte_eq_zero_iff]
  case h_2 =>
    refine (access_zero_iff h0 he).trans (forall_congr' fun _ => ?_)
    rw [signExtend_eq_zero_iff (by decide), half_eq_zero_iff]
  case h_3 =>
    refine (access_zero_iff h0 he).trans (forall_congr' fun hr => ?_)
    rw [hr, h0, lwlWord_eq_zero_iff _ hma]
  case h_4 => exact (access_zero_iff h0 he).trans (forall_congr' fun _ => word_eq_zero_iff _)
  case h_5 =>
    refine (access_zero_iff h0 he).trans (forall_congr' fun _ => ?_)
    rw [setWidth_eq_zero_iff (by decide), byte_eq_zero_iff]
  case h_6 =>
    refine (access_zero_iff h0 he).trans (forall_congr' fun _ => ?_)
    rw [setWidth_eq_zero_iff (by decide), half_eq_zero_iff]
  case h_7 =>
    refine (access_zero_iff h0 he).trans (forall_congr' fun hr => ?_)
    rw [hr, h0, lwrWord_eq_zero_iff _ hma]
  case h_13 => exact (access_zero_iff h0 he).trans (forall_congr' fun _ => word_eq_zero_iff _)
  case h_16 =>
    obtain ⟨u, hu, rfl⟩ := Option.map_eq_some_iff.mp he
    have hu0 : u.gpr 0 = 0 := (congrFun (access_gpr hu) 0).trans h0
    have hz := Iss.write_zero_iff (s := u.toIss) (r := rt inst) (v := 1) hu0 rfl
    refine hz.trans (forall_congr' fun _ => iff_false_intro ?_)
    decide
  case h_19 => cases he
  all_goals
    rw [access_gpr he]
    exact iff_of_true h0 fun _ => trivial

/-! ## Coprocessors and monitor calls -/

theorem coproc0_zero_iff (h0 : s.gpr 0 = 0) (he : s.execCoproc0 inst = some t) :
    t.gpr 0 = 0 ↔ s.coproc0Zero inst := by
  unfold execCoproc0 at he
  unfold coproc0Zero
  have hset : ∀ v, (if rt inst ≠ 0 then s.set (rt inst) v else s).gpr 0 = 0 := fun v => by
    split_ifs with hr
    · exact (Function.update_of_ne (Ne.symm hr) _ _).trans h0
    · exact h0
  by_cases h25 : inst.getLsbD 25 = true
  · rw [if_pos h25] at he
    refine iff_of_true ?_ fun hc => absurd h25 (by rw [hc]; decide)
    split at he <;> try split_ifs at he
    all_goals
      cases he
      try exact h0
  rw [if_neg h25] at he
  rw [imp_iff_right (Bool.eq_false_of_not_eq_true h25)]
  by_cases hdi : (rs inst).toNat = 11 ∧ uimm32 inst = 0x6000
  · rw [if_pos hdi] at he
    cases he
    exact iff_of_true (hset _) fun hc => absurd (hdi.1.symm.trans hc) (by decide)
  rw [if_neg hdi] at he
  by_cases hei : (rs inst).toNat = 11 ∧ uimm32 inst = 0x6020
  · rw [if_pos hei] at he
    cases he
    exact iff_of_true (hset _) fun hc => absurd (hei.1.symm.trans hc) (by decide)
  rw [if_neg hei] at he
  split at he <;> rename_i hrs
  · rw [imp_iff_right hrs]
    exact Iss.write_zero_iff (s := s.toIss) h0 (congrArg some (congrArg toIss (Option.some.inj he)))
  · cases he
    exact iff_of_true h0 fun hc => absurd (hrs.symm.trans hc) (by decide)
  · cases he

theorem doFpOp_gpr {op : FpOperation} (he : s.doFpOp h inst op = some t) : t.gpr = s.gpr := by
  unfold doFpOp at he
  split at he <;> try split_ifs at he
  all_goals
    cases he
    try rfl

theorem moveIf_gpr {b : Bool} (he : s.moveIf inst b = some t) : t.gpr = s.gpr := by
  unfold moveIf at he
  split at he <;> cases he <;> cases b <;> rfl

theorem compare_gpr {cond : FpCond} (he : s.compare h inst cond = some t) : t.gpr = s.gpr := by
  unfold compare at he
  split at he <;> cases he <;> rfl

theorem c_gpr (he : s.c h inst = some t) : t.gpr = s.gpr := by
  unfold c at he
  split at he <;> first | exact compare_gpr he | cases he

/-- A conversion between singles asserts that its registers are even. -/
theorem convert_gpr
    (he : s.truncw h inst = some t ∨ s.cvts h inst = some t ∨ s.cvtd h inst = some t) : t.gpr = s.gpr := by
  unfold truncw cvts cvtd at he
  rcases he with he | he | he <;> try split_ifs at he
  all_goals
    split at he <;> cases he
    all_goals rfl

/-- Of the instructions of coprocessor 1 only MFC1 writes an integer register. -/
theorem execFp_zero_iff (h0 : s.gpr 0 = 0) (he : s.execFp h inst = some t) :
    t.gpr 0 = 0 ↔ s.fpZero inst := by
  unfold execFp at he
  unfold fpZero
  split_ifs at he with hm ht hc
  · rw [imp_iff_right hm]
    exact Iss.write_zero_iff (s := s.toIss) h0 (congrArg some (congrArg toIss (Option.some.inj he)))
  all_goals refine iff_of_true ?_ fun hc => absurd hc hm
  · cases he
    exact h0
  · rw [c_gpr he]
    exact h0
  · split at he
    all_goals first
      | (rw [doFpOp_gpr he]; exact h0)
      | (rw [moveIf_gpr he]; exact h0)
      | (rw [convert_gpr (.inl he)]; exact h0)
      | (rw [convert_gpr (.inr (.inl he))]; exact h0)
      | (rw [convert_gpr (.inr (.inr he))]; exact h0)
      | cases he

theorem coproc1x_gpr (he : s.execCoproc1x h inst = some t) : t.gpr = s.gpr := by
  unfold execCoproc1x at he
  dsimp only at he
  split at he
  · exact (access_gpr he).trans (setSingle_gpr ..)
  · exact (access_gpr he).trans (setDouble_gpr ..)
  · split_ifs at he
    split at he <;> cases he <;> rfl

theorem putWord_gpr {a v : BitVec 32} {u : IssState} (he : putWord a v u = some t) :
    t.gpr = u.gpr := by
  unfold putWord at he
  split_ifs at he
  cases he
  rfl

theorem bind_putWord_gpr {a v : BitVec 32} {o : Option IssState}
    (ho : ∀ u, o = some u → u.gpr = s.gpr) (he : o.bind (putWord a v) = some t) : t.gpr = s.gpr := by
  obtain ⟨u, hu, hp⟩ := Option.bind_eq_some_iff.mp he
  exact (putWord_gpr hp).trans (ho u hu)

theorem set2_gpr (v : BitVec 32) : (s.set 2 v).gpr 0 = s.gpr 0 := by
  rw [set_gpr]
  exact Function.update_of_ne (by decide) _ _

theorem map_set2_gpr {o : Option IssState} (ho : ∀ u, o = some u → u.gpr = s.gpr)
    (he : o.map (set · 2 0) = some t) : t.gpr 0 = s.gpr 0 := by
  obtain ⟨u, hu, rfl⟩ := Option.map_eq_some_iff.mp he
  exact (set2_gpr _).trans (congrFun (ho u hu) 0)

/-- A monitor call answers in register 2. -/
theorem monitorBody_gpr (he : s.monitorBody h inst = some t) : t.gpr 0 = s.gpr 0 := by
  obtain ⟨u, hu, rfl⟩ := Option.map_eq_some_iff.mp he
  change u.gpr 0 = s.gpr 0
  have hsys : ∀ n, (s.syscall h n).gpr 0 = s.gpr 0 := fun n => set2_gpr _
  unfold monitorCall at hu
  dsimp only at hu
  split at hu
  case h_5 =>
    cases hu
    split_ifs
    · exact hsys 10
    · exact set2_gpr _
  case h_6 =>
    exact map_set2_gpr (fun _ => bind_putWord_gpr fun _ => putWord_gpr) hu
  case h_7 =>
    exact map_set2_gpr (fun _ => bind_putWord_gpr fun _ => bind_putWord_gpr fun _ =>
      bind_putWord_gpr fun _ => putWord_gpr) hu
  case h_9 =>
    cases hu
    exact (set2_gpr _).trans (hsys 37)
  case h_12 =>
    exact map_set2_gpr (fun _ => bind_putWord_gpr fun _ => bind_putWord_gpr fun _ => putWord_gpr) hu
  case h_13 => cases hu
  all_goals
    cases hu
    exact hsys _

/-! ## Delay slots -/

variable {slot : IssState → Option IssState}

/-- A control transfer leaves register 0 as its delay slot does.  Another instruction leaves it zero
when its operands make zero. -/
def Leaves (slot : IssState → Option IssState) (t : IssState) (zero : Prop) :
    Option IssState → Prop
  | some u => u.gpr 0 = 0 ∧ ∃ v, slot u = some v ∧ t.gpr 0 = v.gpr 0
  | none => t.gpr 0 = 0 ↔ zero

theorem set31_gpr (v : BitVec 32) : (s.set 31 v).gpr 0 = s.gpr 0 := by
  rw [set_gpr]
  exact Function.update_of_ne (by decide) _ _

theorem jump_leaves {zero : Prop} {u : IssState} {pc : BitVec 32} (hu : u.gpr 0 = 0)
    (he : (slot u).map (jump · pc) = some t) : Leaves slot t zero (some u) := by
  obtain ⟨v, hv, rfl⟩ := Option.map_eq_some_iff.mp he
  exact ⟨hu, v, hv, rfl⟩

theorem branch_leaves {zero : Prop} {b r : Bool} (h0 : s.gpr 0 = 0)
    (he : s.branch slot inst b false r = some t) : Leaves slot t zero (some s.next) := by
  obtain ⟨v, hv, rfl⟩ := Option.map_eq_some_iff.mp he
  refine ⟨h0, v, hv, ?_⟩
  cases b with
  | false => rfl
  | true =>
    cases r with
    | false => rfl
    | true => exact set31_gpr (s := v) (s.pc + 4 + 4)

/-- A likely branch that is not taken writes nothing. -/
theorem branchLikely_leaves {zero : Prop} {b r : Bool} (h0 : s.gpr 0 = 0) (hz : zero)
    (he : s.branch slot inst b true r = some t) : Leaves slot t zero (s.likelySlot b) := by
  cases b with
  | true => exact jump_leaves (u := s.next) h0 he
  | false =>
    cases he
    exact iff_of_true h0 hz

theorem bgezBltz_leaves {zero : Prop} (h0 : s.gpr 0 = 0) (hz : zero)
    (he : s.bgezBltz slot inst = some t) : Leaves slot t zero (s.bgezBltzSlot inst) := by
  unfold bgezBltz at he
  unfold bgezBltzSlot
  split at he <;> rename_i hr <;> simp only [hr]
  · exact branch_leaves h0 he
  · exact branch_leaves h0 he
  · exact branchLikely_leaves h0 hz he
  · exact branchLikely_leaves h0 hz he
  · exact branch_leaves h0 he
  · cases he

theorem bc1_leaves {zero : Prop} (h0 : s.gpr 0 = 0) (hz : zero) (he : s.bc1 slot inst = some t) :
    Leaves slot t zero (s.bc1Slot inst) := by
  have hlt : (inst.extractLsb' 16 2).toNat < 4 := BitVec.isLt _
  unfold bc1 at he
  unfold bc1Slot
  generalize (inst.extractLsb' 16 2).toNat = n at he hlt ⊢
  interval_cases n <;> simp only at he ⊢
  · exact branch_leaves h0 he
  · exact branch_leaves h0 he
  · exact branchLikely_leaves h0 hz he
  · exact branchLikely_leaves h0 hz he

/-- An instruction of one of the tables has no delay slot. -/
theorem lift_leaves {f : Option Iss} {zero : Prop}
    (hf : ∀ u, f = some u → (u.gpr 0 = 0 ↔ zero)) (he : s.lift f = some t) :
    Leaves slot t zero none := by
  obtain ⟨u, hu, rfl⟩ := Option.map_eq_some_iff.mp he
  exact hf u hu

theorem execRtype_leaves (h0 : s.gpr 0 = 0) (he : s.execRtype h slot inst = some t) :
    Leaves slot t (rd inst = 0 → s.rtypeZero inst) (s.rtypeSlot inst) := by
  have hplain : ∀ {u : IssState}, u.gpr 0 = 0 → s.rtypeZero inst →
      Leaves slot u (rd inst = 0 → s.rtypeZero inst) none := fun hu hz =>
    iff_of_true hu fun _ => hz
  unfold execRtype at he
  unfold rtypeSlot
  split at he <;> rename_i hf
  case h_1 =>
    have hz : s.rtypeZero inst := by
      simp only [rtypeZero, hf]
    simp only [hf]
    exact hplain ((monitorBody_gpr he).trans h0) hz
  case h_2 =>
    simp only [hf]
    exact jump_leaves (u := s.next) h0 he
  case h_3 =>
    simp only [hf]
    exact jump_leaves (u := (s.set 31 (s.pc + 8)).next) ((set31_gpr (s.pc + 8)).trans h0) he
  case h_6 =>
    split
    · contradiction
    · contradiction
    · exact lift_leaves (fun _ hu => rtype_zero_iff h0 hu) he
  all_goals
    have hz : s.rtypeZero inst := by
      simp only [rtypeZero, hf]
    simp only [hf]
    cases he
    exact hplain h0 hz

theorem exec_leaves (h0 : s.gpr 0 = 0) (he : s.exec h slot inst = some t) :
    Leaves slot t (s.operandsZero inst) (s.delaySlot inst) := by
  have ho : (opcode inst).toNat < 64 := (opcode inst).isLt
  unfold exec at he
  unfold delaySlot operandsZero
  generalize hop : (opcode inst).toNat = o at he ho ⊢
  interval_cases o
  case «0» => exact execRtype_leaves h0 he
  case «1» => exact bgezBltz_leaves h0 (fun _ => by simp only [memoryZero, hop]) he
  case «2» => exact jump_leaves (u := s.next) h0 he
  case «3» =>
    exact jump_leaves (u := (s.set 31 (s.pc + 8)).next) ((set31_gpr (s.pc + 8)).trans h0) he
  case «4» | «5» | «6» | «7» => exact branch_leaves h0 he
  case «8» | «9» | «10» | «11» | «12» | «13» | «14» | «15» =>
    exact lift_leaves (fun _ hu => itype_zero_iff h0 hu) he
  case «16» => exact coproc0_zero_iff h0 he
  case «17» =>
    simp only [execCoproc1] at he ⊢
    split_ifs at he ⊢ with hb
    · exact bc1_leaves h0 (fun hm => absurd (hb.symm.trans hm.2) (by decide)) he
    · exact execFp_zero_iff h0 he
  case «19» =>
    refine iff_of_true ?_ fun _ => by simp only [memoryZero, hop]
    rw [coproc1x_gpr he]
    exact h0
  case «20» | «21» | «22» | «23» =>
    exact branchLikely_leaves h0 (fun _ => by simp only [memoryZero, hop]) he
  case «28» => exact lift_leaves (fun _ hu => special2_zero_iff h0 hu) he
  case «31» => exact lift_leaves (fun _ hu => special3_zero_iff h0 hu) he
  case «51» =>
    cases he
    exact iff_of_true h0 fun _ => by simp only [memoryZero, hop]
  all_goals exact execMemory_zero_iff h0 he

/-! ## Runs -/

theorem keepsZero_succ {depth : ℕ} (hi : s.fetch = some inst) :
    s.KeepsZero (depth + 1) ↔ match s.delaySlot inst with
      | some u => KeepsZero depth u
      | none => s.operandsZero inst := by
  refine ⟨fun hall => hall inst hi, fun hm w hw => ?_⟩
  obtain rfl := Option.some.inj (hi.symm.trans hw)
  exact hm

/-- One call of `execMips` leaves register 0 zero just when the operands make zero. -/
theorem execMips_zero_iff {depth : ℕ} (h0 : s.gpr 0 = 0) (he : execMips h depth s = some t) :
    t.gpr 0 = 0 ↔ s.KeepsZero depth := by
  induction depth generalizing s t with
  | zero => cases he
  | succ depth ih =>
    obtain ⟨inst, hi, hx⟩ := Option.bind_eq_some_iff.mp he
    have hl := exec_leaves h0 hx
    rw [keepsZero_succ hi]
    cases hd : s.delaySlot inst with
    | none =>
      rw [hd] at hl
      exact hl
    | some u =>
      rw [hd] at hl
      obtain ⟨hu, v, hv, hg⟩ := hl
      rw [hg]
      exact ih hu hv

/-- `execMips` over and over, to a depth of delay slots. -/
def runMips (depth : ℕ) : Option IssState → List Host → Option IssState :=
  run (attempt fun h => execMips h depth)

/-- In a run that does not end the program register 0 stays zero just when every instruction that
names it as its destination, in delay slots too, has operands that make zero, or is one of the
three that look. -/
theorem runMips_zero_iff (depth : ℕ) {s : IssState} (h0 : s.gpr 0 = 0) {hosts : List Host}
    (hrun : runMips depth (some s) hosts ≠ none) :
    (∀ n t, runMips depth (some s) (hosts.take n) = some t → t.gpr 0 = 0) ↔
      Guarded (attempt fun h => execMips h depth) (fun o _ => ∀ u ∈ o, KeepsZero depth u) (some s)
        hosts :=
  Clocked.invariant_iff_guarded (fun hu he => execMips_zero_iff hu he) h0 hrun

/-- A program at address 0, with all registers zero. -/
def loaded (program : List (BitVec 32)) : IssState where
  toIss := Iss.zeroed
  cpr1 _ := 0
  brk := false
  mem a := byte (program.getD (a.toNat / 4) 0) (3 - a.toNat % 4)

/-- `jal 16` with `addu $0, $0, $0` in its delay slot, and a NOP at its target. -/
def linkProgram : IssState := loaded [0x0c000004, 0x00000021]

theorem runMips_linkProgram :
    (runMips 2 (some linkProgram) [Host.modular, Host.modular]).isSome ∧
      ∀ n t, runMips 2 (some linkProgram) ([Host.modular, Host.modular].take n) = some t →
        t.gpr 0 = 0 := by
  have hrun : (runMips 2 (some linkProgram) [Host.modular, Host.modular]).isSome := by
    decide +kernel
  have hslot : (linkProgram.set 31 8).next.KeepsZero 1 := by
    have hf : (linkProgram.set 31 8).next.fetch = some 0x00000021 := by
      decide +kernel
    refine (keepsZero_succ hf).mpr fun _ => ?_
    change (0 : BitVec 32) = -0
    rfl
  have hjal : linkProgram.KeepsZero 2 := by
    have hf : linkProgram.fetch = some 0x0c000004 := by
      decide +kernel
    exact (keepsZero_succ hf).mpr hslot
  have hnop : ∀ u, linkProgram.execMips Host.modular 2 = some u → u.KeepsZero 2 := by
    intro u hu
    have hf : (linkProgram.execMips Host.modular 2).map (fun t => (t.fetch, t.gpr 0)) =
        some (some 0, 0) := by
      decide +kernel
    rw [hu, Option.map_some, Option.some.injEq, Prod.mk.injEq] at hf
    refine (keepsZero_succ hf.1).mpr fun _ => ?_
    change 2 ^ 32 ∣ (u.gpr 0).toNat
    rw [hf.2]
    exact dvd_zero _
  refine ⟨hrun, (runMips_zero_iff 2 rfl (Option.isSome_iff_ne_none.mp hrun)).mpr ⟨?_, hnop, trivial⟩⟩
  intro u hu
  obtain rfl := Option.some.inj hu
  exact hjal

/-- `addiu $0, $0, 1` makes register 0 one. -/
theorem not_runMips_zero : ¬∀ (depth : ℕ) (s : IssState) (hosts : List Host), s.gpr 0 = 0 →
    ∀ t, runMips depth (some s) hosts = some t → t.gpr 0 = 0 := by
  intro hall
  have he : (runMips 1 (some (loaded [0x24000001])) [Host.modular]).map (fun t => t.gpr 0) =
      some 1 := by
    decide +kernel
  obtain ⟨t, ht, h1⟩ := Option.map_eq_some_iff.mp he
  rw [hall 1 _ _ rfl t ht] at h1
  exact absurd h1 (by decide)

end IssState

end MipsCore
