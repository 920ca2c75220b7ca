import MipsCore.CacheLine
import MipsCore.Core.Signals
import MipsCore.Iss.Integer

/-! # Effective addresses

The address that a load or store sends to the data cache, a 64-bit sum over the
whole base register, against the interpreter's 32-bit `ea`.
-/
namespace MipsCore
open Clocked (Guarded run)

namespace Iss

/-- `ea`, as each load and store of the interpreter computes it. -/
def ea (s : Iss) (inst : BitVec 32) : BitVec 32 := s.gpr (rs inst) + simm32 inst

/-- The loads and stores: LB .. LWR, SB .. SWR, LL, SC and the FP accesses. -/
def AccessWord (w : BitVec 32) : Prop :=
  (opcode w).toNat ∈ [0x20, 0x21, 0x22, 0x23, 0x24, 0x25, 0x26, 0x28, 0x29, 0x2a, 0x2b, 0x2e, 0x30,
    0x31, 0x35, 0x38, 0x39, 0x3d]

instance (w : BitVec 32) : Decidable (AccessWord w) := inferInstanceAs (Decidable (_ ∈ _))

end Iss

open Iss (AccessWord)

/-! ## Sums -/

/-- What the sum of a base register and an offset carries out of its low half. -/
def carry (x : Word) (imm : BitVec 16) : ℤ := (x.toNat + imm.toInt) / 2 ^ 32 % 2 ^ 32

theorem toInt_half (imm : BitVec 16) :
    imm.toInt = if imm.toNat < 2 ^ 15 then (imm.toNat : ℤ) else imm.toNat - 2 ^ 16 := by
  rw [BitVec.toInt_eq_toNat_cond]
  split_ifs <;> omega

theorem toNat_signExtend_half (imm : BitVec 16) {w : ℕ} (hw : 16 < w) :
    (imm.signExtend w).toNat =
      if imm.toNat < 2 ^ 15 then imm.toNat else imm.toNat + (2 ^ w - 2 ^ 16) := by
  have hp : 2 ^ 16 ≤ 2 ^ w := Nat.pow_le_pow_right (by decide) hw.le
  have hlt := imm.isLt
  rw [BitVec.toNat_signExtend, BitVec.toNat_setWidth, BitVec.msb_eq_decide,
    Nat.mod_eq_of_lt (by omega)]
  split_ifs <;> simp_all
  omega

/-- The sum is the 32-bit address and what is carried out of it. -/
theorem toNat_sum (x : Word) (imm : BitVec 16) :
    ((x + imm.signExtend 64).toNat : ℤ) =
      (lo32 x + imm.signExtend 32).toNat + carry x imm * 2 ^ 32 := by
  have hx := x.isLt
  have hi := imm.isLt
  rw [BitVec.toNat_add, BitVec.toNat_add, toNat_signExtend_half imm (by decide),
    toNat_signExtend_half imm (by decide), lo32_eq, BitVec.toNat_setWidth, carry, toInt_half]
  split_ifs <;> omega

/-- A register that holds a 32-bit value carries nothing when the sum is a 32-bit value. -/
theorem carry_setWidth (x : BitVec 32) (imm : BitVec 16) :
    carry (x.setWidth 64) imm = 0 ↔ 0 ≤ x.toNat + imm.toInt ∧ x.toNat + imm.toInt < 2 ^ 32 := by
  have hx := x.isLt
  have hi := imm.isLt
  rw [carry, BitVec.toNat_setWidth, Nat.mod_eq_of_lt (by omega), toInt_half]
  split_ifs <;> omega

/-! ## The head of the memory queue -/

/-- The memory unit has the decoded uop `u` at its head, with the base register of `v`. -/
structure Addresses (v : RegView) (u : Uop) (e : Exec) : Prop where
  op : e.memUqHead.op = u.op
  imm : e.memUqHead.imm = u.imm
  srcA : u.srcAValid = true → u.fpSrcAValid = false →
    e.intPrf e.memUqHead.srcA = v.gpr (u.srcA.setWidth 5)

namespace Core
variable (s : Core) (c : Comb) (e : Exec)

theorem addresses_tAllocUop (hu : e.memUqHead = s.tAllocUop c) :
    Addresses (s.view e) s.tUop e := by
  obtain ⟨p, h, d, heq⟩ := tAllocUop_eq s c
  replace heq := hu.trans heq
  constructor <;> simp only [heq, view]
  case srcA => intro h1 h2; rw [h1, h2, renameSrc_gpr]

theorem addresses_tAllocUop2 (hu : e.memUqHead = s.tAllocUop2 c) :
    Addresses (s.view2 e) s.tUop2 e := by
  obtain ⟨p, h, d, heq⟩ := tAllocUop2_eq s c
  replace heq := hu.trans heq
  constructor <;> simp only [heq, view2]
  case srcA => intro h1 h2; rw [h1, h2, renameSrc2_gpr]

end Core

/-- The operations of the memory queue that are no accesses. -/
def movesOnly : Opcode → Bool
  | .SYNC | .MFC1_MERGE | .MTC1_MERGE => true
  | _ => false

/-- Every arm of the decoder for a load or a store keeps the offset and the base register. -/
theorem decode_access {m : Bool} {f : InsnFetch} (hw : AccessWord f.data) :
    Core.folds (decodeMips32 m f) = true ∨
      movesOnly (decodeMips32 m f).op = false ∧
        (decodeMips32 m f).imm = f.data.extractLsb' 0 16 ∧
          (decodeMips32 m f).srcA = (Iss.rs f.data).setWidth 6 ∧
            (decodeMips32 m f).srcAValid = true ∧ (decodeMips32 m f).fpSrcAValid = false := by
  simp only [AccessWord, List.mem_cons, List.not_mem_nil, or_false] at hw
  rcases hw with hw | hw | hw | hw | hw | hw | hw | hw | hw | hw | hw | hw | hw | hw | hw | hw |
    hw | hw <;> have hw' : (Decode.opcode f.data).toNat = _ := hw <;>
    simp only [decodeMips32, Decode.majorOp, hw'] <;> (try split_ifs) <;>
    first
    | exact .inr ⟨rfl, rfl, rfl, rfl, rfl⟩
    | exact .inr ⟨rfl, rfl, rfl, trivial, trivial⟩
    | exact .inl rfl

namespace Exec
variable {e : Exec}

theorem memIssue_ready {busy : Bool} {r : MemReq} (h : (e.memIssue busy r).srcsRdy = true) :
    e.memIssue busy r = { srcsRdy := true, tail := r } := by
  unfold memIssue at h ⊢
  split_ifs at h ⊢
  rfl

/-- What issues at the head is a move, or an access at the sum of its base and its offset. -/
theorem headIssue_addr (hi : e.headIssue.srcsRdy = true) :
    movesOnly e.memUqHead.op = true ∨ e.headIssue.tail.addr = e.tMemAddr := by
  unfold headIssue at hi ⊢
  split at hi <;> rename_i hop
  case h_21 => cases hi
  all_goals
    first
      | exact .inl (by rw [hop]; rfl)
      | exact .inr (congrArg (fun r => r.tail.addr) (memIssue_ready hi))

theorem headIssue_folds (hf : Core.folds e.memUqHead = true) : e.headIssue.srcsRdy = false := by
  simp only [Core.folds, Bool.or_eq_true, beq_iff_eq] at hf
  rcases hf with ((h | h) | h) | h <;> simp only [headIssue, h]

end Exec

/-! ## Addresses that are sent -/

/-- A load or store issues on registers that the interpreter's state agrees with. -/
structure Sends (m : Bool) (f : InsnFetch) (v : RegView) (e : Exec) (s : Iss) : Prop where
  head : Addresses v (decodeMips32 m f) e
  word : AccessWord f.data
  issues : e.headIssue.srcsRdy = true
  base : lo32 (v.gpr (Iss.rs f.data)) = s.gpr (Iss.rs f.data)

/-- The base register and the offset of a word. -/
def carryOf (v : RegView) (w : BitVec 32) : ℤ := carry (v.gpr (Iss.rs w)) (w.extractLsb' 0 16)

section Sends
variable {m m' : Bool} {f f' : InsnFetch} {v v' : RegView} {e e' : Exec} {s s' : Iss}

theorem Sends.addr_eq (h : Sends m f v e s) :
    e.intPrf e.memUqHead.srcA = v.gpr (Iss.rs f.data) ∧
      e.headIssue.tail.addr =
        v.gpr (Iss.rs f.data) + (f.data.extractLsb' 0 16).signExtend 64 := by
  have hop := h.head.op
  obtain hfold | ⟨hmove, himm, hsrc, hval, hfp⟩ := decode_access (m := m) h.word
  · have hno := Exec.headIssue_folds (e := e) (by rw [Core.folds, hop]; exact hfold)
    rw [h.issues] at hno
    cases hno
  · rcases Exec.headIssue_addr h.issues with hm | ha
    · rw [hop, hmove] at hm
      cases hm
    · have hA := h.head.srcA hval hfp
      rw [hsrc, setWidth_setWidth_archReg] at hA
      exact ⟨hA, by rw [ha, Exec.tMemAddr, h.head.imm, himm, hA]⟩

/-- The address that is sent is the interpreter's, and above it what the sum carries. -/
theorem Sends.toNat_addr (h : Sends m f v e s) :
    (e.headIssue.tail.addr.toNat : ℤ) = (s.ea f.data).toNat + carryOf v f.data * 2 ^ 32 := by
  rw [h.addr_eq.2, toNat_sum, h.base]
  rfl

/-- The address of a load or store is the interpreter's exactly when its sum carries nothing, and
two accesses to one interpreter's address go to one line exactly when their sums carry the same. -/
theorem address_wraps_iff (h : Sends m f v e s) (h' : Sends m' f' v' e' s') :
    (e.headIssue.tail.addr = (s.ea f.data).setWidth 64 ↔ carryOf v f.data = 0) ∧
      (s.ea f.data = s'.ea f'.data →
        (setOf e.headIssue.tail.addr = setOf e'.headIssue.tail.addr ∧
            tagOf e.headIssue.tail.addr = tagOf e'.headIssue.tail.addr ↔
          carryOf v f.data = carryOf v' f'.data)) := by
  have ha := h.toNat_addr
  have ha' := h'.toNat_addr
  have hea := (s.ea f.data).isLt
  refine ⟨?_, fun heq => ?_⟩
  · rw [← BitVec.toNat_inj, BitVec.toNat_setWidth, Nat.mod_eq_of_lt (by omega)]
    omega
  · rw [← heq] at ha'
    constructor
    · rintro ⟨hs, ht⟩
      have hline := congrArg BitVec.toNat ht
      rw [tagOf_toNat, tagOf_toNat] at hline
      omega
    · intro hc
      have haddr : e.headIssue.tail.addr = e'.headIssue.tail.addr := by
        refine BitVec.eq_of_toNat_eq ?_
        rw [hc] at ha
        omega
      exact ⟨by rw [haddr], by rw [haddr]⟩

end Sends

/-! ## Registers in 32-bit mode -/

namespace Exec
variable {e : Exec} {i : ExecIn}

/-- Every register holds a 32-bit value. -/
def ZeroExtended (prf : PrfPtr → Word) : Prop := ∀ p, (lo32 (prf p)).setWidth 64 = prf p

theorem ZeroExtended.update {prf : PrfPtr → Word} (h : ZeroExtended prf) (p : PrfPtr) {x : Word}
    (hx : (lo32 x).setWidth 64 = x) : ZeroExtended (Function.update prf p x) := by
  intro q
  by_cases hq : q = p
  · rw [hq, Function.update_self, hx]
  · rw [Function.update_of_ne hq, h q]

theorem narrow_zeroExtended (x : Word) : (lo32 (narrow true x)).setWidth 64 = narrow true x := by
  rw [lo32_narrow]
  rfl

/-- Every write port extends with zeros in 32-bit mode. -/
theorem step_zeroExtended (h32 : e.in32bMode = true) (h : ZeroExtended e.intPrf) :
    ZeroExtended (e.step i).intPrf := by
  change ZeroExtended (e.nIntPrf i)
  have hfirst : ZeroExtended (if e.wrInt i then
      Function.update e.intPrf e.intUop.dst (narrow e.in32bMode (e.alu i).result)
    else if e.mul2.gprVal then
      Function.update e.intPrf e.mul2.gprPtr
        (if e.in32bMode then (lo32 e.tMulResult).setWidth 64 else (lo32 e.tMulResult).signExtend 64)
    else e.intPrf) := by
    split_ifs
    · rw [h32]
      exact h.update _ (narrow_zeroExtended _)
    · exact h.update _ (by rw [lo32_setWidth])
    · exact h
  unfold nIntPrf
  simp only
  generalize (if e.wrInt i then _ else _ : PrfPtr → Word) = prf at hfirst ⊢
  split_ifs
  · rw [h32]
    exact hfirst.update _ (narrow_zeroExtended _)
  · exact hfirst.update _ rfl
  · exact hfirst

theorem run_zeroExtended (m : ExecInit) (inputs : List ExecIn)
    (h : Guarded step (fun e _ => e.in32bMode = true) (reset m) inputs) :
    ZeroExtended (run step (reset m) inputs).intPrf := by
  have hstep : ∀ e i, ZeroExtended e.intPrf → e.in32bMode = true →
      ZeroExtended (step e i).intPrf := fun e i he h32 => step_zeroExtended h32 he
  exact Guarded.invariant hstep h fun p => rfl

end Exec

/-- In a run in 32-bit mode nothing is carried when the interpreter's sum is a 32-bit value. -/
theorem run_carryOf_iff {m : ExecInit} {inputs : List ExecIn}
    (hg : Guarded Exec.step (fun e _ => e.in32bMode = true) (Exec.reset m) inputs)
    {b : Bool} {f : InsnFetch} {v : RegView} {s : Iss}
    (h : Sends b f v (run Exec.step (Exec.reset m) inputs) s) :
    carryOf v f.data = 0 ↔
      0 ≤ (s.gpr (Iss.rs f.data)).toNat + (f.data.extractLsb' 0 16).toInt ∧
        (s.gpr (Iss.rs f.data)).toNat + (f.data.extractLsb' 0 16).toInt < 2 ^ 32 := by
  have hz := Exec.run_zeroExtended m inputs hg
    (run Exec.step (Exec.reset m) inputs).memUqHead.srcA
  rw [h.addr_eq.1, h.base] at hz
  rw [carryOf, ← hz]
  exact carry_setWidth _ _

/-! ## Accesses around zero -/

/-- A load at the head of the memory queue, one cycle after reset. -/
def loaded (w : BitVec 32) : Exec :=
  run Exec.step (Exec.reset {}) [{ uqPush := true, uqUop := decodeMips32 false { data := w } }]

/-- Registers that are all zero. -/
def Iss.zeroed : Iss where
  pc := 0
  gpr _ := 0
  lo := 0
  hi := 0
  cpr0 := fun _ => 0
  fcr25 := 0

theorem zeroed_addresses {w : BitVec 32} (hop : (loaded w).memUqHead = decodeMips32 false { data := w }) :
    Addresses Iss.zeroed.view (decodeMips32 false { data := w }) (loaded w) where
  op := by rw [hop]
  imm := by rw [hop]
  srcA _ _ := rfl

/-- `lw $1, 4($0)` twice. -/
theorem address_wraps_lw :
    (loaded 0x8c010004).headIssue.tail.addr = (Iss.zeroed.ea 0x8c010004).setWidth 64 := by
  have h : Sends false { data := 0x8c010004 } Iss.zeroed.view (loaded 0x8c010004) Iss.zeroed :=
    ⟨zeroed_addresses (by decide +kernel), by decide, by decide +kernel, rfl⟩
  exact (address_wraps_iff h h).1.mpr (by decide)

/-- `lw $1, -4($0)` borrows, and is sent to the top of the 64-bit space. -/
theorem exists_not_wraps :
    ¬∀ (m : Bool) (f : InsnFetch) (v : RegView) (inputs : List ExecIn) (s : Iss),
      let e := run Exec.step (Exec.reset {}) inputs
      Sends m f v e s → e.in32bMode = true →
        e.headIssue.tail.addr = (s.ea f.data).setWidth 64 := by
  intro h
  have hs : Sends false { data := 0x8c01fffc } Iss.zeroed.view (loaded 0x8c01fffc) Iss.zeroed :=
    ⟨zeroed_addresses (by decide +kernel), by decide, by decide +kernel, rfl⟩
  exact absurd (h _ _ _ _ _ hs (by decide +kernel)) (by decide +kernel)

end MipsCore
