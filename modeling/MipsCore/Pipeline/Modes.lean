import MipsCore.Pipeline.Flow

/-! # The mode bits and the status register

The two mode registers follow bits 5 and 26 of the status register.  The source
gates the write of the status register by `r_start_int`, but not the mode
registers, so a stale MTC0 that the scheduler latches again can move them alone.
-/
namespace MipsCore

namespace Alu
variable (a : AluIn)

/-- MTC0 to the status register. -/
def isMtc0Status : Bool := a.uop.op == .MTC0 && a.uop.dst.setWidth 5 == 12#5

theorem run_modes (h : isMtc0Status a = false) :
    (run a).nIn32bMode = a.in32bMode ∧ (run a).nIn32fpRegMode = a.in32fpRegMode := by
  cases hop : a.uop.op with
  | SYSCALL =>
    simp only [run, hop, syscall]
    split_ifs <;> exact ⟨rfl, rfl⟩
  | MTC0 =>
    have hd : a.uop.dst.setWidth 5 ≠ 12#5 := by simpa [isMtc0Status, hop] using h
    simp only [run, hop, moveToCpr0, if_neg hd]
    exact ⟨rfl, rfl⟩
  | _ => simp only [run, hop]; exact ⟨rfl, rfl⟩

theorem run_mtc0Status (h : isMtc0Status a = true) :
    (run a).nIn32bMode = (!a.srcA.getLsbD 5) ∧ (run a).nIn32fpRegMode = a.srcA.getLsbD 26 ∧
      (run a).wrCpr0 = true ∧ (run a).dstCpr0 = 12 ∧ (run a).cpr0Result = a.srcA := by
  simp only [isMtc0Status, Bool.and_eq_true, beq_iff_eq] at h
  simp [run, h.1, moveToCpr0, h.2, done, default]

/-- Only MTC0, DI and EI write a CPR0 register. -/
theorem run_wrCpr0 (h : (run a).wrCpr0 = true) :
    a.uop.op = .MTC0 ∧ (run a).dstCpr0 = a.uop.dst.setWidth 5 ∨
      (a.uop.op = .DI ∨ a.uop.op = .EI) ∧ ∃ on,
        (run a).cpr0Result = a.cpr0SrcA.extractLsb' 1 63 ++ BitVec.ofBool on := by
  cases hop : a.uop.op with
  | MTC0 =>
    refine Or.inl ⟨rfl, ?_⟩
    simp only [run, hop, moveToCpr0]
    split_ifs <;> rfl
  | DI => exact Or.inr ⟨Or.inl rfl, false, by simp [run, hop, setInterrupts]⟩
  | EI => exact Or.inr ⟨Or.inr rfl, true, by simp [run, hop, setInterrupts]⟩
  | SYSCALL =>
    simp only [run, hop, syscall] at h
    split_ifs at h <;> cases h
  | _ =>
    simp only [run, hop] at h
    cases h

end Alu

namespace Exec
variable {e : Exec} {i : ExecIn}

/-- The mode registers agree with the status register. -/
def Coherent (e : Exec) : Prop :=
  e.in32fpRegMode = e.cpr0StatusReg.getLsbD 26 ∧ e.in32bMode = !e.cpr0StatusReg.getLsbD 5

/-- A latched MTC0 to the status register that is not issued reads an operand with the mode bits
of the status register. -/
def StaleAgrees (e : Exec) : Prop :=
  e.startInt = false → e.intUop.op = .MTC0 → e.intUop.dst.setWidth 5 = 12#5 →
    (e.tSrc e.intUop.srcA).getLsbD 26 = e.cpr0StatusReg.getLsbD 26 ∧
      (e.tSrc e.intUop.srcA).getLsbD 5 = e.cpr0StatusReg.getLsbD 5

theorem extractLsb'_append_getLsbD (w : Word) (on : Bool) (k : ℕ) (hk : 0 < k) :
    (w.extractLsb' 1 63 ++ BitVec.ofBool on).getLsbD k = w.getLsbD k := by
  rw [BitVec.getLsbD_append]
  by_cases h : k < 64
  · simp [show ¬k < 1 by omega, show k - 1 < 63 by omega, show 1 + (k - 1) = k by omega]
  · simp [show ¬k < 1 by omega, show ¬k - 1 < 63 by omega,
      BitVec.getLsbD_of_ge w k (by omega)]

/-- A cycle keeps the modes coherent exactly when no stale MTC0 disagrees. -/
theorem coherent_step (hs : e.cpr0 12 = e.cpr0StatusReg)
    (hr : e.startInt = true → e.intUop.op = .DI ∨ e.intUop.op = .EI → e.intUop.srcA = 12)
    (hc : e.Coherent) : (e.step i).Coherent ↔ e.StaleAgrees := by
  have h1 : (e.step i).in32bMode = (e.alu i).nIn32bMode := rfl
  have h2 : (e.step i).in32fpRegMode = (e.alu i).nIn32fpRegMode := rfl
  have h3 : (e.step i).cpr0StatusReg = e.nCpr0StatusReg i := rfl
  unfold Coherent
  rw [h1, h2, h3]
  cases hm : Alu.isMtc0Status (e.aluIn i) with
  | true =>
    obtain ⟨m1, m2, m3, m4, m5⟩ := Alu.run_mtc0Status _ hm
    have hop : e.intUop.op = .MTC0 ∧ e.intUop.dst.setWidth 5 = 12#5 := by
      simp only [Alu.isMtc0Status, Bool.and_eq_true, beq_iff_eq] at hm
      exact hm
    have hsrc : (e.aluIn i).srcA = e.tSrc e.intUop.srcA := rfl
    rw [alu, m1, m2, nCpr0StatusReg, wrCpr0, alu, m3, m4, m5, hsrc]
    cases hi : e.startInt with
    | true => simp [StaleAgrees, hi]
    | false => simp [StaleAgrees, hi, hop]
  | false =>
    obtain ⟨m1, m2⟩ := Alu.run_modes _ hm
    have hstale : e.StaleAgrees := by
      intro _ hop hdst
      simp [Alu.isMtc0Status, aluIn, hop, hdst] at hm
    rw [alu, m1, m2]
    refine iff_of_true ?_ hstale
    change e.in32fpRegMode = _ ∧ e.in32bMode = _
    rw [nCpr0StatusReg]
    split_ifs with hw
    · simp only [wrCpr0, Bool.and_eq_true, beq_iff_eq] at hw
      obtain ⟨⟨hi, hw⟩, hd⟩ := hw
      rcases Alu.run_wrCpr0 _ hw with ⟨hop, hdst⟩ | ⟨hop, on, hres⟩
      · rw [alu, hdst] at hd
        simp [Alu.isMtc0Status, hop, hd] at hm
      · have hsrc : (e.aluIn i).cpr0SrcA = e.cpr0StatusReg := by
          change e.cpr0 (e.intUop.srcA.setWidth 5) = _
          rw [hr hi hop]
          exact hs
        rw [alu, hres, hsrc, extractLsb'_append_getLsbD _ _ _ (by omega),
          extractLsb'_append_getLsbD _ _ _ (by omega)]
        exact hc
    · exact hc

/-- Only an issued MTC0 to the status register moves the modes in this cycle. -/
def MovesIssued (e : Exec) (i : ExecIn) : Prop :=
  (e.startInt && Alu.isMtc0Status (e.aluIn i)) = false →
    (e.step i).in32bMode = e.in32bMode ∧ (e.step i).in32fpRegMode = e.in32fpRegMode

theorem movesIssued (hc : e.Coherent) (hg : e.StaleAgrees) : e.MovesIssued i := by
  intro h
  change (e.alu i).nIn32bMode = _ ∧ (e.alu i).nIn32fpRegMode = _
  cases hm : Alu.isMtc0Status (e.aluIn i) with
  | false => exact Alu.run_modes _ hm
  | true =>
    obtain ⟨m1, m2, -⟩ := Alu.run_mtc0Status _ hm
    rw [hm, Bool.and_true] at h
    simp only [Alu.isMtc0Status, Bool.and_eq_true, beq_iff_eq] at hm
    obtain ⟨h26, h5⟩ := hg h hm.1 hm.2
    rw [alu, m1, m2, hc.1, hc.2, ← h26, ← h5]
    exact ⟨rfl, rfl⟩

theorem step_cpr0Status (hs : e.cpr0 12 = e.cpr0StatusReg) (hx : i.exceptionWrCpr0Ptr ≠ 12) :
    (e.step i).cpr0 12 = (e.step i).cpr0StatusReg := by
  change e.nCpr0 i 12 = e.nCpr0StatusReg i
  unfold nCpr0 nCpr0StatusReg Ring.writeIf
  cases e.wrCpr0 i with
  | true =>
    simp only [Bool.true_and, ↓reduceIte, beq_iff_eq]
    by_cases hd : (e.alu i).dstCpr0 = 12
    · rw [if_pos hd, hd, Function.update_self]
    · rw [if_neg hd, Function.update_of_ne (Ne.symm hd), hs]
  | false =>
    simp only [Bool.false_and, Bool.false_eq_true, ↓reduceIte]
    split_ifs
    · rw [Function.update_of_ne (by decide), hs]
    · rw [Function.update_of_ne hx.symm, hs]
    · exact hs

end Exec

namespace Pipeline
open MipsCore.Core Exec Clocked
variable {p : Pipeline} {i : PipelineIn}

/-- The source of DI and EI in flight. -/
def StatusSrc (u : Uop) : Prop := u.op = .DI ∨ u.op = .EI → u.srcA = 12

theorem tAllocUop_op (s : Core) (c : Comb) :
    (s.tAllocUop c).op = s.tUop.op ∧
      (s.tAllocUop c).srcA = s.renameSrc s.tUop.srcAValid s.tUop.fpSrcAValid s.tUop.srcA := by
  unfold tAllocUop
  dsimp only
  cases c.tAlloc with
  | false => exact ⟨rfl, rfl⟩
  | true =>
    cases s.tUop.dstValid <;> cases s.tUop.hiloDstValid <;> cases s.tUop.fcrDstValid <;>
      cases s.tUop.fpDstValid <;> exact ⟨rfl, rfl⟩

theorem tAllocUop2_op (s : Core) (c : Comb) :
    (s.tAllocUop2 c).op = s.tUop2.op ∧
      (s.tAllocUop2 c).srcA = s.renameSrc2 s.tUop2.srcAValid s.tUop2.fpSrcAValid s.tUop2.srcA := by
  unfold tAllocUop2
  dsimp only
  cases c.tAllocTwo with
  | false => exact ⟨rfl, rfl⟩
  | true =>
    cases s.tUop2.dstValid <;> cases s.tUop2.hiloDstValid <;> cases s.tUop2.fcrDstValid <;>
      cases s.tUop2.fpDstValid <;> exact ⟨rfl, rfl⟩

structure ModeInv (p : Pipeline) : Prop where
  flow : Flow ReadsStatus StatusSrc p
  status : p.exec.cpr0 12 = p.exec.cpr0StatusReg

theorem reset_modeInv (rob : RobPtr → RobEntry) (dq : BitVec 2 → Uop) (m : ExecInit) :
    (reset rob dq m).ModeInv :=
  ⟨reset_flow _ _ rob dq m, rfl⟩

theorem step_modeInv (h : p.ModeInv) : (p.step i).ModeInv := by
  refine ⟨step_flow decode_readsStatus h.flow ?_ ?_, step_cpr0Status h.status ?_⟩
  · intro _ hu hop
    obtain ⟨ho, hs⟩ := tAllocUop_op p.core (p.comb i)
    obtain ⟨ha, hv, hf⟩ := hu (ho ▸ hop)
    rw [hs, renameSrc, hv, hf]
    exact ha
  · intro _ hu hop
    obtain ⟨ho, hs⟩ := tAllocUop2_op p.core (p.comb i)
    obtain ⟨ha, hv, hf⟩ := hu (ho ▸ hop)
    rw [hs, renameSrc2, hv, hf]
    exact ha
  · change (p.core.comb _).tExceptionWrCpr0Ptr ≠ 12
    rw [comb_cpr0Ptr]
    exact exceptionPtr_ne _

theorem reset_coherent (rob : RobPtr → RobEntry) (dq : BitVec 2 → Uop) (m : ExecInit) :
    (reset rob dq m).exec.Coherent := by
  refine ⟨?_, ?_⟩
  · change false = statusReset.getLsbD 26
    decide
  · change true = !statusReset.getLsbD 5
    decide

/-- In every run from reset the modes agree with the status register, and move only as an MTC0 to
it is issued, exactly when no MTC0 is latched again with an operand that disagrees. -/
theorem guarded_coherent_iff (rob : RobPtr → RobEntry) (dq : BitVec 2 → Uop) (m : ExecInit)
    (inputs : List PipelineIn) :
    Guarded step (fun p i => (p.step i).exec.Coherent ∧
        p.exec.MovesIssued (p.execIn i (p.comb i))) (reset rob dq m) inputs ↔
      Guarded step (fun p _ => p.exec.StaleAgrees) (reset rob dq m) inputs := by
  have hcoh : ∀ (p : Pipeline) (i : PipelineIn), p.ModeInv ∧ p.exec.Coherent →
      ((p.step i).exec.Coherent ↔ p.exec.StaleAgrees) := fun p i h =>
    coherent_step h.1.status (fun hs hop => h.1.flow.flight.issued hs hop) h.2
  refine @guarded_iff _ _ step _ (fun p => p.ModeInv ∧ p.exec.Coherent) _ (fun p i h hg => ?_)
    (fun p i h => ?_) _ ⟨reset_modeInv rob dq m, reset_coherent rob dq m⟩ inputs
  · exact ⟨step_modeInv h.1, (hcoh p i h).mpr hg⟩
  · exact ⟨fun hgoal => (hcoh p i h).mp hgoal.1,
      fun hg => ⟨(hcoh p i h).mpr hg, movesIssued h.2 hg⟩⟩

/-! ## A stale MTC0 whose register is handed out again -/

def fetch (w : BitVec 32) : PipelineIn := { insnValid := true, insn := { data := w } }
def idle (n : ℕ) : List PipelineIn := List.replicate n {}

/-- Fetch a load; the memory system takes the request and answers in the next cycle. -/
def load (insn : BitVec 32) (dst : PrfPtr) (rob : RobPtr) (w : Word) : List PipelineIn :=
  fetch insn :: idle 3 ++ [{ coreMemReqAck := true },
    { coreMemRspValid := true
      coreMemRsp := { op := .LW, dstPtr := dst, dstValid := true, robPtr := rob, data := w } }]

/-- `lui $1, 0`, `mtc0 $1, $12` and its restart, then two loads: the first releases the operand of
the MTC0, the second is given it and writes bit 26. -/
def staleMtc0Run : List PipelineIn :=
  [{ resume := true }, { restartAck := true }, fetch 0x3c010000#32, fetch 0x40816000#32] ++
    idle 8 ++ [{ restartAck := true }] ++ idle 3 ++ load 0x8c010000#32 60 2 0 ++ idle 2 ++
    load 0x8c020000#32 62 3 0x4000000 ++ idle 1

/-- The MTC0 in the scheduler turns the register mode on long after it issued. -/
theorem exists_not_coherent :
    ¬∀ (rob : RobPtr → RobEntry) (dq : BitVec 2 → Uop) (m : ExecInit) (inputs : List PipelineIn),
      (run step (reset rob dq m) inputs).exec.Coherent := by
  intro h
  have hs := h (fun _ => {}) (fun _ => {}) {} staleMtc0Run
  have hbad : ∀ p : Pipeline, p.exec.Coherent →
      (p.exec.in32fpRegMode && !p.exec.cpr0StatusReg.getLsbD 26) = false := by
    intro p hp
    rw [hp.1]
    exact Bool.and_not_self _
  refine Bool.false_ne_true ((hbad _ hs).symm.trans ?_)
  rw [step_eq_stepEval]
  decide +kernel

end Pipeline
end MipsCore
