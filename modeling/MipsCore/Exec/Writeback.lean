import MipsCore.Exec.Complete
import Mathlib.Data.Set.Function

/-! # The writeback ports

Each of the two completion ports serves several units.  The reservations leave a port
to one of them in every cycle, so that no result and no completion is lost to another.
-/
namespace MipsCore
namespace ExecUnit
open Latency
variable {ar : FpArith} {x : ExecUnit} {i : ExecIn}

/-! ## The integer port -/

/-- The units that want the first completion port in the cycle. -/
def intWritebacks (x : ExecUnit) (i : ExecIn) : ℕ :=
  (x.exec.startInt && (x.exec.alu i).aluValid).toNat + x.exec.mul2.complete.toNat +
    x.div.complete.toNat

theorem IntInv.writebacks_le (h : x.IntInv) : x.intWritebacks i ≤ 1 := by
  unfold intWritebacks
  cases hs : x.exec.startInt && (x.exec.alu i).aluValid with
  | true =>
    obtain ⟨hm, hd⟩ := startsAlu_free h hs
    simp [hm, hd]
  | false =>
    cases hm : x.exec.mul2.complete with
    | true =>
      have hd : x.div.complete = false := by
        rw [← Bool.not_eq_true, Divider.complete_iff]
        exact h.apart2 hm
      simp [hd]
    | false => simpa using Bool.toNat_le _

/-- A started operation finds the port free in the cycle in which it completes. -/
theorem intUnit_startsFree (ar : FpArith) : (intUnit ar).StartsFree IntInv := by
  intro x i k t t' h hst hp
  obtain ⟨hs, -, ⟨rfl, hm, hd⟩ | ⟨rfl, hm, -⟩ | ⟨rfl, -⟩⟩ := intStarts_iff.mp hst
  · exact h.latchedAlu hs hd hm ⟨t', hp⟩
  · exact h.latchedMul hs hm ⟨t', hp⟩
  · exact not_portTaken_of_le le_rfl ⟨t', hp⟩

/-- The cycles from issue to the completion port. -/
def intCycles (op : Opcode) : ℕ := if isMult op then 3 else if isDiv op then 36 else 0

/-- The cycle executes the latched operation: a flush withholds the multiplier and the divider. -/
def executes (x : ExecUnit) (i : ExecIn) : Bool :=
  x.exec.startInt && (!i.dsDone || !isMult x.exec.intUop.op && !isDiv x.exec.intUop.op)

theorem intStarts_iff_executes {k : ℕ} {t : RobPtr} :
    x.intStarts i k t ↔ x.executes i = true ∧ x.exec.intUop.robPtr = t ∧
      k = intCycles x.exec.intUop.op := by
  rw [intStarts_iff, executes, intCycles]
  cases x.exec.startInt with
  | false => simp
  | true =>
    cases hm : isMult x.exec.intUop.op with
    | true =>
      simp [isMult_isDiv hm]
      tauto
    | false =>
      cases isDiv x.exec.intUop.op <;> simp
      tauto

/-- The unit at the beginning of cycle `n` of a run from reset. -/
def cycle (ar : FpArith) (m : ExecInit) (st : BitVec 2 → FpuStage) (inputs : ℕ → ExecIn) (n : ℕ) :
    ExecUnit :=
  (intUnit ar).states (reset m st) inputs n

/-- The integer operations that a run executes, by cycle. -/
def executed (ar : FpArith) (m : ExecInit) (st : BitVec 2 → FpuStage) (inputs : ℕ → ExecIn) :
    Set ℕ :=
  {j | (cycle ar m st inputs j).executes (inputs j) = true}

/-- The pulses of the first completion port, by cycle. -/
def pulses (ar : FpArith) (m : ExecInit) (st : BitVec 2 → FpuStage) (inputs : ℕ → ExecIn) : Set ℕ :=
  {n | (cycle ar m st inputs n).exec.completeValid1 = true}

/-- The cycle in which the operation executed in cycle `j` is reported. -/
def reportedAt (ar : FpArith) (m : ExecInit) (st : BitVec 2 → FpuStage) (inputs : ℕ → ExecIn)
    (j : ℕ) : ℕ :=
  j + intCycles (cycle ar m st inputs j).exec.intUop.op + 1

/-- In every run no cycle has two users of the first port, and its pulses are, one to one, the
reports of the executed operations under their own entries. -/
theorem intPort_exact (ar : FpArith) (m : ExecInit) (st : BitVec 2 → FpuStage)
    (inputs : ℕ → ExecIn) :
    (∀ n, (cycle ar m st inputs n).intWritebacks (inputs n) ≤ 1) ∧
      (∀ j, (cycle ar m st inputs j).exec.startInt = true → (inputs j).dsDone = false →
        j ∈ executed ar m st inputs) ∧
      Set.BijOn (reportedAt ar m st inputs) (executed ar m st inputs) (pulses ar m st inputs) ∧
      ∀ j ∈ executed ar m st inputs,
        (cycle ar m st inputs (reportedAt ar m st inputs j)).exec.completeBundle1.robPtr =
          (cycle ar m st inputs j).exec.intUop.robPtr := by
  have hlaw := intUnit_lawful ar
  have hs := reset_intInv m st
  have h0 := reset_intPending m st
  have hiff := TimedUnit.completes_states hlaw hs h0 inputs
  have hstart : ∀ j k t, (intUnit ar).starts (cycle ar m st inputs j) (inputs j) k t ↔
      j ∈ executed ar m st inputs ∧ (cycle ar m st inputs j).exec.intUop.robPtr = t ∧
        j + k + 1 = reportedAt ar m st inputs j := by
    intro j k t
    refine Iff.trans intStarts_iff_executes (and_congr_right fun _ => and_congr_right fun _ => ?_)
    unfold reportedAt
    omega
  -- an executed operation is reported when it is due, under its own entry
  have hreport : ∀ j ∈ executed ar m st inputs,
      (intUnit ar).completes (cycle ar m st inputs (j + intCycles (cycle ar m st inputs j).exec.intUop.op))
        (inputs (j + intCycles (cycle ar m st inputs j).exec.intUop.op))
        (cycle ar m st inputs j).exec.intUop.robPtr := by
    intro j hj
    refine (hiff _ _).mpr ⟨j, Nat.le_add_right _ _, (hstart _ _ _).mpr ⟨hj, rfl, ?_⟩⟩
    unfold reportedAt
    omega
  refine ⟨fun n => (TimedUnit.states_inv hlaw hs inputs n).writebacks_le, ?_, ⟨?_, ?_, ?_⟩, ?_⟩
  · intro j hj hd
    simp [executed, executes, hj, hd]
  · intro j hj
    exact (hreport j hj).1
  · intro j hj j' hj' heq
    refine TimedUnit.starts_apart hlaw (intUnit_startsFree ar) hs h0
      ((hstart j (intCycles (cycle ar m st inputs j).exec.intUop.op) _).mpr ⟨hj, rfl, rfl⟩)
      ((hstart j' (intCycles (cycle ar m st inputs j').exec.intUop.op) _).mpr ⟨hj', rfl, rfl⟩) ?_
    unfold reportedAt at heq
    omega
  · intro n hn
    cases n with
    | zero => cases hn
    | succ n =>
      obtain ⟨j, hle, hj⟩ := (hiff n _).mp ⟨hn, rfl⟩
      obtain ⟨he, -, hat⟩ := (hstart j _ _).mp hj
      refine ⟨j, he, ?_⟩
      omega
  · intro j hj
    exact (hreport j hj).2

/-! ## The floating-point port -/

/-- What a unit writes through the floating-point port: a register, or a condition code register. -/
structure FpDelivery where
  robPtr : RobPtr
  data : Word
  fpr : Option PrfPtr := none
  fcr : Option HiloPtr := none

/-- The deliveries of the cycle, in the order in which `exec.sv` gives them the port. -/
def fpDeliveries (ar : FpArith) (x : ExecUnit) : List FpDelivery :=
  let o := x.fpu.issue ar x.exec
  let u := x.exec.fpUqHead
  (if o.wrPrf then [⟨u.robPtr, o.result, some u.dst, none⟩] else []) ++
    (if x.fpu.st0.resultValid then
      [⟨x.fpu.st0.robPtr, x.fpu.st0.y ar, some x.fpu.st0.dstPtr, none⟩] else []) ++
    (if x.fpu.st0.fcrValid then
      [⟨x.fpu.st0.robPtr, x.fpu.st0.y ar, none, some x.fpu.st0.fcrPtr⟩] else []) ++
    (if x.fpu.spDiv.valid then
      [⟨x.fpu.spDiv.robPtr,
        (ar.spDiv x.fpu.spDiv.isSqrt (lo32 x.fpu.spDiv.a) (lo32 x.fpu.spDiv.b)).setWidth 64,
        some x.fpu.spDiv.dstPtr, none⟩] else []) ++
    if x.fpu.dpDiv.valid then
      [⟨x.fpu.dpDiv.robPtr, ar.dpDiv x.fpu.dpDiv.isSqrt x.fpu.dpDiv.a x.fpu.dpDiv.b,
        some x.fpu.dpDiv.dstPtr, none⟩] else []

/-- The delivery reaches its register and is reported under its entry.  Memory has a write port of
its own, which a load to the same register would win. -/
structure Delivered (ar : FpArith) (x : ExecUnit) (i : ExecIn) (d : FpDelivery) : Prop where
  valid : (x.step ar i).exec.completeValid2 = true
  robPtr : (x.step ar i).exec.completeBundle2.robPtr = d.robPtr
  data : (x.step ar i).exec.completeBundle2.data = d.data
  fpr : ∀ p, d.fpr = some p → ¬(i.memRsp.fpDstValid = true ∧ i.memRsp.dstPtr = p) →
    (x.step ar i).exec.fpPrf p = d.data
  fcr : ∀ p, d.fcr = some p → (x.step ar i).exec.fcrPrf p = d.data.setWidth 8

/-- The users of the port exclude each other. -/
structure FpAlone (ar : FpArith) (x : ExecUnit) : Prop where
  move : (x.fpu.issue ar x.exec).wrPrf = true → x.fpu.st0.val = false ∧
    x.fpu.spDiv.valid = false ∧ x.fpu.dpDiv.valid = false
  spDiv : x.fpu.spDiv.valid = true → x.fpu.st0.val = false ∧ x.fpu.dpDiv.valid = false
  dpDiv : x.fpu.dpDiv.valid = true → x.fpu.st0.val = false

theorem FpInv.alone_port (h : x.FpInv) : x.FpAlone ar where
  move hw := by
    have hv : x.fpu.st0.val = false := by
      by_contra hv
      have hr := h.reserved0 (by simpa using hv)
      rw [((@Fpu.issue_ok ar x.fpu x.exec).move hw).2.1] at hr
      cases hr
    refine ⟨hv, ?_, ?_⟩
    · by_contra hs
      rw [(@valid_alone ar x h (Or.inl (by simpa using hs))).2.1] at hw
      cases hw
    · by_contra hd
      rw [(@valid_alone ar x h (Or.inr (by simpa using hd))).2.1] at hw
      cases hw
  spDiv hs := by
    obtain ⟨h0, -, hd⟩ := @valid_alone ar x h (Or.inl hs)
    exact ⟨h0, hd.resolve_left (by simp [hs])⟩
  dpDiv hd := (@valid_alone ar x h (Or.inr hd)).1

/-- A stage delivers a register or a condition code. -/
theorem st0_valid (s : FpuStage) : (s.resultValid && s.fcrValid) = false := by
  unfold FpuStage.resultValid FpuStage.fcrValid
  cases s.val with
  | false => rfl
  | true => cases s.opcode <;> rfl

/-- What the ports of the cycle carry, from the valid bits of the units. -/
theorem delivered_of {d : FpDelivery} (i : ExecIn)
    (hv : ((x.ins ar i).fpWrPrf || (x.ins ar i).fpuResultValid || (x.ins ar i).fpuFcrValid) = true)
    (hr : (x.exec.nCompleteBundle2 (x.ins ar i)).robPtr = d.robPtr)
    (hd : (x.exec.nCompleteBundle2 (x.ins ar i)).data = d.data)
    (hf : ∀ p, d.fpr = some p →
      (if (x.ins ar i).fpWrPrf then Function.update x.exec.fpPrf x.exec.fpUqHead.dst
          (x.ins ar i).fpMovResult
        else Ring.writeIf (x.ins ar i).fpuResultValid (x.ins ar i).fpuDstPtr (x.ins ar i).fpuResult
          x.exec.fpPrf) p = d.data)
    (hc : ∀ p, d.fcr = some p → (x.ins ar i).fpuFcrValid = true ∧ (x.ins ar i).fpuFcrPtr = p ∧
      (x.ins ar i).fpuResult = d.data) : x.Delivered ar i d where
  valid := hv
  robPtr := hr
  data := hd
  fpr p hp hm := by
    have hstep : (x.step ar i).exec.fpPrf = x.exec.nFpPrf (x.ins ar i) := rfl
    rw [hstep, Exec.nFpPrf, Ring.writeIf_apply, if_neg, hf p hp]
    rintro ⟨hval, rfl⟩
    exact hm ⟨hval, rfl⟩
  fcr p hp := by
    obtain ⟨hval, rfl, hres⟩ := hc p hp
    have hstep : (x.step ar i).exec.fcrPrf = Ring.writeIf (x.ins ar i).fpuFcrValid
        (x.ins ar i).fpuFcrPtr ((x.ins ar i).fpuResult.setWidth 8) x.exec.fcrPrf := rfl
    rw [hstep, Ring.writeIf_apply, if_pos ⟨hval, rfl⟩, hres]

/-- At most one unit uses the port, and then alone. -/
theorem FpInv.deliveries (h : x.FpInv) :
    x.fpDeliveries ar = [] ∨ ∃ d, x.fpDeliveries ar = [d] ∧ ∀ i, x.Delivered ar i d := by
  obtain ⟨hmove, hspd, hdpd⟩ := @FpInv.alone_port ar x h
  have hexcl := st0_valid x.fpu.st0
  have hoff : x.fpu.st0.val = false →
      x.fpu.st0.resultValid = false ∧ x.fpu.st0.fcrValid = false := by
    intro hv
    simp [FpuStage.resultValid, FpuStage.fcrValid, hv]
  cases hw : (x.fpu.issue ar x.exec).wrPrf with
  | true =>
    obtain ⟨h0, hs, hd⟩ := hmove hw
    obtain ⟨hr, hc⟩ := hoff h0
    refine Or.inr ⟨_, by simp [fpDeliveries, hw, hs, hd, hr, hc]; rfl, fun i => ?_⟩
    apply delivered_of <;>
      simp [ins, Fpu.drive, Exec.nCompleteBundle2, hw, hs, hd, hr, hc]
  | false =>
    cases hs : x.fpu.spDiv.valid with
    | true =>
      obtain ⟨h0, hd⟩ := hspd hs
      obtain ⟨hr, hc⟩ := hoff h0
      refine Or.inr ⟨_, by simp [fpDeliveries, hw, hs, hd, hr, hc]; rfl, fun i => ?_⟩
      apply delivered_of <;>
        simp [ins, Fpu.drive, Exec.nCompleteBundle2, Ring.writeIf, hw, hs, hd, hr, hc]
    | false =>
      cases hd : x.fpu.dpDiv.valid with
      | true =>
        obtain ⟨hr, hc⟩ := hoff (hdpd hd)
        refine Or.inr ⟨_, by simp [fpDeliveries, hw, hs, hd, hr, hc]; rfl, fun i => ?_⟩
        apply delivered_of <;>
          simp [ins, Fpu.drive, Exec.nCompleteBundle2, Ring.writeIf, hw, hs, hd, hr, hc]
      | false =>
        cases hr : x.fpu.st0.resultValid with
        | true =>
          have hc : x.fpu.st0.fcrValid = false := by simpa [hr] using hexcl
          refine Or.inr ⟨_, by simp [fpDeliveries, hw, hs, hd, hr, hc]; rfl, fun i => ?_⟩
          apply delivered_of <;>
            simp [ins, Fpu.drive, Exec.nCompleteBundle2, Ring.writeIf, hw, hs, hd, hr, hc]
        | false =>
          cases hc : x.fpu.st0.fcrValid with
          | true =>
            refine Or.inr ⟨_, by simp [fpDeliveries, hw, hs, hd, hr, hc]; rfl, fun i => ?_⟩
            apply delivered_of <;>
              simp [ins, Fpu.drive, Exec.nCompleteBundle2, Ring.writeIf, hw, hs, hd, hr, hc]
          | false => exact Or.inl (by simp [fpDeliveries, hw, hs, hd, hr, hc])

/-- In every run at most one unit uses the floating-point port in a cycle, so that each result is
written and reported. -/
theorem fpPort_exact (ar : FpArith) (m : ExecInit) (st : BitVec 2 → FpuStage)
    (inputs : List ExecIn) (i : ExecIn) :
    (fpDeliveries ar (Clocked.run (fun x i => x.step ar i) (reset m st) inputs)).length ≤ 1 ∧
      ∀ d ∈ fpDeliveries ar (Clocked.run (fun x i => x.step ar i) (reset m st) inputs),
        (Clocked.run (fun x i => x.step ar i) (reset m st) inputs).Delivered ar i d := by
  have hinv := @Clocked.run_invariant _ _ (fun x i => x.step ar i) _
    (fun x i (h : FpInv x) => step_fpInv h) _ (reset_fpInv m st) inputs
  rcases @FpInv.deliveries ar _ hinv with h | ⟨d, h, hd⟩
  · simp [h]
  · simpa [h] using hd i

end ExecUnit
end MipsCore
