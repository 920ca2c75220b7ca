import MipsCore.Exec.Divider
import MipsCore.Exec.Fpu
import MipsCore.Exec.Queues
import MipsCore.Lib.Latency

/-! # Completion of the operations of the execution unit

The execution unit with its dividers and its floating-point pipeline.  The writeback
reservations keep the operations of a completion port apart, so every operation that
the port's units start completes exactly once.
-/
namespace MipsCore

structure ExecUnit where
  exec : Exec
  div : Divider
  fpu : Fpu

namespace ExecUnit
open Latency
variable (ar : FpArith) (x : ExecUnit) (i : ExecIn)

/-- Reset clears the valid bits of the pipeline's stages and nothing else of them. -/
def reset (m : ExecInit) (st : BitVec 2 → FpuStage) : ExecUnit where
  exec := Exec.reset m
  div := {}
  fpu :=
    { st0 := { st 0 with val := false }, st1 := { st 1 with val := false },
      st2 := { st 2 with val := false }, st3 := { st 3 with val := false } }

def startDiv : Bool := (x.exec.alu i).startDiv32

/-- What the execution unit reads: its own units drive their results. -/
def ins : ExecIn :=
  { x.fpu.drive ar x.exec i with
    divReady := x.div.ready (x.startDiv i)
    divComplete := x.div.complete
    divRobPtr := x.div.robPtr
    divHiloPtr := x.div.hiloPtr
    divResult := x.div.Y }

/-- One cycle of the execution unit with its dividers. -/
def step : ExecUnit where
  exec := x.exec.step (x.ins ar i)
  div :=
    x.div.step (x.startDiv i) (x.exec.intUop.op == .DIV) (lo32 (x.exec.tSrc x.exec.intUop.srcA))
      (lo32 (x.exec.tSrc x.exec.intUop.srcB)) x.exec.intUop.robPtr x.exec.intUop.hiloDst
  fpu := x.fpu.step ar x.exec i

end ExecUnit

/-! ## Integer unit -/

namespace Alu
variable {a : AluIn}

/-- The unit that an operation goes to, as the scheduler sees it. -/
theorem run_route :
    (run a).startMul = (isMult a.uop.op && a.starts) ∧
      (run a).startDiv32 = (isDiv a.uop.op && a.starts) ∧
      (run a).aluValid = (!isMult a.uop.op && !isDiv a.uop.op) := by
  cases hop : a.uop.op with
  | SYSCALL =>
    simp only [run, hop, syscall]
    split_ifs <;> exact ⟨rfl, rfl, rfl⟩
  | MTC0 =>
    simp only [run, hop, moveToCpr0]
    split_ifs <;> exact ⟨rfl, rfl, rfl⟩
  | _ => simp only [run, hop]; exact ⟨rfl, rfl, rfl⟩

end Alu

namespace Divider
variable {d : Divider}

/-- The cycles until the divider completes. -/
def remaining (d : Divider) : Option ℕ :=
  match d.state with
  | .IDLE => none
  | .INPUT_SIGN => some 35
  | .DIVIDE => some (d.idx.toNat + 3)
  | .PACK_OUTPUT => some 2
  | .OUTPUT_SIGN => some 1
  | .WAIT_FOR_WB => some 0

theorem remaining_lt {k : ℕ} (h : d.remaining = some k) : k < 36 := by
  have hi := d.idx.isLt
  unfold remaining at h
  cases hs : d.state <;> simp only [hs, Option.some.injEq, reduceCtorEq] at h <;> omega

theorem complete_iff : d.complete = true ↔ d.remaining = some 0 := by
  unfold complete remaining
  cases d.state <;> simp

/-- The divider comes one cycle closer, or starts. -/
theorem step_remaining (st sg : Bool) (a b : BitVec 32) (r : RobPtr) (hp : HiloPtr) (k : ℕ)
    (t : RobPtr) :
    ((d.step st sg a b r hp).remaining = some k ∧ (d.step st sg a b r hp).robPtr = t) ↔
      (d.remaining = some (k + 1) ∧ d.robPtr = t) ∨
        (d.state = .IDLE ∧ st = true ∧ k = 35 ∧ r = t) := by
  unfold step remaining
  cases hs : d.state with
  | IDLE => cases st <;> simp [hs, eq_comm]
  | INPUT_SIGN =>
    simp
    omega
  | DIVIDE =>
    by_cases hi : d.idx = 0
    · simp [hi]
      omega
    · have hpos : 0 < d.idx.toNat := Nat.pos_of_ne_zero fun h => hi (by
        apply BitVec.eq_of_toNat_eq
        simpa using h)
      have hlt := d.idx.isLt
      have hsub : (d.idx - 1).toNat = d.idx.toNat - 1 := by
        rw [BitVec.toNat_sub]
        simp
        omega
      simp only [hi, if_false, hsub, Option.some.injEq, reduceCtorEq, false_and, or_false]
      refine and_congr_left fun _ => ?_
      omega
  | PACK_OUTPUT =>
    simp
    omega
  | OUTPUT_SIGN =>
    simp
    omega
  | WAIT_FOR_WB => simp

end Divider

namespace ExecUnit
open Latency
variable {ar : FpArith} {x : ExecUnit} {i : ExecIn}

/-- An operation of the integer unit that is to complete in `k` cycles. -/
def intPending (x : ExecUnit) (k : ℕ) (t : RobPtr) : Prop :=
  k = 2 ∧ x.exec.mul0.complete = true ∧ x.exec.mul0.robPtr = t ∨
    k = 1 ∧ x.exec.mul1.complete = true ∧ x.exec.mul1.robPtr = t ∨
    k = 0 ∧ x.exec.mul2.complete = true ∧ x.exec.mul2.robPtr = t ∨
    x.div.remaining = some k ∧ x.div.robPtr = t

/-- The latency of the operation that the integer unit executes, unless it is flushed. -/
def intLatency (o : AluOut) : Option ℕ :=
  if o.aluValid then some 0 else if o.startMul then some 3 else if o.startDiv32 then some 36
  else none

def intStarts (x : ExecUnit) (i : ExecIn) (k : ℕ) (t : RobPtr) : Prop :=
  x.exec.startInt = true ∧ x.exec.intUop.robPtr = t ∧ intLatency (x.exec.alu i) = some k

/-- The first completion port reports the entry. -/
def intCompletes (ar : FpArith) (x : ExecUnit) (i : ExecIn) (t : RobPtr) : Prop :=
  x.exec.nCompleteValid1 (x.ins ar i) = true ∧ (x.exec.nCompleteBundle1 (x.ins ar i)).robPtr = t

/-- The integer unit, timed by the first completion port. -/
def intUnit (ar : FpArith) : TimedUnit ExecUnit ExecIn RobPtr where
  step x i := x.step ar i
  pending := intPending
  starts := intStarts
  completes x i t := x.intCompletes ar i t

/-- The port is taken in `k` cycles. -/
def portTaken (x : ExecUnit) (k : ℕ) : Prop := ∃ t, x.intPending k t

/-- The reservations say when the port is taken, no two operations share it, and the latched uop has
found it free. -/
structure IntInv (x : ExecUnit) : Prop where
  reserved : ∀ k, x.exec.wbBitvec.getLsbD k = true ↔ x.portTaken k
  apart0 : x.exec.mul0.complete = true → x.div.remaining ≠ some 2
  apart1 : x.exec.mul1.complete = true → x.div.remaining ≠ some 1
  apart2 : x.exec.mul2.complete = true → x.div.remaining ≠ some 0
  latchedDiv : x.exec.startInt = true → isDiv x.exec.intUop.op = true → x.div.state = .IDLE
  latchedMul : x.exec.startInt = true → isMult x.exec.intUop.op = true → ¬x.portTaken 3
  latchedAlu : x.exec.startInt = true → isDiv x.exec.intUop.op = false →
    isMult x.exec.intUop.op = false → ¬x.portTaken 0

theorem reset_intPending (m : ExecInit) (st : BitVec 2 → FpuStage) (k : ℕ) (t : RobPtr) :
    ¬(reset m st).intPending k t := by
  simp [intPending, reset, Exec.reset, Divider.remaining]

theorem reset_intInv (m : ExecInit) (st : BitVec 2 → FpuStage) : (reset m st).IntInv where
  reserved k := by
    have h : ¬(reset m st).portTaken k := fun ⟨t, ht⟩ => reset_intPending m st k t ht
    simp [h]
    simp [reset, Exec.reset]
  apart0 := by simp [reset, Exec.reset]
  apart1 := by simp [reset, Exec.reset]
  apart2 := by simp [reset, Exec.reset]
  latchedDiv := by simp [reset, Exec.reset]
  latchedMul := by simp [reset, Exec.reset]
  latchedAlu := by simp [reset, Exec.reset]

theorem isMult_isDiv {op : Opcode} (h : isMult op = true) : isDiv op = false := by
  cases op <;> first | rfl | cases h

/-- The latency of an operation follows from its class. -/
theorem intLatency_alu :
    intLatency (x.exec.alu i) =
      if isMult x.exec.intUop.op then if x.exec.startInt && !i.dsDone then some 3 else none
      else if isDiv x.exec.intUop.op then if x.exec.startInt && !i.dsDone then some 36 else none
      else some 0 := by
  obtain ⟨hm, hd, hv⟩ := Alu.run_route (a := x.exec.aluIn i)
  have hs : (x.exec.aluIn i).starts = (x.exec.startInt && !i.dsDone) := rfl
  have ho : (x.exec.aluIn i).uop.op = x.exec.intUop.op := rfl
  have ha : x.exec.alu i = Alu.run (x.exec.aluIn i) := rfl
  rw [intLatency, ha, hm, hd, hv, hs, ho]
  cases hmul : isMult x.exec.intUop.op with
  | false => cases isDiv x.exec.intUop.op <;> simp
  | true => simp [isMult_isDiv hmul]

theorem mulGo_eq :
    x.exec.mulGo (x.ins ar i) = (isMult x.exec.intUop.op && (x.exec.startInt && !i.dsDone)) := by
  have h := (Alu.run_route (a := x.exec.aluIn i)).1
  have ha : x.exec.mulGo (x.ins ar i) = ((Alu.run (x.exec.aluIn i)).startMul && x.exec.startInt) := rfl
  have hs : (x.exec.aluIn i).starts = (x.exec.startInt && !i.dsDone) := rfl
  have ho : (x.exec.aluIn i).uop.op = x.exec.intUop.op := rfl
  rw [ha, h, hs, ho]
  cases isMult x.exec.intUop.op <;> cases x.exec.startInt <;> simp

theorem startDiv_eq : x.startDiv i = (isDiv x.exec.intUop.op && (x.exec.startInt && !i.dsDone)) :=
  (Alu.run_route (a := x.exec.aluIn i)).2.1

theorem intStarts_iff {k : ℕ} {t : RobPtr} :
    x.intStarts i k t ↔ x.exec.startInt = true ∧ x.exec.intUop.robPtr = t ∧
      (k = 0 ∧ isMult x.exec.intUop.op = false ∧ isDiv x.exec.intUop.op = false ∨
        k = 3 ∧ isMult x.exec.intUop.op = true ∧ i.dsDone = false ∨
        k = 36 ∧ isDiv x.exec.intUop.op = true ∧ i.dsDone = false) := by
  rw [intStarts, intLatency_alu]
  refine and_congr_right fun hs => and_congr_right fun _ => ?_
  have hk (n : ℕ) : some n = some k ↔ k = n := by rw [Option.some.injEq, eq_comm]
  rw [hs]
  cases hm : isMult x.exec.intUop.op with
  | true => cases i.dsDone <;> simp [isMult_isDiv hm, hk]
  | false =>
    cases isDiv x.exec.intUop.op with
    | true => cases i.dsDone <;> simp [hk]
    | false => simp [hk]

/-- What is in flight after the cycle was in flight before, one cycle further, or has started. -/
theorem step_intPending (h : x.IntInv) (k : ℕ) (t : RobPtr) :
    (x.step ar i).intPending k t ↔ x.intPending (k + 1) t ∨ x.intStarts i (k + 1) t := by
  have hdiv := Divider.step_remaining (d := x.div) (x.startDiv i) (x.exec.intUop.op == .DIV)
    (lo32 (x.exec.tSrc x.exec.intUop.srcA)) (lo32 (x.exec.tSrc x.exec.intUop.srcB))
    x.exec.intUop.robPtr x.exec.intUop.hiloDst k t
  have hm0 : (x.step ar i).exec.mul0.complete = x.exec.mulGo (x.ins ar i) := rfl
  have hr0 : (x.step ar i).exec.mul0.robPtr = x.exec.intUop.robPtr := rfl
  have hm1 : (x.step ar i).exec.mul1 = x.exec.mul0 := rfl
  have hm2 : (x.step ar i).exec.mul2 = x.exec.mul1 := rfl
  have hidle : x.exec.startInt = true ∧ isDiv x.exec.intUop.op = true → x.div.state = .IDLE :=
    fun hd => h.latchedDiv hd.1 hd.2
  have hgo : x.exec.mulGo (x.ins ar i) = true ↔
      x.exec.startInt = true ∧ isMult x.exec.intUop.op = true ∧ i.dsDone = false := by
    rw [mulGo_eq]
    simp only [Bool.and_eq_true, Bool.not_eq_true', and_left_comm]
  have hsd : x.startDiv i = true ↔
      x.exec.startInt = true ∧ isDiv x.exec.intUop.op = true ∧ i.dsDone = false := by
    rw [startDiv_eq]
    simp only [Bool.and_eq_true, Bool.not_eq_true', and_left_comm]
  rw [intStarts_iff, intPending, intPending, hm0, hr0, hm1, hm2]
  refine Iff.trans (or_congr Iff.rfl (or_congr Iff.rfl (or_congr Iff.rfl hdiv))) ?_
  rw [hgo, hsd]
  have e1 : k + 1 = 2 ↔ k = 1 := by omega
  have e2 : k + 1 = 1 ↔ k = 0 := by omega
  have e3 : k + 1 = 3 ↔ k = 2 := by omega
  have e4 : k + 1 = 36 ↔ k = 35 := by omega
  simp only [e1, e2, e3, e4, Nat.succ_ne_zero, false_and, false_or]
  constructor
  · rintro (⟨hk, ⟨hs, hm, hd⟩, ht⟩ | h1 | h2 | h3 | ⟨-, ⟨hs, hd, hf⟩, hk, ht⟩)
    · exact Or.inr ⟨hs, ht, Or.inl ⟨hk, hm, hd⟩⟩
    · exact Or.inl (Or.inl h1)
    · exact Or.inl (Or.inr (Or.inl h2))
    · exact Or.inl (Or.inr (Or.inr h3))
    · exact Or.inr ⟨hs, ht, Or.inr ⟨hk, hd, hf⟩⟩
  · rintro ((h1 | h2 | h3) | ⟨hs, ht, ⟨hk, hm, hd⟩ | ⟨hk, hd, hf⟩⟩)
    · exact Or.inr (Or.inl h1)
    · exact Or.inr (Or.inr (Or.inl h2))
    · exact Or.inr (Or.inr (Or.inr (Or.inl h3)))
    · exact Or.inl ⟨hk, ⟨hs, hm, hd⟩, ht⟩
    · exact Or.inr (Or.inr (Or.inr (Or.inr ⟨hidle ⟨hs, hd⟩, ⟨hs, hd, hf⟩, hk, ht⟩)))

theorem portTaken_step (h : x.IntInv) (k : ℕ) :
    (x.step ar i).portTaken k ↔ x.portTaken (k + 1) ∨ ∃ t, x.intStarts i (k + 1) t := by
  simp only [portTaken, step_intPending h, exists_or]

theorem intStarts_latency {k : ℕ} {t : RobPtr} (h : x.intStarts i k t) : k = 0 ∨ k = 3 ∨ k = 36 := by
  rcases (intStarts_iff.mp h).2.2 with h0 | h3 | h36
  · exact Or.inl h0.1
  · exact Or.inr (Or.inl h3.1)
  · exact Or.inr (Or.inr h36.1)

theorem not_portTaken_of_le {k : ℕ} (hk : 36 ≤ k) : ¬x.portTaken k := by
  rintro ⟨t, h0 | h1 | h2 | ⟨h3, -⟩⟩
  · omega
  · omega
  · omega
  · have hlt := Divider.remaining_lt h3
    omega

theorem step_wbBitvec (k : ℕ) :
    (x.step ar i).exec.wbBitvec.getLsbD k =
      if k = 2 ∧ x.exec.mulGo (x.ins ar i) = true then true
      else if k = 35 then x.startDiv i && x.exec.startInt else x.exec.wbBitvec.getLsbD (k + 1) := by
  have hw : (x.step ar i).exec.wbBitvec =
      if x.exec.mulGo (x.ins ar i) then
        BitMask.setBit (BitMask.setBit (x.exec.wbBitvec >>> 1) 35 (x.startDiv i && x.exec.startInt)) 2 true
      else BitMask.setBit (x.exec.wbBitvec >>> 1) 35 (x.startDiv i && x.exec.startInt) := rfl
  rw [hw]
  cases x.exec.mulGo (x.ins ar i) with
  | false => simp [Nat.add_comm]
  | true =>
    by_cases hk : k = 2
    · simp [hk]
    · simp [hk, Nat.add_comm]

/-- A selected operation has found its unit free. -/
theorem selects_unitFree {e : Exec} {i : ExecIn} (h : e.selects i = true) :
    e.unitFree i (e.aluSchedUops (e.selectPtr i)).op = true := by
  have hx : e.tAluEntryRdy i ≠ 0 := by simpa [Exec.selects] using h
  have hr : e.entryRdy i (e.selectPtr i) = true := by
    rw [← Exec.getLsbD_entryMask (e.entryRdy i)]
    exact Exec.fairSched_ready _ hx
  simp only [Exec.entryRdy, Bool.and_eq_true] at hr
  exact hr.1.2

/-- The uop that is latched for execution has found its unit free. -/
theorem latched_unitFree (h : (x.step ar i).exec.startInt = true) :
    x.exec.unitFree (x.ins ar i) (x.step ar i).exec.intUop.op = true :=
  selects_unitFree (Bool.and_eq_true_iff.mp h).1

theorem step_reserved (h : x.IntInv) (k : ℕ) :
    (x.step ar i).exec.wbBitvec.getLsbD k = true ↔ (x.step ar i).portTaken k := by
  rw [portTaken_step h, ← h.reserved, step_wbBitvec]
  have hstart : (∃ t, x.intStarts i (k + 1) t) ↔
      k = 2 ∧ x.exec.mulGo (x.ins ar i) = true ∨ k = 35 ∧ (x.startDiv i && x.exec.startInt) = true := by
    rw [mulGo_eq, startDiv_eq]
    simp only [intStarts_iff, Bool.and_eq_true, Bool.not_eq_true']
    constructor
    · rintro ⟨t, hs, -, ⟨h0, -⟩ | ⟨hk, hm, hd⟩ | ⟨hk, hd, hf⟩⟩
      · omega
      · exact Or.inl ⟨by omega, hm, hs, hd⟩
      · exact Or.inr ⟨by omega, ⟨hd, hs, hf⟩, hs⟩
    · rintro (⟨hk, hm, hs, hd⟩ | ⟨hk, ⟨hd, -, hf⟩, hs⟩)
      · exact ⟨_, hs, rfl, Or.inr (Or.inl ⟨by omega, hm, hd⟩)⟩
      · exact ⟨_, hs, rfl, Or.inr (Or.inr ⟨by omega, hd, hf⟩)⟩
  rw [hstart]
  by_cases hm : k = 2 ∧ x.exec.mulGo (x.ins ar i) = true
  · simp [hm]
  · rw [if_neg hm]
    by_cases hk : k = 35
    · subst hk
      have h36 : x.exec.wbBitvec.getLsbD (35 + 1) = false := by
        rw [← Bool.not_eq_true, h.reserved]
        exact not_portTaken_of_le (by omega)
      rw [if_pos rfl, h36]
      simp
    · simp [hk, hm]

theorem step_remaining_ne {j : ℕ} (hj : j < 35) (hne : x.div.remaining ≠ some (j + 1)) :
    (x.step ar i).div.remaining ≠ some j := by
  intro hr
  have hs := (Divider.step_remaining (d := x.div) (x.startDiv i) (x.exec.intUop.op == .DIV)
    (lo32 (x.exec.tSrc x.exec.intUop.srcA)) (lo32 (x.exec.tSrc x.exec.intUop.srcB))
    x.exec.intUop.robPtr x.exec.intUop.hiloDst j _).mp ⟨hr, rfl⟩
  rcases hs with hs | hs
  · exact hne hs.1
  · omega

theorem step_intInv (h : x.IntInv) : (x.step ar i).IntInv where
  reserved := step_reserved h
  apart0 hm := by
    have hgo : x.exec.mulGo (x.ins ar i) = true := hm
    rw [mulGo_eq, Bool.and_eq_true, Bool.and_eq_true] at hgo
    refine step_remaining_ne (by omega) fun hr => h.latchedMul hgo.2.1 hgo.1 ⟨x.div.robPtr, ?_⟩
    exact Or.inr (Or.inr (Or.inr ⟨hr, rfl⟩))
  apart1 hm := step_remaining_ne (by omega) (h.apart0 hm)
  apart2 hm := step_remaining_ne (by omega) (h.apart1 hm)
  latchedDiv hs hd := by
    have hf := latched_unitFree hs
    rw [Exec.unitFree, if_pos hd] at hf
    have hf : x.div.ready (x.startDiv i) = true := hf
    simp only [Divider.ready, Bool.and_eq_true, beq_iff_eq, Bool.not_eq_true'] at hf
    change (x.div.step (x.startDiv i) _ _ _ _ _).state = _
    simp [Divider.step, hf.1, hf.2]
  latchedMul hs hm := by
    have hf := latched_unitFree hs
    rw [Exec.unitFree, if_neg (by simp [isMult_isDiv hm]), if_pos hm, Bool.not_eq_true',
      ← Bool.not_eq_true] at hf
    rw [portTaken_step h]
    rintro (ht | ⟨t, ht⟩)
    · exact hf ((h.reserved 4).mpr ht)
    · have := intStarts_latency ht
      omega
  latchedAlu hs hd hm := by
    have hf := latched_unitFree hs
    rw [Exec.unitFree, if_neg (by simp [hd]), if_neg (by simp [hm]), Bool.not_eq_true',
      ← Bool.not_eq_true] at hf
    rw [portTaken_step h]
    rintro (ht | ⟨t, ht⟩)
    · exact hf ((h.reserved 1).mpr ht)
    · have := intStarts_latency ht
      omega

theorem intPending_zero {t : RobPtr} :
    x.intPending 0 t ↔ x.exec.mul2.complete = true ∧ x.exec.mul2.robPtr = t ∨
      x.div.complete = true ∧ x.div.robPtr = t := by
  simp [intPending, Divider.complete_iff]

theorem intStarts_zero {t : RobPtr} :
    x.intStarts i 0 t ↔ (x.exec.startInt && (x.exec.alu i).aluValid) = true ∧
      x.exec.intUop.robPtr = t := by
  have hv : (x.exec.alu i).aluValid = (!isMult x.exec.intUop.op && !isDiv x.exec.intUop.op) :=
    (Alu.run_route (a := x.exec.aluIn i)).2.2
  rw [intStarts_iff, hv]
  simp [and_assoc, and_comm]

/-- An operation that completes at once has the port for itself. -/
theorem startsAlu_free (h : x.IntInv) (hs : (x.exec.startInt && (x.exec.alu i).aluValid) = true) :
    x.exec.mul2.complete = false ∧ x.div.complete = false := by
  have hv : (x.exec.alu i).aluValid = (!isMult x.exec.intUop.op && !isDiv x.exec.intUop.op) :=
    (Alu.run_route (a := x.exec.aluIn i)).2.2
  rw [hv] at hs
  simp only [Bool.and_eq_true, Bool.not_eq_true'] at hs
  have hfree := h.latchedAlu hs.1 hs.2.2 hs.2.1
  constructor
  · by_contra hm
    exact hfree ⟨_, intPending_zero.mpr (Or.inl ⟨by simpa using hm, rfl⟩)⟩
  · by_contra hd
    exact hfree ⟨_, intPending_zero.mpr (Or.inr ⟨by simpa using hd, rfl⟩)⟩

/-- The first completion port reports what is due. -/
theorem intCompletes_iff (h : x.IntInv) (t : RobPtr) :
    x.intCompletes ar i t ↔ x.intPending 0 t ∨ x.intStarts i 0 t := by
  have hvalid : x.exec.nCompleteValid1 (x.ins ar i) =
      (x.exec.startInt && (x.exec.alu i).aluValid || x.exec.mul2.complete || x.div.complete) := rfl
  have hrob : (x.exec.nCompleteBundle1 (x.ins ar i)).robPtr =
      if x.exec.mul2.complete || x.div.complete then
        if x.exec.mul2.complete then x.exec.mul2.robPtr else x.div.robPtr
      else x.exec.intUop.robPtr := by
    unfold Exec.nCompleteBundle1
    split_ifs <;> first | rfl | contradiction
  have hfree := @startsAlu_free x i h
  have hdiv : x.exec.mul2.complete = true → x.div.complete = false := fun hm => by
    rw [← Bool.not_eq_true, Divider.complete_iff]
    exact h.apart2 hm
  rw [intCompletes, hvalid, hrob, intPending_zero, intStarts_zero]
  cases hm : x.exec.mul2.complete with
  | true =>
    have hs : (x.exec.startInt && (x.exec.alu i).aluValid) = false := by
      by_contra hs
      simp [(hfree (by simpa using hs)).1] at hm
    simp [hs, hdiv hm]
  | false =>
    cases hd : x.div.complete with
    | true =>
      have hs : (x.exec.startInt && (x.exec.alu i).aluValid) = false := by
        by_contra hs
        simp [(hfree (by simpa using hs)).2] at hd
      simp [hs]
    | false => simp

/-- The operations of the integer unit take their latency and complete once. -/
theorem intUnit_lawful (ar : FpArith) : (intUnit ar).Lawful IntInv where
  step_inv _ _ := step_intInv
  completes_iff _ _ t h := intCompletes_iff h t
  pending_step _ _ k t h := step_intPending h k t
  starts_inj _ _ _ _ _ hj hk := Option.some.inj (hj.2.2.symm.trans hk.2.2)

end ExecUnit
/-! ## Floating-point unit -/

namespace FpDiv
variable {d : FpDiv} {shifts : Word → Word → Bool} {w : ℕ}

/-- The cycles until the divider is valid. -/
def remaining (shifts : Word → Word → Bool) (d : FpDiv) : Option ℕ :=
  match d.state with
  | .IDLE => none
  | .COMPUTE_EXP | .WAIT_FOR_DIVIDE =>
    match d.udiv with
    | .IDLE => none
    | .DIVIDE idx => some (idx + 4 + (shifts d.a d.b).toNat)
    | .PACK_OUTPUT => some (3 + (shifts d.a d.b).toNat)
    | .DONE => some (2 + (shifts d.a d.b).toNat)
  | .NORMALIZE => some 2
  | .ROUND => some 1
  | .DONE => some 0

/-- The outputs follow the state, and the mantissa divider runs while the state waits for it. -/
structure Ok (d : FpDiv) : Prop where
  active : d.active = true ↔ d.state ≠ .IDLE
  valid : d.valid = true ↔ d.state = .DONE
  computes : d.state = .COMPUTE_EXP → ∃ idx, d.udiv = .DIVIDE idx
  waits : d.state = .WAIT_FOR_DIVIDE → d.udiv ≠ .IDLE
  rests : d.state ≠ .COMPUTE_EXP → d.state ≠ .WAIT_FOR_DIVIDE → d.udiv = .IDLE

theorem step_ok (h : d.Ok) (st sq : Bool) (r : RobPtr) (p : PrfPtr) (a b : Word) :
    (step w shifts st sq r p a b d).Ok := by
  obtain ⟨h1, h2, h3, h4, h5⟩ := h
  cases hs : d.state with
  | IDLE =>
    have hu := h5 (by simp [hs]) (by simp [hs])
    cases st with
    | true => constructor <;> simp [step, hs, hu, udivStep]
    | false => constructor <;> simp_all [step, udivStep]
  | COMPUTE_EXP =>
    obtain ⟨idx, hu⟩ := h3 hs
    cases idx <;> constructor <;> simp_all [step, udivStep]
  | WAIT_FOR_DIVIDE =>
    have hu := h4 hs
    cases hud : d.udiv with
    | IDLE => exact absurd hud hu
    | DIVIDE idx => cases idx <;> constructor <;> simp_all [step, udivStep]
    | PACK_OUTPUT => constructor <;> simp_all [step, udivStep]
    | DONE => cases hsh : shifts d.a d.b <;> constructor <;> simp_all [step, udivStep]
  | NORMALIZE => constructor <;> simp_all [step, udivStep]
  | ROUND => constructor <;> simp_all [step, udivStep]
  | DONE => constructor <;> simp_all [step, udivStep]

/-- The cycles that a division takes. -/
def latency (w : ℕ) (shifts : Word → Word → Bool) (a b : Word) : ℕ :=
  w - 1 + 5 + (shifts a b).toNat

/-- The divider comes one cycle closer, or starts. -/
theorem step_remaining (h : d.Ok) (st sq : Bool) (r : RobPtr) (p : PrfPtr) (a b : Word) (k : ℕ)
    (t : RobPtr) :
    ((step w shifts st sq r p a b d).remaining shifts = some k ∧
        (step w shifts st sq r p a b d).robPtr = t) ↔
      (d.remaining shifts = some (k + 1) ∧ d.robPtr = t) ∨
        (d.state = .IDLE ∧ st = true ∧ k + 1 = latency w shifts a b ∧ r = t) := by
  cases hs : d.state with
  | IDLE =>
    have hu := h.rests (by simp [hs]) (by simp [hs])
    cases st with
    | true =>
      simp [step, hs, hu, udivStep, remaining, latency]
      omega
    | false => simp [step, hs, remaining]
  | COMPUTE_EXP =>
    obtain ⟨idx, hu⟩ := h.computes hs
    cases idx <;> simp [step, hs, hu, udivStep, remaining] <;> omega
  | WAIT_FOR_DIVIDE =>
    cases hu : d.udiv with
    | IDLE => exact absurd hu (h.waits hs)
    | DIVIDE idx => cases idx <;> simp [step, hs, hu, udivStep, remaining] <;> omega
    | PACK_OUTPUT =>
      simp [step, hs, hu, udivStep, remaining]
      omega
    | DONE => cases hsh : shifts d.a d.b <;> simp [step, hs, hu, remaining, hsh] <;> omega
  | NORMALIZE =>
    simp [step, hs, remaining]
    omega
  | ROUND =>
    simp [step, hs, remaining]
    omega
  | DONE => simp [step, hs, remaining]

theorem valid_iff (h : d.Ok) : d.valid = true ↔ d.remaining shifts = some 0 := by
  rw [h.valid]
  cases hs : d.state <;> simp [remaining, hs]
  · cases d.udiv <;> simp
  · cases d.udiv <;> simp

end FpDiv

namespace Fpu
variable {ar : FpArith} {f : Fpu} {e : Exec} {i : ExecIn}

/-- What an issue promises: a unit starts only when no division runs, a move only when the pipeline
delivers nothing, a division only when the pipeline is empty, and never two at once. -/
structure IssueOk (f : Fpu) (e : Exec) (o : FpIssue) : Prop where
  move : o.wrPrf = true → f.divActive = false ∧ f.fpWbBitvec.getLsbD 0 = false ∧
    o.startFpu = false ∧ o.startSpDiv = false ∧ o.startDpDiv = false
  piped : o.startFpu = true → f.divActive = false ∧
    (FpuStage.isArith e.fpUqHead.op = true ∨ FpuStage.isCmp e.fpUqHead.op = true) ∧
    o.startSpDiv = false ∧ o.startDpDiv = false
  spDiv : o.startSpDiv = true → f.divActive = false ∧ f.fpWbBitvec = 0 ∧ o.startDpDiv = false
  dpDiv : o.startDpDiv = true → f.divActive = false ∧ f.fpWbBitvec = 0
  started : o.startFpu = true → e.tFpUqEmpty = false ∧ o.srcsRdy = true

theorem move_ok (r : Word) : IssueOk f e (f.move e r) := by
  constructor <;> simp +contextual [move]

theorem arith_ok (h : FpuStage.isArith e.fpUqHead.op = true) : IssueOk f e (f.arith e) := by
  constructor <;> simp +contextual [arith, h]

theorem compare_ok (h : FpuStage.isCmp e.fpUqHead.op = true) : IssueOk f e (f.compare e) := by
  constructor <;> simp +contextual [compare, h]

theorem divides_ok (sp sqrt : Bool) : IssueOk f e (f.divides e sp sqrt) := by
  constructor <;> cases sp <;> simp +contextual [divides]

theorem issue_ok : IssueOk f e (f.issue ar e) := by
  unfold issue
  split
  case h_11 h | h_12 h | h_13 h | h_14 h | h_15 h | h_16 h => exact arith_ok (by rw [h]; rfl)
  case h_21 h | h_22 h | h_23 h | h_24 h | h_25 h | h_26 h => exact compare_ok (by rw [h]; rfl)
  case h_17 | h_18 | h_19 | h_20 => exact divides_ok _ _
  case h_27 => constructor <;> simp
  all_goals exact move_ok _

end Fpu

namespace ExecUnit
open Latency
variable {ar : FpArith} {x : ExecUnit} {i : ExecIn}

def spShifts (ar : FpArith) (a b : Word) : Bool := ar.spShifts (lo32 a) (lo32 b)

/-- An operation of the floating-point unit that is to complete in `k` cycles. -/
def fpPending (ar : FpArith) (x : ExecUnit) (k : ℕ) (t : RobPtr) : Prop :=
  k = 3 ∧ x.fpu.st3.val = true ∧ x.fpu.st3.robPtr = t ∨
    k = 2 ∧ x.fpu.st2.val = true ∧ x.fpu.st2.robPtr = t ∨
    k = 1 ∧ x.fpu.st1.val = true ∧ x.fpu.st1.robPtr = t ∨
    k = 0 ∧ x.fpu.st0.val = true ∧ x.fpu.st0.robPtr = t ∨
    (x.fpu.spDiv.remaining (spShifts ar) = some k ∧ x.fpu.spDiv.robPtr = t) ∨
    (x.fpu.dpDiv.remaining ar.dpShifts = some k ∧ x.fpu.dpDiv.robPtr = t)

/-- The latency of what the FP queue's head starts: a move completes at once. -/
def fpLatency (ar : FpArith) (x : ExecUnit) (i : ExecIn) : Option ℕ :=
  let o := x.fpu.issue ar x.exec
  if o.wrPrf then some 0
  else if (x.fpu.newStage ar x.exec i).val then some 4
  else if o.startSpDiv then
    some (FpDiv.latency spDivBits (spShifts ar) (Fpu.srcA x.exec) (Fpu.srcB x.exec))
  else if o.startDpDiv then
    some (FpDiv.latency dpDivBits ar.dpShifts (Fpu.srcA x.exec) (Fpu.srcB x.exec))
  else none

def fpStarts (ar : FpArith) (x : ExecUnit) (i : ExecIn) (k : ℕ) (t : RobPtr) : Prop :=
  x.exec.fpUqHead.robPtr = t ∧ x.fpLatency ar i = some k

/-- The second completion port reports the entry. -/
def fpCompletes (ar : FpArith) (x : ExecUnit) (i : ExecIn) (t : RobPtr) : Prop :=
  (x.exec.step (x.ins ar i)).completeValid2 = true ∧
    (x.exec.nCompleteBundle2 (x.ins ar i)).robPtr = t

/-- The floating-point unit, timed by the second completion port. -/
def fpUnit (ar : FpArith) : TimedUnit ExecUnit ExecIn RobPtr where
  step x i := x.step ar i
  pending := fpPending ar
  starts x i := x.fpStarts ar i
  completes x i := x.fpCompletes ar i

/-- A division has the unit for itself, and the reservations cover the pipeline. -/
structure FpInv (x : ExecUnit) : Prop where
  reserved0 : x.fpu.st0.val = true → x.fpu.fpWbBitvec.getLsbD 0 = true
  reserved1 : x.fpu.st1.val = true → x.fpu.fpWbBitvec.getLsbD 1 = true
  reserved2 : x.fpu.st2.val = true → x.fpu.fpWbBitvec.getLsbD 2 = true
  reserved3 : x.fpu.st3.val = true → x.fpu.fpWbBitvec.getLsbD 3 = true
  piped (st : FpuStage) : st ∈ [x.fpu.st0, x.fpu.st1, x.fpu.st2, x.fpu.st3] → st.val = true →
    FpuStage.isArith st.opcode = true ∨ FpuStage.isCmp st.opcode = true
  spOk : x.fpu.spDiv.Ok
  dpOk : x.fpu.dpDiv.Ok
  one : x.fpu.spDiv.state = .IDLE ∨ x.fpu.dpDiv.state = .IDLE
  alone (st : FpuStage) : st ∈ [x.fpu.st0, x.fpu.st1, x.fpu.st2, x.fpu.st3] → st.val = true →
    x.fpu.spDiv.state = .IDLE ∧ x.fpu.dpDiv.state = .IDLE

theorem reset_fpPending (m : ExecInit) (st : BitVec 2 → FpuStage) (k : ℕ) (t : RobPtr) :
    ¬(reset m st).fpPending ar k t := by
  simp [fpPending, reset, FpDiv.remaining]

theorem reset_fpInv (m : ExecInit) (st : BitVec 2 → FpuStage) : (reset m st).FpInv := by
  constructor <;> simp [reset]
  · constructor <;> simp
  · constructor <;> simp

theorem not_divActive (h : x.FpInv) (ha : x.fpu.divActive = false) :
    x.fpu.spDiv.state = .IDLE ∧ x.fpu.dpDiv.state = .IDLE := by
  simp only [Fpu.divActive, Bool.or_eq_false_iff] at ha
  obtain ⟨⟨⟨hs, hd⟩, -⟩, -⟩ := ha
  constructor
  · by_contra hne
    rw [h.spOk.active.mpr hne] at hs
    cases hs
  · by_contra hne
    rw [h.dpOk.active.mpr hne] at hd
    cases hd

theorem newStage_val (hv : (x.fpu.newStage ar x.exec i).val = true) :
    (x.fpu.issue ar x.exec).startFpu = true := (Bool.and_eq_true_iff.mp hv).1

theorem fpStarts_iff {k : ℕ} {t : RobPtr} :
    x.fpStarts ar i k t ↔ x.exec.fpUqHead.robPtr = t ∧
      (k = 0 ∧ (x.fpu.issue ar x.exec).wrPrf = true ∨
        k = 4 ∧ (x.fpu.newStage ar x.exec i).val = true ∨
        k = FpDiv.latency spDivBits (spShifts ar) (Fpu.srcA x.exec) (Fpu.srcB x.exec) ∧
          (x.fpu.issue ar x.exec).startSpDiv = true ∨
        k = FpDiv.latency dpDivBits ar.dpShifts (Fpu.srcA x.exec) (Fpu.srcB x.exec) ∧
          (x.fpu.issue ar x.exec).startDpDiv = true) := by
  have hok := @Fpu.issue_ok ar x.fpu x.exec
  have hk (n : ℕ) : some n = some k ↔ k = n := by rw [Option.some.injEq, eq_comm]
  rw [fpStarts, fpLatency]
  refine and_congr_right fun _ => ?_
  cases hw : (x.fpu.issue ar x.exec).wrPrf with
  | true =>
    obtain ⟨-, -, hf, hs, hd⟩ := hok.move hw
    have hn : (x.fpu.newStage ar x.exec i).val = false := by
      by_contra hn
      rw [newStage_val (by simpa using hn)] at hf
      cases hf
    simp [hn, hs, hd, hk]
  | false =>
    cases hn : (x.fpu.newStage ar x.exec i).val with
    | true =>
      obtain ⟨-, -, hs, hd⟩ := hok.piped (newStage_val hn)
      simp [hs, hd, hk]
    | false =>
      cases hs : (x.fpu.issue ar x.exec).startSpDiv with
      | true => simp [(hok.spDiv hs).2.2, hk]
      | false => cases (x.fpu.issue ar x.exec).startDpDiv <;> simp [hk]

theorem step_fpPending (h : x.FpInv) (k : ℕ) (t : RobPtr) :
    (x.step ar i).fpPending ar k t ↔ x.fpPending ar (k + 1) t ∨ x.fpStarts ar i (k + 1) t := by
  have hok := @Fpu.issue_ok ar x.fpu x.exec
  have hsp := @FpDiv.step_remaining x.fpu.spDiv (spShifts ar) spDivBits h.spOk
    (x.fpu.issue ar x.exec).startSpDiv (x.fpu.issue ar x.exec).isSqrt x.exec.fpUqHead.robPtr
    x.exec.fpUqHead.dst (Fpu.srcA x.exec) (Fpu.srcB x.exec) k t
  have hdp := @FpDiv.step_remaining x.fpu.dpDiv ar.dpShifts dpDivBits h.dpOk
    (x.fpu.issue ar x.exec).startDpDiv (x.fpu.issue ar x.exec).isSqrt x.exec.fpUqHead.robPtr
    x.exec.fpUqHead.dst (Fpu.srcA x.exec) (Fpu.srcB x.exec) k t
  have h3 : (x.step ar i).fpu.st3 = x.fpu.newStage ar x.exec i := rfl
  have hr : (x.fpu.newStage ar x.exec i).robPtr = x.exec.fpUqHead.robPtr := rfl
  have h2 : (x.step ar i).fpu.st2 = x.fpu.st3 := rfl
  have h1 : (x.step ar i).fpu.st1 = x.fpu.st2 := rfl
  have h0 : (x.step ar i).fpu.st0 = x.fpu.st1 := rfl
  have hsi : (x.fpu.issue ar x.exec).startSpDiv = true → x.fpu.spDiv.state = .IDLE := fun hs =>
    (not_divActive h (hok.spDiv hs).1).1
  have hdi : (x.fpu.issue ar x.exec).startDpDiv = true → x.fpu.dpDiv.state = .IDLE := fun hd =>
    (not_divActive h (hok.dpDiv hd).1).2
  rw [fpStarts_iff, fpPending, fpPending, h3, h2, h1, h0, hr]
  refine Iff.trans (or_congr Iff.rfl (or_congr Iff.rfl (or_congr Iff.rfl (or_congr Iff.rfl
    (or_congr hsp hdp))))) ?_
  have e1 : k + 1 = 3 ↔ k = 2 := by omega
  have e2 : k + 1 = 2 ↔ k = 1 := by omega
  have e3 : k + 1 = 1 ↔ k = 0 := by omega
  have e4 : k + 1 = 4 ↔ k = 3 := by omega
  simp only [e1, e2, e3, e4, Nat.succ_ne_zero, false_and, false_or]
  constructor
  · rintro (⟨hk, hn, ht⟩ | h2 | h1 | h0 | (hs | ⟨-, hs, hk, ht⟩) | hd | ⟨-, hd, hk, ht⟩)
    · exact Or.inr ⟨ht, Or.inl ⟨hk, hn⟩⟩
    · exact Or.inl (Or.inl h2)
    · exact Or.inl (Or.inr (Or.inl h1))
    · exact Or.inl (Or.inr (Or.inr (Or.inl h0)))
    · exact Or.inl (Or.inr (Or.inr (Or.inr (Or.inl hs))))
    · exact Or.inr ⟨ht, Or.inr (Or.inl ⟨hk, hs⟩)⟩
    · exact Or.inl (Or.inr (Or.inr (Or.inr (Or.inr hd))))
    · exact Or.inr ⟨ht, Or.inr (Or.inr ⟨hk, hd⟩)⟩
  · rintro ((h2 | h1 | h0 | hs | hd) | ⟨ht, ⟨hk, hn⟩ | ⟨hk, hs⟩ | ⟨hk, hd⟩⟩)
    · exact Or.inr (Or.inl h2)
    · exact Or.inr (Or.inr (Or.inl h1))
    · exact Or.inr (Or.inr (Or.inr (Or.inl h0)))
    · exact Or.inr (Or.inr (Or.inr (Or.inr (Or.inl (Or.inl hs)))))
    · exact Or.inr (Or.inr (Or.inr (Or.inr (Or.inr (Or.inl hd)))))
    · exact Or.inl ⟨hk, hn, ht⟩
    · exact Or.inr (Or.inr (Or.inr (Or.inr (Or.inl (Or.inr ⟨hsi hs, hs, hk, ht⟩)))))
    · exact Or.inr (Or.inr (Or.inr (Or.inr (Or.inr (Or.inr ⟨hdi hd, hd, hk, ht⟩)))))

theorem step_fpWbBitvec (k : ℕ) :
    (x.step ar i).fpu.fpWbBitvec.getLsbD k =
      if k = 3 then (x.fpu.issue ar x.exec).startFpu else x.fpu.fpWbBitvec.getLsbD (k + 1) := by
  have hw : (x.step ar i).fpu.fpWbBitvec =
      BitMask.setBit (x.fpu.fpWbBitvec >>> 1) 3 (x.fpu.issue ar x.exec).startFpu := rfl
  rw [hw, BitMask.getLsbD_setBit]
  simp [Nat.add_comm]

/-- A divider leaves its idle state only when it is started. -/
theorem FpDiv_step_idle {d : FpDiv} {w : ℕ} {shifts : Word → Word → Bool} (hd : d.state = .IDLE)
    (sq : Bool) (r : RobPtr) (p : PrfPtr) (a b : Word) :
    (FpDiv.step w shifts false sq r p a b d).state = .IDLE := by
  simp [FpDiv.step, hd]

/-- A divider that is idle after the cycle: it was idle and was not started. -/
theorem step_divs_idle (hs : x.fpu.spDiv.state = .IDLE) (hd : x.fpu.dpDiv.state = .IDLE)
    (hss : (x.fpu.issue ar x.exec).startSpDiv = false)
    (hsd : (x.fpu.issue ar x.exec).startDpDiv = false) :
    (x.step ar i).fpu.spDiv.state = .IDLE ∧ (x.step ar i).fpu.dpDiv.state = .IDLE := by
  change (FpDiv.step _ _ (x.fpu.issue ar x.exec).startSpDiv _ _ _ _ _ _).state = _ ∧
    (FpDiv.step _ _ (x.fpu.issue ar x.exec).startDpDiv _ _ _ _ _ _).state = _
  rw [hss, hsd]
  exact ⟨FpDiv_step_idle hs _ _ _ _ _, FpDiv_step_idle hd _ _ _ _ _⟩

/-- A stage in use keeps the dividers from starting. -/
theorem reserved_not_started {j : ℕ} (hj : x.fpu.fpWbBitvec.getLsbD j = true) :
    (x.fpu.issue ar x.exec).startSpDiv = false ∧ (x.fpu.issue ar x.exec).startDpDiv = false := by
  have hok := @Fpu.issue_ok ar x.fpu x.exec
  constructor
  · by_contra hs
    rw [(hok.spDiv (by simpa using hs)).2.1] at hj
    simp at hj
  · by_contra hd
    rw [(hok.dpDiv (by simpa using hd)).2] at hj
    simp at hj

theorem step_fpInv (h : x.FpInv) : (x.step ar i).FpInv where
  reserved0 hv := by
    rw [step_fpWbBitvec, if_neg (by decide)]
    exact h.reserved1 hv
  reserved1 hv := by
    rw [step_fpWbBitvec, if_neg (by decide)]
    exact h.reserved2 hv
  reserved2 hv := by
    rw [step_fpWbBitvec, if_neg (by decide)]
    exact h.reserved3 hv
  reserved3 hv := by
    rw [step_fpWbBitvec, if_pos rfl]
    exact newStage_val hv
  piped st hst hv := by
    have hmem : st ∈ [x.fpu.st1, x.fpu.st2, x.fpu.st3, x.fpu.newStage ar x.exec i] := hst
    simp only [List.mem_cons, List.not_mem_nil, or_false] at hmem
    rcases hmem with rfl | rfl | rfl | rfl
    · exact h.piped _ (by simp) hv
    · exact h.piped _ (by simp) hv
    · exact h.piped _ (by simp) hv
    · exact (Fpu.issue_ok.piped (newStage_val hv)).2.1
  spOk := by
    change (FpDiv.step spDivBits (spShifts ar) _ _ _ _ _ _ _).Ok
    exact FpDiv.step_ok h.spOk _ _ _ _ _ _
  dpOk := by
    change (FpDiv.step dpDivBits ar.dpShifts _ _ _ _ _ _ _).Ok
    exact FpDiv.step_ok h.dpOk _ _ _ _ _ _
  one := by
    have hok := @Fpu.issue_ok ar x.fpu x.exec
    cases hs : (x.fpu.issue ar x.exec).startSpDiv with
    | true =>
      have hidle := not_divActive h (hok.spDiv hs).1
      refine Or.inr ?_
      change (FpDiv.step _ _ (x.fpu.issue ar x.exec).startDpDiv _ _ _ _ _ _).state = _
      rw [(hok.spDiv hs).2.2]
      exact FpDiv_step_idle hidle.2 _ _ _ _ _
    | false =>
      rcases h.one with hi | hi
      · refine Or.inl ?_
        change (FpDiv.step _ _ (x.fpu.issue ar x.exec).startSpDiv _ _ _ _ _ _).state = _
        rw [hs]
        exact FpDiv_step_idle hi _ _ _ _ _
      · cases hd : (x.fpu.issue ar x.exec).startDpDiv with
        | true =>
          have hidle := not_divActive h (hok.dpDiv hd).1
          exact Or.inl (by
            change (FpDiv.step _ _ (x.fpu.issue ar x.exec).startSpDiv _ _ _ _ _ _).state = _
            rw [hs]
            exact FpDiv_step_idle hidle.1 _ _ _ _ _)
        | false =>
          refine Or.inr ?_
          change (FpDiv.step _ _ (x.fpu.issue ar x.exec).startDpDiv _ _ _ _ _ _).state = _
          rw [hd]
          exact FpDiv_step_idle hi _ _ _ _ _
  alone st hst hv := by
    have hmem : st ∈ [x.fpu.st1, x.fpu.st2, x.fpu.st3, x.fpu.newStage ar x.exec i] := hst
    simp only [List.mem_cons, List.not_mem_nil, or_false] at hmem
    rcases hmem with rfl | rfl | rfl | rfl
    · obtain ⟨hs, hd⟩ := h.alone x.fpu.st1 (by simp) hv
      obtain ⟨hss, hsd⟩ := @reserved_not_started ar x _ (h.reserved1 hv)
      exact step_divs_idle hs hd hss hsd
    · obtain ⟨hs, hd⟩ := h.alone x.fpu.st2 (by simp) hv
      obtain ⟨hss, hsd⟩ := @reserved_not_started ar x _ (h.reserved2 hv)
      exact step_divs_idle hs hd hss hsd
    · obtain ⟨hs, hd⟩ := h.alone x.fpu.st3 (by simp) hv
      obtain ⟨hss, hsd⟩ := @reserved_not_started ar x _ (h.reserved3 hv)
      exact step_divs_idle hs hd hss hsd
    · obtain ⟨ha, -, hss, hsd⟩ := Fpu.issue_ok.piped (newStage_val hv)
      obtain ⟨hs, hd⟩ := not_divActive h ha
      exact step_divs_idle hs hd hss hsd

theorem fpPending_zero (h : x.FpInv) {t : RobPtr} :
    x.fpPending ar 0 t ↔ x.fpu.st0.val = true ∧ x.fpu.st0.robPtr = t ∨
      (x.fpu.spDiv.valid = true ∧ x.fpu.spDiv.robPtr = t) ∨
      (x.fpu.dpDiv.valid = true ∧ x.fpu.dpDiv.robPtr = t) := by
  simp [fpPending, @FpDiv.valid_iff _ (spShifts ar) h.spOk,
    @FpDiv.valid_iff _ ar.dpShifts h.dpOk]

theorem fpStarts_zero {t : RobPtr} :
    x.fpStarts ar i 0 t ↔ (x.fpu.issue ar x.exec).wrPrf = true ∧ x.exec.fpUqHead.robPtr = t := by
  have hl (w : ℕ) (sh : Word → Word → Bool) (a b : Word) : ¬0 = FpDiv.latency w sh a b := by
    unfold FpDiv.latency
    omega
  rw [fpStarts_iff]
  simp [hl, and_comm]

/-- A valid divider delivers alone. -/
theorem valid_alone (h : x.FpInv) (hv : x.fpu.spDiv.valid = true ∨ x.fpu.dpDiv.valid = true) :
    x.fpu.st0.val = false ∧ (x.fpu.issue ar x.exec).wrPrf = false ∧
      (x.fpu.spDiv.valid = false ∨ x.fpu.dpDiv.valid = false) := by
  have hne : x.fpu.spDiv.state ≠ .IDLE ∨ x.fpu.dpDiv.state ≠ .IDLE := by
    rcases hv with hv | hv
    · rw [h.spOk.valid] at hv
      exact Or.inl (by simp [hv])
    · rw [h.dpOk.valid] at hv
      exact Or.inr (by simp [hv])
  refine ⟨?_, ?_, ?_⟩
  · by_contra hs
    obtain ⟨h1, h2⟩ := h.alone x.fpu.st0 (by simp) (by simpa using hs)
    exact hne.elim (· h1) (· h2)
  · by_contra hw
    obtain ⟨h1, h2⟩ := not_divActive h (Fpu.issue_ok.move (by simpa using hw)).1
    exact hne.elim (· h1) (· h2)
  · rcases h.one with h1 | h1
    · exact Or.inl (by rw [← Bool.not_eq_true, h.spOk.valid, h1]; simp)
    · exact Or.inr (by rw [← Bool.not_eq_true, h.dpOk.valid, h1]; simp)

/-- The second completion port reports what is due. -/
theorem fpCompletes_iff (h : x.FpInv) (t : RobPtr) :
    x.fpCompletes ar i t ↔ x.fpPending ar 0 t ∨ x.fpStarts ar i 0 t := by
  have hpiped : (x.fpu.st0.resultValid || x.fpu.st0.fcrValid) = x.fpu.st0.val := by
    have hp := h.piped x.fpu.st0 (by simp)
    unfold FpuStage.resultValid FpuStage.fcrValid
    cases hv : x.fpu.st0.val with
    | false => rfl
    | true => simpa using hp hv
  have hvalid : (x.exec.step (x.ins ar i)).completeValid2 =
      ((x.fpu.issue ar x.exec).wrPrf || (x.fpu.st0.val || x.fpu.spDiv.valid || x.fpu.dpDiv.valid)) := by
    change ((x.fpu.issue ar x.exec).wrPrf || (x.fpu.st0.resultValid || x.fpu.spDiv.valid ||
      x.fpu.dpDiv.valid) || x.fpu.st0.fcrValid) = _
    rw [← hpiped]
    simp only [Bool.or_comm, Bool.or_left_comm]
  have hrob : (x.exec.nCompleteBundle2 (x.ins ar i)).robPtr =
      if x.fpu.st0.val then x.fpu.st0.robPtr
      else if x.fpu.spDiv.valid then x.fpu.spDiv.robPtr
      else if x.fpu.dpDiv.valid then x.fpu.dpDiv.robPtr else x.exec.fpUqHead.robPtr := by
    rw [← hpiped]
    change (if (x.fpu.st0.resultValid || x.fpu.spDiv.valid || x.fpu.dpDiv.valid) ||
        x.fpu.st0.fcrValid then (⟨if x.fpu.st0.resultValid || x.fpu.st0.fcrValid then
          x.fpu.st0.robPtr else if x.fpu.spDiv.valid then x.fpu.spDiv.robPtr else x.fpu.dpDiv.robPtr,
          true, false, 0, false, false, false, _⟩ : Complete) else _).robPtr = _
    cases x.fpu.st0.resultValid <;> cases x.fpu.st0.fcrValid <;> cases x.fpu.spDiv.valid <;>
      cases x.fpu.dpDiv.valid <;> rfl
  have halone := @valid_alone ar x h
  have hmove := (@Fpu.issue_ok ar x.fpu x.exec).move
  have hst : (x.fpu.issue ar x.exec).wrPrf = true → x.fpu.st0.val = false := fun hw => by
    by_contra hv
    have hr := h.reserved0 (by simpa using hv)
    rw [(hmove hw).2.1] at hr
    cases hr
  rw [fpCompletes, hvalid, hrob, fpPending_zero h, fpStarts_zero]
  cases hs : x.fpu.spDiv.valid with
  | true =>
    obtain ⟨h0, hw, hd⟩ := halone (Or.inl hs)
    simp [h0, hw, show x.fpu.dpDiv.valid = false by simpa [hs] using hd]
  | false =>
    cases hd : x.fpu.dpDiv.valid with
    | true =>
      obtain ⟨h0, hw, -⟩ := halone (Or.inr hd)
      simp [h0, hw]
    | false =>
      cases hw : (x.fpu.issue ar x.exec).wrPrf with
      | true => simp [hst hw]
      | false => cases x.fpu.st0.val <;> simp

/-- The operations of the floating-point unit take their latency and complete once. -/
theorem fpUnit_lawful (ar : FpArith) : (fpUnit ar).Lawful FpInv where
  step_inv _ _ := step_fpInv
  completes_iff _ _ t h := fpCompletes_iff h t
  pending_step _ _ k t h := step_fpPending h k t
  starts_inj _ _ _ _ _ hj hk := Option.some.inj (hj.2.symm.trans hk.2)

end ExecUnit
end MipsCore
