import MipsCore.Decode
import MipsCore.Exec.Complete
import MipsCore.Exec.Operands

/-! # Dispatch of decoded instructions

Decode puts an operation into classes, the push equations of `exec.sv` send it to the
queues of its classes, and the unit behind a queue executes the operations that its case
statement names.  The words for which the three fit together are characterised.
-/
namespace MipsCore
open Latency

/-- The uop queues. -/
inductive UopQueue
  | int | mem | fp
  deriving DecidableEq, Repr

namespace UopQueue

/-- The class of the uops that a queue takes. -/
def takes : UopQueue → Uop → Bool
  | int => Uop.isInt
  | mem => Uop.isMem
  | fp => Uop.isFp

/-- A uop that a cycle pushes at either port enters the queue. -/
def Pushed (q : UopQueue) (u : Uop) : Prop :=
  ∀ i : ExecIn, i.uqPush = true →
    (i.uqUop = u → u ∈ Exec.pushed i q.takes) ∧
      (i.uqPushTwo = true → i.uqUopTwo = u → u ∈ Exec.pushed i q.takes)

theorem pushed_iff {q : UopQueue} {u : Uop} : q.Pushed u ↔ q.takes u = true := by
  constructor
  · intro h
    have hmem := (h { uqPush := true, uqUop := u } rfl).1 rfl
    by_contra hc
    simp [Exec.pushed, Exec.pushTwo, Exec.pushOne, hc] at hmem
  · intro hc i hp
    constructor
    · intro hu
      by_cases h2 : i.uqPushTwo = true ∧ q.takes i.uqUopTwo = true
      · simp [Exec.pushed, Exec.pushTwo, hp, hu, hc, h2]
      · have h2' : (i.uqPushTwo && q.takes i.uqUopTwo) = false := by simpa using h2
        have ht : Exec.pushTwo i q.takes = false := by
          simp only [Exec.pushTwo, hp, hu, hc, Bool.true_and, Bool.and_true]
          exact h2'
        simp [Exec.pushed, ht, Exec.pushOne, hp, hu, hc, Exec.pushUop]
    · intro hp2 hu
      cases h1 : q.takes i.uqUop with
      | true => simp [Exec.pushed, Exec.pushTwo, hp, hp2, hu, hc, h1]
      | false => simp [Exec.pushed, Exec.pushTwo, Exec.pushOne, Exec.pushUop, hp2, hu, hc, h1]

end UopQueue

/-! ## The case statements of the units -/

namespace Alu

/-- The arm that reports an illegal instruction. -/
def illegal (a : AluIn) : AluOut := { done a with unimpOp := true }

/-- An instance of the integer unit's input. -/
def probe (op : Opcode) : AluIn where
  uop := { op := op }
  srcA := 0
  srcB := 0
  srcC := 0
  hilo := 0
  fcr := 0
  cpr0SrcA := 0
  monitorRspData := 0
  in32bMode := false
  in32fpRegMode := false
  starts := true

/-- The integer unit has an execution case for the operation. -/
def hasCase (op : Opcode) : Bool := run (probe op) != illegal (probe op)

/-- An operation without a case is reported as illegal whatever its operands. -/
theorem run_illegal {a : AluIn} (h : hasCase a.uop.op = false) : run a = illegal a := by
  unfold run
  cases hop : a.uop.op <;> rw [hop] at h <;> first | rfl | exact absurd h (by decide)

end Alu

namespace Exec

/-- The memory unit has an execution case for the operation. -/
def hasMemCase (op : Opcode) : Bool :=
  (Exec.reset { memUq := fun _ => { op := op } }).headIssue.srcsRdy

/-- An operation without a case never leaves the memory queue. -/
theorem headIssue_stuck {e : Exec} (h : hasMemCase e.memUqHead.op = false) :
    e.headIssue.srcsRdy = false := by
  unfold headIssue
  cases hop : e.memUqHead.op <;> rw [hop] at h <;> first | rfl | exact absurd h (by decide)

end Exec
namespace Fpu
variable {ar : FpArith} {f : Fpu} {e : Exec} {i : ExecIn}

/-- The floating-point unit has an execution case for the operation. -/
def hasFpCase : Opcode → Bool
  | .SP_MOV | .DP_MOV | .FP_MOVT | .FP_MOVF | .TRUNC_DP_W | .TRUNC_SP_W | .CVT_SP_DP | .CVT_DP_SP
  | .CVT_W_DP | .CVT_W_SP | .SP_ADD | .SP_SUB | .SP_MUL | .DP_ADD | .DP_SUB | .DP_MUL | .DP_DIV
  | .SP_DIV | .DP_SQRT | .SP_SQRT | .DP_CMP_LT | .SP_CMP_LT | .DP_CMP_LE | .SP_CMP_LE | .DP_CMP_EQ
  | .SP_CMP_EQ => true
  | _ => false

/-- An operation without a case never leaves the FP queue. -/
theorem issue_stuck (h : hasFpCase e.fpUqHead.op = false) : f.issue ar e = {} := by
  unfold issue
  cases hop : e.fpUqHead.op <;> rw [hop] at h <;> first | rfl | cases h

/-- An operation with a case starts one of the units when it leaves the queue. -/
theorem pops_starts (h : f.pops ar e i = true) :
    (f.issue ar e).wrPrf = true ∨ (f.newStage ar e i).val = true ∨
      (f.issue ar e).startSpDiv = true ∨ (f.issue ar e).startDpDiv = true := by
  have hp := h
  simp only [pops, Bool.and_eq_true, Bool.not_eq_true', Bool.or_eq_false_iff] at hp
  obtain ⟨⟨⟨hne, -⟩, hrdy⟩, hact⟩ := hp
  have hval : (f.newStage ar e i).val = ((f.issue ar e).startFpu && f.pops ar e i) := rfl
  rw [hval, h, Bool.and_true]
  revert hrdy
  unfold issue
  split <;> simp only [move, arith, compare, divides] <;> intro hrdy <;> simp_all

end Fpu

/-! ## Dispatch -/

/-- The operation has a case in the unit behind the queue, and the unit completes its reorder buffer
entry once: the completion port of the unit reports the entry in exactly one of the cycles in which
the operation is in flight, when no other one of that entry is; the memory unit hands exactly one
request of the entry to the data cache. -/
def Serves (ar : FpArith) (q : UopQueue) (op : Opcode) : Prop :=
  match q with
  | .int =>
    (∃ a : AluIn, a.uop.op = op ∧ Alu.run a ≠ Alu.illegal a) ∧
      ∀ (m : ExecInit) (st : BitVec 2 → FpuStage) (ins : ℕ → ExecIn) (n : ℕ),
        let run := (ExecUnit.intUnit ar).states (ExecUnit.reset m st) ins
        (run n).exec.startInt = true → (ins n).dsDone = false → (run n).exec.intUop.op = op →
          ∃ k, (run n).intStarts (ins n) k (run n).exec.intUop.robPtr ∧
            ((ExecUnit.intUnit ar).Alone (ExecUnit.reset m st) ins n k (run n).exec.intUop.robPtr →
              (ExecUnit.intUnit ar).CompletesOnce (ExecUnit.reset m st) ins n k
                (run n).exec.intUop.robPtr)
  | .mem =>
    (∃ e : Exec, e.memUqHead.op = op ∧ e.headIssue.srcsRdy = true) ∧
      ∀ (e : Exec) (i : ExecIn), e.memUqHead.op = op → e.tPopMemUq i = true →
        e.tPushMq = true ∧ e.headIssue.tail.robPtr = e.memUqHead.robPtr
  | .fp =>
    (∃ (f : Fpu) (e : Exec), e.fpUqHead.op = op ∧ (f.issue ar e).srcsRdy = true) ∧
      ∀ (m : ExecInit) (st : BitVec 2 → FpuStage) (ins : ℕ → ExecIn) (n : ℕ),
        let run := (ExecUnit.fpUnit ar).states (ExecUnit.reset m st) ins
        (run n).fpu.pops ar (run n).exec (ins n) = true → (run n).exec.fpUqHead.op = op →
          ∃ k, (run n).fpStarts ar (ins n) k (run n).exec.fpUqHead.robPtr ∧
            ((ExecUnit.fpUnit ar).Alone (ExecUnit.reset m st) ins n k (run n).exec.fpUqHead.robPtr →
              (ExecUnit.fpUnit ar).CompletesOnce (ExecUnit.reset m st) ins n k
                (run n).exec.fpUqHead.robPtr)

/-- The unit behind the queue has an execution case. -/
def UopQueue.hasCase : UopQueue → Opcode → Bool
  | .int => Alu.hasCase
  | .mem => Exec.hasMemCase
  | .fp => Fpu.hasFpCase

theorem serves_int_iff {ar : FpArith} {op : Opcode} :
    Serves ar .int op ↔ Alu.hasCase op = true := by
  constructor
  · rintro ⟨⟨a, rfl, ha⟩, -⟩
    by_contra hc
    exact ha (Alu.run_illegal (by simpa using hc))
  · intro hc
    refine ⟨⟨Alu.probe op, rfl, by simpa [Alu.hasCase] using hc⟩, ?_⟩
    intro m st ins n run hs hd hop
    have hlaw := ExecUnit.intUnit_lawful ar
    have hstart : ∃ k, (run n).intStarts (ins n) k (run n).exec.intUop.robPtr := by
      simp only [ExecUnit.intStarts_iff, hs, hd, true_and, and_true]
      cases hm : isMult (run n).exec.intUop.op with
      | true => exact ⟨3, Or.inr (Or.inl ⟨rfl, rfl⟩)⟩
      | false =>
        cases hdv : isDiv (run n).exec.intUop.op with
        | true => exact ⟨36, Or.inr (Or.inr ⟨rfl, rfl⟩)⟩
        | false => exact ⟨0, Or.inl ⟨rfl, rfl, rfl⟩⟩
    obtain ⟨k, hk⟩ := hstart
    exact ⟨k, hk, TimedUnit.completesOnce hlaw (ExecUnit.reset_intInv m st)
      (ExecUnit.reset_intPending m st) hk⟩

theorem serves_fp_iff {ar : FpArith} {op : Opcode} :
    Serves ar .fp op ↔ Fpu.hasFpCase op = true := by
  constructor
  · rintro ⟨⟨f, e, rfl, hr⟩, -⟩
    by_contra hc
    rw [Fpu.issue_stuck (by simpa using hc)] at hr
    cases hr
  · intro hc
    refine ⟨⟨{}, { Exec.reset { fpUq := fun _ => { op := op } } with fpUqTailPtr := 1 }, rfl, ?_⟩, ?_⟩
    · cases op <;> first | rfl | cases hc
    · intro m st ins n run hp hop
      have hlaw := ExecUnit.fpUnit_lawful ar
      have hstart : ∃ k, (run n).fpStarts ar (ins n) k (run n).exec.fpUqHead.robPtr := by
        simp only [ExecUnit.fpStarts_iff, true_and]
        rcases Fpu.pops_starts hp with h | h | h | h
        · exact ⟨_, Or.inl ⟨rfl, h⟩⟩
        · exact ⟨_, Or.inr (Or.inl ⟨rfl, h⟩)⟩
        · exact ⟨_, Or.inr (Or.inr (Or.inl ⟨rfl, h⟩))⟩
        · exact ⟨_, Or.inr (Or.inr (Or.inr ⟨rfl, h⟩))⟩
      obtain ⟨k, hk⟩ := hstart
      exact ⟨k, hk, TimedUnit.completesOnce hlaw (ExecUnit.reset_fpInv m st)
        (ExecUnit.reset_fpPending m st) hk⟩

theorem headIssue_robPtr (e : Exec) : e.headIssue.tail.robPtr = e.memUqHead.robPtr := by
  have hm (b : Bool) (r : MemReq) (h : r.robPtr = e.memUqHead.robPtr) :
      (e.memIssue b r).tail.robPtr = e.memUqHead.robPtr := by
    unfold Exec.memIssue
    split_ifs
    · rfl
    · exact h
  unfold Exec.headIssue
  split <;> first
    | exact hm _ _ rfl
    | (split_ifs <;> rfl)
    | rfl

theorem serves_mem_iff {ar : FpArith} {op : Opcode} :
    Serves ar .mem op ↔ Exec.hasMemCase op = true := by
  constructor
  · rintro ⟨⟨e, rfl, hr⟩, -⟩
    by_contra hc
    rw [Exec.headIssue_stuck (by simpa using hc)] at hr
    cases hr
  · intro hc
    refine ⟨⟨_, rfl, hc⟩, ?_⟩
    intro e i _ hp
    refine ⟨?_, headIssue_robPtr e⟩
    simp only [Exec.tPopMemUq, Bool.and_eq_true, Bool.not_eq_true', Bool.or_eq_false_iff] at hp
    simp [Exec.tPushMq, hp.1.1, hp.2]

theorem serves_iff {ar : FpArith} {q : UopQueue} {op : Opcode} :
    Serves ar q op ↔ q.hasCase op = true := by
  cases q with
  | int => exact serves_int_iff
  | mem => exact serves_mem_iff
  | fp => exact serves_fp_iff

/-- The uop is folded at allocation, or it enters exactly one queue and the unit behind that queue
serves it. -/
def Dispatches (ar : FpArith) (u : Uop) : Prop :=
  Core.folds u = true ∨ ∃ q : UopQueue, (∀ q', q'.Pushed u ↔ q' = q) ∧ Serves ar q u.op

/-- The classes of the uop name one queue, whose unit has a case for it. -/
def classOk (u : Uop) : Bool :=
  Core.folds u ||
    match u.isInt, u.isMem, u.isFp with
    | true, false, false => Alu.hasCase u.op
    | false, true, false => Exec.hasMemCase u.op
    | false, false, true => Fpu.hasFpCase u.op
    | _, _, _ => false

theorem dispatches_iff_classOk {ar : FpArith} {u : Uop} : Dispatches ar u ↔ classOk u = true := by
  have hq (q : UopQueue) : (∀ q' : UopQueue, q'.Pushed u ↔ q' = q) ↔
      (u.isInt = true ↔ q = .int) ∧ (u.isMem = true ↔ q = .mem) ∧ (u.isFp = true ↔ q = .fp) := by
    simp only [UopQueue.pushed_iff]
    constructor
    · intro h
      exact ⟨(h .int).trans eq_comm, (h .mem).trans eq_comm, (h .fp).trans eq_comm⟩
    · rintro ⟨hi, hm, hf⟩ q'
      cases q' with
      | int => exact hi.trans eq_comm
      | mem => exact hm.trans eq_comm
      | fp => exact hf.trans eq_comm
  simp only [Dispatches, hq, serves_iff, classOk, Bool.or_eq_true]
  refine or_congr_right ⟨?_, ?_⟩
  · rintro ⟨q, ⟨hi, hm, hf⟩, hc⟩
    cases q <;> simp_all [UopQueue.hasCase]
  · intro h
    split at h
    · next hi hm hf => exact ⟨.int, by simp [hi, hm, hf], h⟩
    · next hi hm hf => exact ⟨.mem, by simp [hi, hm, hf], h⟩
    · next hi hm hf => exact ⟨.fp, by simp [hi, hm, hf], h⟩
    · cases h

/-- Renaming changes neither the operation nor its classes. -/
theorem dispatches_tAllocUop (ar : FpArith) (s : Core) (c : Comb) :
    Dispatches ar (s.tAllocUop c) ↔ Dispatches ar s.tUop := by
  obtain ⟨p, h, d, heq⟩ := s.tAllocUop_eq c
  rw [dispatches_iff_classOk, dispatches_iff_classOk, heq]
  rfl

/-! ## Decoded words -/

namespace Decode
variable (insn : BitVec 32)

/-- SYNC, which is in two classes, and the doubleword shifts, which no unit executes. -/
def rtypeStray : Bool :=
  match (funct insn).toNat with
  | 15 => true
  | 20 | 22 | 23 | 56 | 58 | 59 | 60 | 62 | 63 => rd insn != 0
  | _ => false

/-- The words whose uop does not reach a unit that executes it: besides those of the first major
opcode these are INS, the doubleword loads and stores, and in 64-bit FP register mode the moves and
the single loads and stores of coprocessor 1. -/
def stray (in64bFpregMode : Bool) : Bool :=
  match (opcode insn).toNat with
  | 0 => rtypeStray insn
  | 17 =>
    in64bFpregMode && (insn.extractLsb' 21 5 == 0#5 || insn.extractLsb' 21 5 == 4#5) &&
      insn.extractLsb' 0 11 == 0#11
  | 26 | 27 | 44 | 45 | 55 | 63 => true
  | 31 => funct insn == 4
  | 49 | 57 => in64bFpregMode
  | _ => false

/-- A uop before decode has filled it in. -/
structure Fresh (u : Uop) : Prop where
  op : u.op = .II
  isInt : u.isInt = false
  isMem : u.isMem = false
  isFp : u.isFp = false

variable {insn} {u : Uop}

/-- An operation of a class is folded, or its unit has a case for it. -/
def opOk (q : UopQueue) (op : Opcode) : Bool := Core.folds { op := op } || q.hasCase op

theorem classOk_int (hi : u.isInt = true) (hm : u.isMem = false) (hf : u.isFp = false) :
    classOk u = opOk .int u.op := by simp [classOk, hi, hm, hf, opOk, UopQueue.hasCase, Core.folds]

theorem classOk_mem (hi : u.isInt = false) (hm : u.isMem = true) (hf : u.isFp = false) :
    classOk u = opOk .mem u.op := by simp [classOk, hi, hm, hf, opOk, UopQueue.hasCase, Core.folds]

theorem classOk_fp (hi : u.isInt = false) (hm : u.isMem = false) (hf : u.isFp = true) :
    classOk u = opOk .fp u.op := by simp [classOk, hi, hm, hf, opOk, UopQueue.hasCase, Core.folds]

theorem classOk_fresh (h : Fresh u) : classOk u = true := by simp [classOk, Core.folds, h.op]

theorem classOk_rdOp (op : Opcode) (hm : u.isMem = false) (hf : u.isFp = false) :
    classOk (rdOp insn op u) = (rd insn == 0#6 || opOk .int op) := by
  refine (classOk_int (by rfl) (by exact hm) (by exact hf)).trans ?_
  unfold rdOp
  dsimp only
  by_cases h : rd insn = 0#6
  · simp only [h]
    rfl
  · simp [h]

theorem classOk_rtImm (op : Opcode) (hm : u.isMem = false) (hf : u.isFp = false)
    (ho : opOk .int op = true) : classOk (rtImm insn op u) = true := by
  refine (classOk_int (by rfl) (by exact hm) (by exact hf)).trans ?_
  unfold rtImm
  dsimp only
  split
  · rfl
  · exact ho

theorem rtype_classOk (h : Fresh u) (t : Word) :
    classOk (rtype insn t u) = !rtypeStray insn := by
  have hfresh := classOk_fresh h
  obtain ⟨ho, hi, hm, hf⟩ := h
  unfold rtype rtypeStray
  split <;> rename_i hfn <;> simp only [hfn, hiloOp, moveToHilo, indirect]
  case h_1 =>
    refine (classOk_int rfl (by exact hm) (by exact hf)).trans ?_
    dsimp only
    split <;> decide
  case h_2 =>
    split
    · exact (classOk_int rfl (by exact hm) (by exact hf)).trans (by dsimp only; decide)
    · refine (classOk_int rfl (by exact hm) (by exact hf)).trans ?_
      dsimp only
      split <;> decide
  case h_15 => simp [classOk, Core.folds] -- SYNC is in two classes
  case h_30 =>
    split <;> refine (classOk_rdOp _ (by exact hm) (by exact hf)).trans ?_ <;>
      rw [show opOk .int _ = true by decide] <;> simp
  case h_44 => exact hfresh
  all_goals first
    | (refine (classOk_rdOp _ (by exact hm) (by exact hf)).trans ?_
       first
         | (rw [show opOk .int _ = true by decide]; simp)
         | (rw [show opOk .int _ = false by decide]; simp [bne]))
    | exact (classOk_int rfl (by exact hm) (by exact hf)).trans (by dsimp only; decide)

theorem branchOne_classOk {op : Opcode} (l p : Bool) (hm : u.isMem = false) (hf : u.isFp = false)
    (ho : opOk .int op = true) : classOk (branchOne insn op l p u) = true :=
  (classOk_int (by rfl) (by exact hm) (by exact hf)).trans ho

theorem regimm_classOk (h : Fresh u) (p : Bool) : classOk (regimm insn p u) = true := by
  obtain ⟨ho, hi, hm, hf⟩ := h
  unfold regimm
  split
  case h_5 =>
    refine (classOk_int rfl (by exact hm) (by exact hf)).trans ?_
    dsimp only [branchOne]
    split <;> decide
  all_goals exact branchOne_classOk _ _ hm hf (by decide)

theorem coproc0_classOk (h : Fresh u) : classOk (coproc0 insn u) = true := by
  have hfresh := classOk_fresh h
  obtain ⟨ho, hi, hm, hf⟩ := h
  unfold coproc0
  split_ifs
  case neg =>
    split
    case h_3 => exact hfresh
    all_goals exact (classOk_int rfl (by exact hm) (by exact hf)).trans (by rfl)
  all_goals exact (classOk_int rfl (by exact hm) (by exact hf)).trans (by rfl)

theorem special2_classOk (h : Fresh u) : classOk (special2 insn u) = true := by
  have hfresh := classOk_fresh h
  obtain ⟨ho, hi, hm, hf⟩ := h
  unfold special2
  split
  case h_1 => exact (classOk_int rfl (by exact hm) (by exact hf)).trans (by rfl)
  case h_2 =>
    refine (classOk_rdOp _ (by exact hm) (by exact hf)).trans ?_
    rw [show opOk .int _ = true by decide, Bool.or_true]
  case h_3 => exact (classOk_int rfl (by exact hm) (by exact hf)).trans (by rfl)
  case h_4 =>
    refine (classOk_rdOp _ (by exact hm) (by exact hf)).trans ?_
    rw [show opOk .int _ = true by decide, Bool.or_true]
  case h_5 => exact hfresh

theorem special3_classOk (h : Fresh u) : classOk (special3 insn u) = !(funct insn == 4) := by
  have hfresh := classOk_fresh h
  obtain ⟨ho, hi, hm, hf⟩ := h
  have hne (n : ℕ) (hn : (funct insn).toNat = n) (h4 : n ≠ 4) : (!(funct insn == 4)) = true := by
    rw [Bool.not_eq_true', beq_eq_false_iff_ne]
    intro h
    rw [h] at hn
    exact h4 hn.symm
  unfold special3
  split
  case h_1 hfn =>
    rw [hne _ hfn (by decide)]
    exact (classOk_int rfl (by exact hm) (by exact hf)).trans (by dsimp only; decide)
  case h_2 hfn => -- INS has no case
    rw [show funct insn = 4 from BitVec.eq_of_toNat_eq hfn]
    exact (classOk_int rfl (by exact hm) (by exact hf)).trans (by rfl)
  case h_3 hfn =>
    rw [hne _ hfn (by decide)]
    refine (classOk_int rfl (by exact hm) (by exact hf)).trans ?_
    dsimp only
    split <;> rfl
  case h_4 hfn =>
    rw [hne _ hfn (by decide)]
    exact (classOk_int rfl (by exact hm) (by exact hf)).trans (by rfl)
  case h_5 h0 h4 _ _ =>
    rw [hfresh, eq_comm, Bool.not_eq_true', beq_eq_false_iff_ne]
    intro h
    exact h4 (by rw [h]; rfl)

/-- The floating-point operations of a format have a case. -/
theorem opOk_fmtOp (fmt : BitVec 5) {sp dp : Opcode} (h1 : opOk .fp sp = true)
    (h2 : opOk .fp dp = true) : opOk .fp (fmtOp fmt sp dp) = true := by
  unfold fmtOp
  split
  · exact h1
  · exact h2
  · rfl

theorem fpArith_classOk (m : Bool) {sp dp : Opcode} (hi : u.isInt = false) (hm : u.isMem = false)
    (h1 : opOk .fp sp = true) (h2 : opOk .fp dp = true) :
    classOk (fpArith insn m sp dp u) = true := by
  unfold fpArith
  dsimp only
  split <;>
    exact (classOk_fp (by exact hi) (by exact hm) (by rfl)).trans (opOk_fmtOp _ h1 h2)

theorem fpCompare_classOk (m : Bool) {sp dp : Opcode} (hi : u.isInt = false) (hm : u.isMem = false)
    (h1 : opOk .fp sp = true) (h2 : opOk .fp dp = true) :
    classOk (fpCompare insn m sp dp u) = true := by
  unfold fpCompare
  dsimp only
  split <;>
    exact (classOk_fp (by exact hi) (by exact hm) (by rfl)).trans (opOk_fmtOp _ h1 h2)

theorem fpOps_classOk (h : Fresh u) (m : Bool) : classOk (fpOps insn m u) = true := by
  have hfresh := classOk_fresh h
  obtain ⟨ho, hi, hm, hf⟩ := h
  unfold fpOps
  split
  case h_1 | h_2 | h_3 | h_4 => exact fpArith_classOk m hi hm (by decide) (by decide)
  case h_5 =>
    dsimp only
    split <;>
      exact (classOk_fp (by exact hi) (by exact hm) (by rfl)).trans
        (opOk_fmtOp _ (by decide) (by decide))
  case h_6 =>
    exact (classOk_fp (by exact hi) (by exact hm) (by rfl)).trans
      (opOk_fmtOp _ (by decide) (by decide))
  case h_7 =>
    dsimp only
    split <;>
      exact (classOk_fp (by exact hi) (by exact hm) (by rfl)).trans
        (opOk_fmtOp _ (by decide) (by decide))
  case h_8 =>
    refine (classOk_fp (by exact hi) (by exact hm) rfl).trans ?_
    dsimp only
    split_ifs <;> rfl
  case h_9 =>
    dsimp only
    split <;> refine (classOk_fp (by exact hi) (by exact hm) (by rfl)).trans ?_ <;>
      dsimp only <;> split_ifs <;> rfl
  case h_10 =>
    refine (classOk_fp (by exact hi) (by exact hm) (by rfl)).trans ?_
    dsimp only
    split_ifs <;> rfl
  case h_11 | h_12 | h_13 => exact fpCompare_classOk m hi hm (by decide) (by decide)
  case h_14 => exact hfresh

theorem coproc1_classOk (h : Fresh u) (m p : Bool) :
    classOk (coproc1 insn m p u) =
      !(m && (insn.extractLsb' 21 5 == 0#5 || insn.extractLsb' 21 5 == 4#5) &&
        insn.extractLsb' 0 11 == 0#11) := by
  have hops := @fpOps_classOk insn u h m
  obtain ⟨ho, hi, hm, hf⟩ := h
  unfold coproc1
  by_cases h8 : insn.extractLsb' 21 5 = 8#5
  · rw [if_pos h8, h8]
    refine (classOk_int rfl (by exact hm) (by exact hf)).trans ?_
    dsimp only [fpBranch]
    split <;> simp <;> rfl
  rw [if_neg h8]
  by_cases h0 : insn.extractLsb' 21 5 = 0#5 ∧ insn.extractLsb' 0 11 = 0#11
  · rw [if_pos h0, h0.1, h0.2]
    refine (classOk_mem (by cases m <;> exact hi) (by cases m <;> rfl) (by cases m <;> exact hf)).trans ?_
    cases m with
    | false => exact show opOk .mem .MFC1_MERGE = true by decide
    | true => exact show opOk .mem .MFC1 = false by decide
  rw [if_neg h0]
  by_cases h4 : insn.extractLsb' 21 5 = 4#5 ∧ insn.extractLsb' 0 11 = 0#11
  · rw [if_pos h4, h4.1, h4.2]
    refine (classOk_mem (by cases m <;> exact hi) (by cases m <;> rfl) (by cases m <;> exact hf)).trans ?_
    cases m with
    | false => exact show opOk .mem .MTC1_MERGE = true by decide
    | true => exact show opOk .mem .MTC1 = false by decide
  · rw [if_neg h4, hops]
    simp only [Bool.eq_not_iff, ne_eq]
    simp only [Bool.true_eq, Bool.and_eq_true, Bool.or_eq_true, beq_iff_eq]
    rintro ⟨⟨-, hc | hc⟩, hl⟩
    · exact h0 ⟨hc, hl⟩
    · exact h4 ⟨hc, hl⟩

theorem load_classOk (op : Opcode) (hi : u.isInt = false) (hf : u.isFp = false) :
    classOk (load insn op u) = opOk .mem op := classOk_mem (by exact hi) (by rfl) (by exact hf)

theorem loadMerge_classOk (op : Opcode) (hi : u.isInt = false) (hf : u.isFp = false) :
    classOk (loadMerge insn op u) = opOk .mem op := load_classOk op (by exact hi) (by exact hf)

theorem store_classOk (op : Opcode) (hi : u.isInt = false) (hf : u.isFp = false) :
    classOk (store insn op u) = opOk .mem op := classOk_mem (by exact hi) (by rfl) (by exact hf)

theorem majorOp_classOk (h : Fresh u) (m p : Bool) (t : Word) :
    classOk (majorOp insn m p t u) = !stray insn m := by
  have hfresh := classOk_fresh h
  obtain ⟨ho, hi, hm, hf⟩ := id h
  unfold majorOp stray
  split <;> rename_i hop <;> simp only [hop]
  case h_1 => exact rtype_classOk h t
  case h_2 => exact regimm_classOk h p
  case h_3 => exact (classOk_int rfl (by exact hm) (by exact hf)).trans (by rfl)
  case h_4 =>
    exact (classOk_int rfl (by exact hm) (by exact hf)).trans (show opOk .int .JAL = true by decide)
  case h_5 | h_6 | h_18 | h_19 => exact branchOne_classOk _ _ (by exact hm) (by exact hf) (by decide)
  case h_7 | h_8 | h_20 | h_21 => exact branchOne_classOk _ _ hm hf (by decide)
  case h_9 =>
    split
    · exact classOk_rtImm _ hm hf (by decide)
    · exact classOk_rtImm _ (by exact hm) (by exact hf) (by decide)
  case h_10 | h_11 | h_12 | h_13 | h_14 | h_22 =>
    exact classOk_rtImm _ (by exact hm) (by exact hf) (by decide)
  case h_15 => exact classOk_rtImm _ hm hf (by decide)
  case h_16 => exact coproc0_classOk h
  case h_17 => exact coproc1_classOk h m p
  case h_25 => exact special2_classOk h
  case h_26 => exact special3_classOk h
  case h_42 =>
    refine (classOk_mem (by cases m <;> exact hi) (by cases m <;> rfl) (by cases m <;> exact hf)).trans ?_
    cases m with
    | false => exact show opOk .mem .LWC1_MERGE = true by decide
    | true => exact show opOk .mem .LWC1 = false by decide
  case h_43 => exact (classOk_int rfl (by exact hm) (by exact hf)).trans (by rfl)
  case h_44 =>
    exact (classOk_mem (by exact hi) rfl (by exact hf)).trans (show opOk .mem .LDC1 = true by decide)
  case h_46 =>
    refine (classOk_mem (by cases m <;> exact hi) (by cases m <;> rfl) (by cases m <;> exact hf)).trans ?_
    cases m with
    | false => exact show opOk .mem .SWC1_MERGE = true by decide
    | true => exact show opOk .mem .SWC1 = false by decide
  case h_47 =>
    exact (classOk_mem (by exact hi) rfl (by exact hf)).trans (show opOk .mem .SDC1 = true by decide)
  case h_49 => exact hfresh
  case h_23 =>
    exact (classOk_mem (by exact hi) rfl (by exact hf)).trans (show opOk .mem .LDL = false by decide)
  case h_24 =>
    exact (classOk_mem (by exact hi) rfl (by exact hf)).trans (show opOk .mem .LDR = false by decide)
  all_goals first
    | exact (load_classOk _ hi hf).trans (by decide)
    | exact (loadMerge_classOk _ hi hf).trans (by decide)
    | exact (store_classOk _ hi hf).trans (by decide)

end Decode

end MipsCore
