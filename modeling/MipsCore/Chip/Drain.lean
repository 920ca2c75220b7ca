import MipsCore.Chip.ZeroReg
import Mathlib.Data.List.Cycle

/-! # The data cache behind an exception

An exception raises a flush of the data cache, which waits for the miss queue to empty.
A store leaves the queue once it has graduated, or when a drain discards it, and the
exception path does neither for the stores behind the faulting instruction.
-/
namespace MipsCore

namespace Core
variable {s : Core} {i : CoreIn}

/-- The states from the dispatch of an exception to the end of the halt. -/
def inException : CoreFsm → Bool
  | .WRITE_BADVADDR | .WRITE_EPC | .WRITE_CAUSE | .FLUSH_FOR_HALT | .HALT => true
  | _ => false

/-- The cycle dispatches an exception. -/
def dispatches (s : Core) (i : CoreIn) : Bool := !inException s.state && inException (s.nextState i)

/-- The entry of the slot retires in the cycle. -/
def retiresSlot (s : Core) (i : CoreIn) (p : RobPtr) : Bool :=
  s.retires i && Ring.slot s.robHeadPtr == p || s.retiresTwo && Ring.slot s.robNextHeadPtr == p

/-- Only a fault at the head leads to the exception states, and nothing is allocated with it. -/
theorem allocates_exception (h : inException (s.nextState i) = true) : s.allocates i = false := by
  cases hs : s.state with
  | ACTIVE =>
    simp only [nextState, hs, activeState] at h
    cases hirq : s.takesIrq with
    | true => simp [allocates, hs, offersAlloc, hirq]
    | false =>
      simp only [hirq, Bool.false_eq_true, if_false] at h
      split_ifs at h with h1 h2 h3
      · simp [allocates, hs, offersAlloc, h1, h2]
      · cases h
      · unfold serialState at h
        split_ifs at h <;> cases h
      · cases h
  | ALLOC_FOR_SERIALIZE =>
    simp only [nextState, hs] at h
    split_ifs at h <;> cases h
  | ALLOC_FOR_MONITOR =>
    simp only [nextState, hs] at h
    cases h
  | _ => simp [allocates, hs]

theorem not_pushed_exception {p : Pipeline} {i : PipelineIn} {cls : Uop → Bool}
    (h : inException (p.core.nextState (p.coreIn i)) = true) : Exec.pushed (p.toExec i) cls = [] := by
  rw [List.eq_nil_iff_forall_not_mem]
  intro u hu
  have ha := allocates_exception h
  rcases Pipeline.mem_pushed_cases hu with ⟨h1, -⟩ | ⟨h2, -⟩
  · rw [ha] at h1
    cases h1
  · rw [(allocatesTwo_allocates h2).1] at ha
    cases ha

end Core

namespace Exec
variable {e : Exec} {i : ExecIn}

/-- The operations that send a store to the data cache. -/
def storesMem : Opcode → Bool
  | .SB | .SH | .SW | .SWL | .SWR | .SC | .SDC1 | .SWC1_MERGE => true
  | _ => false

theorem headIssue_isStore (h : e.headIssue.tail.isStore = true) :
    storesMem e.memUqHead.op = true := by
  have hmem : ∀ (b : Bool) (r : MemReq), (e.memIssue b r).tail.isStore = true → r.isStore = true := by
    intro b r hr
    unfold memIssue at hr
    split_ifs at hr
    · cases hr
    · exact hr
  unfold headIssue at h
  split at h <;> rename_i hop <;> first
    | (rw [hop]; rfl)
    | exact absurd (hmem _ _ h) Bool.false_ne_true
    | (split_ifs at h <;> cases h)
    | cases h

end Exec

namespace Chip
open MipsCore.Core Exec Clocked
variable {c : Chip} {i : ChipIn}

/-- No store between the decode queue and the array waits for its retirement. -/
structure StoresRetired (c : Chip) : Prop where
  memUq : ∀ u ∈ c.pipe.exec.memUqWindow, storesMem u.op = false
  memQ : ∀ r ∈ c.pipe.exec.memQWindow, r.isStore = false
  port2 : c.l1d.gotReq2 = true → c.l1d.req2.isStore = false
  graduated : ∀ p, c.l1d.graduated p = 1 → L1d.strobes (c.l1dIn {}) p = true

/-- An exception is dispatched only when every store has retired. -/
def DispatchesRetired (c : Chip) (i : ChipIn) : Prop :=
  c.pipe.core.dispatches (c.pipe.coreIn (c.pipeIn i)) = true → c.StoresRetired

instance : Decidable c.StoresRetired :=
  decidable_of_iff ((∀ u ∈ c.pipe.exec.memUqWindow, storesMem u.op = false) ∧
      (∀ r ∈ c.pipe.exec.memQWindow, r.isStore = false) ∧
      (c.l1d.gotReq2 = true → c.l1d.req2.isStore = false) ∧
      ∀ p, c.l1d.graduated p = 1 → L1d.strobes (c.l1dIn {}) p = true)
    ⟨fun ⟨h1, h2, h3, h4⟩ => ⟨h1, h2, h3, h4⟩, fun h => ⟨h.1, h.2, h.3, h.4⟩⟩

instance : Decidable (DispatchesRetired c i) := inferInstanceAs (Decidable (_ → _))

/-- A slot waits for its retirement when it did and was not named, or when a store comes to it. -/
theorem graduated_waits {p : RobPtr} (h : (c.step i).l1d.graduated p = 1) :
    c.l1d.graduated p = 1 ∧ L1d.strobes (c.l1dIn i) p = false ∨
      c.l1d.gotReq2 = true ∧ c.l1d.req2.isStore = true := by
  have hstep : (c.step i).l1d.graduated = c.l1d.nGraduated (c.l1dIn i) := rfl
  rw [hstep, L1d.nGraduated_apply] at h
  split_ifs at h with h1 h2 h3 h4
  · cases h
  · cases h
  · simp only [L1d.tIncrBusy, L1d.looksUp2, L1d.serves2, Bool.and_eq_true] at h3
    exact Or.inr ⟨h3.1.1.1.1.1.2, h3.1.2⟩
  · cases h
  · exact Or.inl ⟨h, by simpa [h] using h4⟩

/-- In a cycle of an exception, or the one that dispatches it, no store comes closer to the cache. -/
theorem storesRetired_step (hq : c.pipe.exec.QueuesOk) (hf : c.pipe.exec.MqFits)
    (hx : inException (c.pipe.core.nextState (c.pipe.coreIn (c.pipeIn i))) = true)
    (h : c.StoresRetired) : (c.step i).StoresRetired ∧ ∀ p, (c.step i).l1d.graduated p ≠ 1 := by
  have hgrad : ∀ p, (c.step i).l1d.graduated p ≠ 1 := by
    intro p hp
    rcases graduated_waits hp with ⟨hw, hs⟩ | ⟨hg, hs⟩
    · have hn : L1d.strobes (c.l1dIn i) p = true := h.graduated p hw
      rw [hs] at hn
      cases hn
    · rw [h.port2 hg] at hs
      cases hs
  refine ⟨⟨?_, ?_, ?_, fun p hp => absurd hp (hgrad p)⟩, hgrad⟩
  · intro u hu
    rcases mem_memUqWindow_step hq Pipeline.offered hu with hu | hu
    · exact h.memUq u hu
    · rw [not_pushed_exception hx] at hu
      cases hu
  · intro r hr
    have hack : (c.pipe.toExec (c.pipeIn i)).memReqAck = true → c.pipe.exec.memReqValid = true :=
      fun ha => (L1d.coreMemReqAck_accepts ha).1
    rcases (step_memQ hf hack).2 r hr with hr | ⟨hne, rfl⟩
    · exact h.memQ r hr
    · cases hs : c.pipe.exec.headIssue.tail.isStore with
      | false => rfl
      | true =>
        have hop := h.memUq _ (memUqHead_mem hne)
        rw [headIssue_isStore hs] at hop
        cases hop
  · intro hg
    obtain ⟨hv, hr⟩ := L1d.coreMemReqAck_accepts (show c.l1d.coreMemReqAck (c.l1dIn i) = true from hg)
    change (c.l1d.nReq2 (c.l1dIn i)).isStore = false
    rw [hr]
    exact h.memQ _ (memReq_mem hv)

/-- While an exception is being taken no store waits for its retirement. -/
structure DrainInv (c : Chip) : Prop where
  queues : c.pipe.exec.QueuesOk
  fits : c.pipe.exec.MqFits
  settled : inException c.pipe.core.state = true →
    c.StoresRetired ∧ ∀ p, c.l1d.graduated p ≠ 1

theorem reset_drainInv (rob : RobPtr → RobEntry) (dq : BitVec 2 → Uop) (m : ExecInit)
    (d : L1dInit) : (reset rob dq m d).DrainInv where
  queues := reset_queuesOk m
  fits := (reset_memQ m).1
  settled _ := by
    have hgrad : ∀ p, (reset rob dq m d).l1d.graduated p ≠ 1 := by
      intro p h
      cases h
    refine ⟨⟨?_, ?_, ?_, fun p hp => absurd hp (hgrad p)⟩, hgrad⟩
    · simp [reset, Pipeline.reset, memUqWindow, Exec.reset, Ring.contents]
    · simp [reset, Pipeline.reset, (reset_memQ m).2]
    · intro h
      cases h

theorem step_drainInv (h : c.DrainInv) (hg : DispatchesRetired c i) : (c.step i).DrainInv where
  queues := step_queuesOk h.queues Pipeline.offered
  fits := (step_memQ h.fits fun ha => (L1d.coreMemReqAck_accepts ha).1).1
  settled hx := by
    have hx : inException (c.pipe.core.nextState (c.pipe.coreIn (c.pipeIn i))) = true := by
      rw [← step_state]
      exact hx
    refine storesRetired_step h.queues h.fits hx ?_
    cases hs : inException c.pipe.core.state with
    | true => exact (h.settled hs).1
    | false => exact hg (by rw [dispatches, hs, hx]; rfl)

/-- The core waits in an exception for the data cache, whose miss queue holds at its head a store
that has not graduated and never will. -/
structure Stranded (c : Chip) : Prop where
  halted : c.pipe.core.state = .FLUSH_FOR_HALT ∨ c.pipe.core.state = .HALT
  dsDone : c.pipe.core.dsDone = false
  queued : c.l1d.memQEmpty = false
  store : c.l1d.tMemHead.isStore = true
  waits : c.l1d.graduated c.l1d.tMemHead.robPtr = 1
  never : ∀ (inputs : List ChipIn) (i : CoreIn),
    (run step c inputs).pipe.core.retiresSlot i c.l1d.tMemHead.robPtr = false

/-- In every run from reset whose exceptions are dispatched when every store has retired, no store
is stranded in the miss queue. -/
theorem guarded_not_stranded (rob : RobPtr → RobEntry) (dq : BitVec 2 → Uop) (m : ExecInit)
    (d : L1dInit) (inputs : List ChipIn)
    (hg : Guarded step DispatchesRetired (reset rob dq m d) inputs) :
    ¬(run step (reset rob dq m d) inputs).Stranded := by
  intro hs
  have hinv := hg.invariant (fun _ _ h hi => step_drainInv h hi) (reset_drainInv rob dq m d)
  have hx : inException (run step (reset rob dq m d) inputs).pipe.core.state = true := by
    rcases hs.halted with h | h <;> rw [h] <;> rfl
  exact (hinv.settled hx).2 _ hs.waits

/-! ## A store behind an illegal instruction -/

/-- The flush waits for the queue, and the store at its head waits for a retirement or a drain. -/
structure Wedged (c : Chip) : Prop where
  halted : c.pipe.core.state = .FLUSH_FOR_HALT
  dsDone : c.pipe.core.dsDone = false
  drain : c.pipe.core.drainDsComplete = false
  retired : c.pipe.core.retiredRobPtrValid = false
  retiredTwo : c.pipe.core.retiredRobPtrTwoValid = false
  unflushed : c.pipe.core.l1dFlushComplete = false
  flushing : c.l1d.flushComplete = false
  serving : c.l1d.state = .ACTIVE ∨ c.l1d.state = .INJECT_RELOAD ∨ c.l1d.state = .WAIT_INJECT_RELOAD ∨
    c.l1d.state = .HANDLE_RELOAD
  room : c.l1d.MqRoom
  queued : c.l1d.memQEmpty = false
  store : c.l1d.tMemHead.isStore = true
  waits : c.l1d.graduated c.l1d.tMemHead.robPtr = 1
  other : c.l1d.req.isStore = true → c.l1d.req.robPtr ≠ c.l1d.tMemHead.robPtr

/-- The core neither retires nor halts. -/
theorem Wedged.core (h : c.Wedged) :
    (c.step i).pipe.core.state = .FLUSH_FOR_HALT ∧ (c.step i).pipe.core.dsDone = false ∧
      (c.step i).pipe.core.drainDsComplete = false ∧
      (c.step i).pipe.core.retiredRobPtrValid = false ∧
      (c.step i).pipe.core.retiredRobPtrTwoValid = false ∧
      (c.step i).pipe.core.l1dFlushComplete = false := by
  have hflush : (c.pipe.coreIn (c.pipeIn i)).l1dFlushComplete = false := h.flushing
  have hfl : c.pipe.core.flushed (c.pipe.coreIn (c.pipeIn i)) = false := by
    simp [flushed, h.unflushed, hflush]
  refine ⟨?_, ?_, h.dsDone, ?_, ?_, ?_⟩
  · refine (step_state _ _).trans ?_
    simp [nextState, h.halted, hfl]
  · refine (step_dsDone _ _).trans ?_
    simp [nextDsDone, h.halted, h.dsDone]
  · refine (comb_tRetire _ _).trans ?_
    simp [retires, h.halted]
  · refine (comb_tRetireTwo _ _).trans ?_
    simp [retiresTwo, h.halted]
  · change (c.pipe.core.comb (c.pipe.coreIn (c.pipeIn i))).nL1dFlushComplete = false
    rw [comb, withDelaySlot_l1dFlush, combState, h.halted]
    simp only [combFlushForHalt]
    split_ifs <;> simp [combDefault, h.unflushed, hflush]

/-- The queue is not popped. -/
theorem Wedged.notPopped (h : c.Wedged) :
    c.l1d.fires = false ∧ c.l1d.tForceClearBusy (c.l1dIn i) = false := by
  have hd : (c.l1dIn i).drainDsComplete = false := h.drain
  refine ⟨?_, by simp [L1d.tForceClearBusy, hd]⟩
  simp [L1d.fires, L1d.firesStore, L1d.firesLoad, h.store, h.waits]

/-- The head stays where it is, whatever is queued behind it. -/
theorem Wedged.head (h : c.Wedged) :
    (c.step i).l1d.memQEmpty = false ∧ (c.step i).l1d.tMemHead = c.l1d.tMemHead := by
  obtain ⟨hfires, hforce⟩ := h.notPopped (i := i)
  have hpop : c.l1d.tPopMq (c.l1dIn i) = false := by simp [L1d.tPopMq, hfires, hforce]
  obtain ⟨rest, hw⟩ := L1d.tMemHead_cons h.queued
  have hwin := L1d.step_mqWindow (i := c.l1dIn i) h.room
  rw [hpop, hw, Bool.toNat_false, List.drop_zero, List.cons_append] at hwin
  have hne : (c.step i).l1d.memQEmpty = false := by
    cases he : (c.step i).l1d.memQEmpty with
    | false => rfl
    | true =>
      have hlen := congrArg List.length hwin
      rw [L1d.length_mqWindow] at hlen
      have hz : (c.l1d.step (c.l1dIn i)).mqCount = 0 := Ring.count_eq_zero.mpr (beq_iff_eq.mp he)
      rw [hz, List.length_cons] at hlen
      omega
  obtain ⟨rest', hw'⟩ := L1d.tMemHead_cons hne
  exact ⟨hne, (List.cons.inj (hw'.symm.trans hwin)).1⟩

theorem Wedged.step (h : c.Wedged) : (c.step i).Wedged := by
  obtain ⟨hstate, hds, hdrain, hret, hret2, hfl⟩ := h.core (i := i)
  obtain ⟨hfires, hforce⟩ := h.notPopped (i := i)
  obtain ⟨hne, hhead⟩ := h.head (i := i)
  have hreq : (c.step i).l1d.req = c.l1d.req := if_neg (by simp [hfires])
  have hnf : c.l1d.flushes (c.l1dIn i) = false := by simp [L1d.flushes, L1d.mayFlush, h.queued]
  have hnc : c.l1d.flushesCl (c.l1dIn i) = false := by simp [L1d.flushesCl, L1d.mayFlush, h.queued]
  have hns : (c.step i).l1d.state = c.l1d.nState (c.l1dIn i) := rfl
  refine ⟨hstate, hds, hdrain, hret, hret2, hfl, ?_, ?_, L1d.step_mqRoom h.room, hne, ?_, ?_, ?_⟩
  · change c.l1d.nFlushComplete (c.l1dIn i) = false
    rcases h.serving with hs | hs | hs | hs <;> simp [L1d.nFlushComplete, hs]
  · rw [hns]
    rcases h.serving with hs | hs | hs | hs <;> simp only [L1d.nState, hs]
    · simp only [hnf, hnc, Bool.false_eq_true, if_false]
      split_ifs <;> simp
    · split_ifs <;> simp
    · simp
    · simp
  · rw [hhead]
    exact h.store
  · rw [hhead]
    change c.l1d.nGraduated (c.l1dIn i) c.l1d.tMemHead.robPtr = 1
    have hstrobe : L1d.strobes (c.l1dIn i) c.l1d.tMemHead.robPtr = false := by
      have h1 : (c.l1dIn i).retiredRobPtrValid = false := h.retired
      have h2 : (c.l1dIn i).retiredRobPtrTwoValid = false := h.retiredTwo
      simp [L1d.strobes, h1, h2]
    have hreset : ¬(c.l1d.tResetGraduated = true ∧ c.l1d.tMemHead.robPtr = c.l1d.req.robPtr) := by
      rintro ⟨hr, he⟩
      simp only [L1d.tResetGraduated, Bool.and_eq_true] at hr
      exact h.other hr.2 he.symm
    rw [L1d.nGraduated_apply, hforce, hstrobe, if_neg (by simp), if_neg hreset]
    split_ifs with h3 h4
    · rfl
    · simp at h4
    · exact h.waits
  · rw [hhead, hreq]
    exact h.other

theorem Wedged.run (h : c.Wedged) (inputs : List ChipIn) :
    (Clocked.run Chip.step c inputs).Wedged :=
  @run_invariant _ _ Chip.step _ (fun _ _ hw => Wedged.step hw) _ h inputs

theorem Wedged.stranded (h : c.Wedged) : c.Stranded where
  halted := Or.inl h.halted
  dsDone := h.dsDone
  queued := h.queued
  store := h.store
  waits := h.waits
  never inputs i := by simp [retiresSlot, retires, retiresTwo, (h.run inputs).halted]

/-- The flush that the exception asked for is never accepted. -/
theorem Wedged.not_flushes (h : c.Wedged) (inputs : List ChipIn) (i : L1dIn) :
    (Clocked.run Chip.step c inputs).l1d.flushes i = false := by
  simp [L1d.flushes, L1d.mayFlush, (h.run inputs).queued]

/-- `lw $1, 0($0)`, a miss that memory answers after some cycles, then `insn` and
`sw $2, 64($0)`. -/
def faultRun (insn store : BitVec 32) : List ChipIn :=
  [{ outside := { resume := true } }, { outside := { restartAck := true } }, fetch 0x8c010000#32,
    fetch insn, fetch store] ++ (List.replicate 6 {} : List ChipIn) ++ [{ memRspValid := true }] ++
    (List.replicate 7 {} : List ChipIn)

/-- A load behind the illegal instruction. -/
theorem guarded_not_stranded_lw :
    ¬(Clocked.run step (reset (fun _ => {}) (fun _ => {}) {} {})
      (faultRun 0xec000000#32 0x8c020040#32)).Stranded :=
  guarded_not_stranded _ _ _ _ _ (by rw [step_eval]; decide +kernel)

theorem run_mqRoom (d : L1dInit) (rob : RobPtr → RobEntry) (dq : BitVec 2 → Uop) (m : ExecInit)
    (inputs : List ChipIn) : (Clocked.run step (reset rob dq m d) inputs).l1d.MqRoom :=
  @run_invariant _ _ step (fun c => c.l1d.MqRoom) (fun _ _ h => L1d.step_mqRoom h) _
    (L1d.reset_mqRoom d) inputs

/-- A store behind the illegal instruction is never retired, and the core never halts. -/
theorem exists_stranded :
    ¬∀ (rob : RobPtr → RobEntry) (dq : BitVec 2 → Uop) (m : ExecInit) (d : L1dInit)
      (inputs : List ChipIn), ¬(Clocked.run step (reset rob dq m d) inputs).Stranded := by
  intro h
  have hs := h (fun _ => {}) (fun _ => {}) {} {} (faultRun 0xec000000#32 0xac020040#32)
  have hroom := run_mqRoom {} (fun _ => {}) (fun _ => {}) {} (faultRun 0xec000000#32 0xac020040#32)
  have hw : ∀ c : Chip, c.l1d.MqRoom →
      ((c.pipe.core.state == .FLUSH_FOR_HALT && !c.pipe.core.dsDone &&
        !c.pipe.core.drainDsComplete && !c.pipe.core.retiredRobPtrValid &&
        !c.pipe.core.retiredRobPtrTwoValid && !c.pipe.core.l1dFlushComplete) &&
        (!c.l1d.flushComplete && c.l1d.state == .ACTIVE && !c.l1d.memQEmpty &&
          c.l1d.tMemHead.isStore && c.l1d.graduated c.l1d.tMemHead.robPtr == 1 &&
          !c.l1d.req.isStore)) = true → c.Wedged := by
    intro c hroom hc
    simp only [Bool.and_eq_true, Bool.not_eq_true', beq_iff_eq] at hc
    obtain ⟨⟨⟨⟨⟨⟨h1, h2⟩, h3⟩, h4⟩, h5⟩, h6⟩, ⟨⟨⟨⟨h7, h8⟩, h9⟩, h10⟩, h11⟩, h12⟩ := hc
    exact ⟨h1, h2, h3, h4, h5, h6, h7, Or.inl h8, hroom, h9, h10, h11, fun hr => by simp [h12] at hr⟩
  refine hs (hw _ hroom ?_).stranded
  rw [step_eval]
  decide +kernel

end Chip
end MipsCore
