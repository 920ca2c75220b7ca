import MipsCore.Core.Step

/-! # What a cycle of the core can do

Closed forms of the strobes of the next-state block: which states allocate,
retire, flush and copy the maps, and under which conditions.  Everything proved
about the pointers, the maps and the free lists starts from these equations.
-/
namespace MipsCore
namespace Core
variable (s : Core) (i : CoreIn)

/-- An external interrupt is taken in `ACTIVE` before anything else. -/
def takesIrq : Bool := s.externIrq && !s.tRobEmpty && !s.tRobHead.inDelaySlot

/-- `ACTIVE` reaches the retirement branch. -/
def retiresActive : Bool := !s.takesIrq && s.tCanRetireRobHead

/-- `ACTIVE` offers the decode queue's head to allocation. -/
def offersAlloc : Bool :=
  !s.takesIrq && !(s.tCanRetireRobHead && s.tRobHead.faulted) && !s.tDqEmpty &&
    !s.tUop.serializingOp

def allocates : Bool :=
  match s.state with
  | .ACTIVE => s.offersAlloc && canAlloc s i
  | .ALLOC_FOR_SERIALIZE => canAllocSerial s i
  | .ALLOC_FOR_MONITOR => canAllocSerial s i
  | _ => false

def allocatesTwo : Bool := s.state == .ACTIVE && s.offersAlloc && canAllocTwo s i

/-- The restart acknowledgement as the waiting states see it. -/
def gotAck : Bool := (combDefault s i).nGotRestartAck

def retires : Bool :=
  match s.state with
  | .ACTIVE => s.retiresActive
  | .DRAIN =>
    s.tRobHeadComplete && !s.dsDone &&
      if s.hasNullifyingDelaySlot then s.takeBr else s.hasDelaySlot
  | .WAIT_FOR_MONITOR => s.tRobHeadComplete && s.gotAck i
  | _ => false

def retiresTwo : Bool := s.state == .ACTIVE && s.retiresActive && canRetireTwo s
def bumps : Bool := s.state == .ACTIVE && s.retiresActive && s.tRobHead.faulted
def flushes : Bool := s.state == .RAT

def clearsQueue : Bool :=
  match s.state with
  | .RAT => true
  | .WAIT_FOR_SERIALIZE_AND_RESTART => s.tRobHeadComplete
  | .WAIT_FOR_MONITOR => s.tRobHeadComplete
  | .HALT => i.resume
  | _ => false

/-- Where a faulted head sends `ACTIVE`. -/
def faultState : CoreFsm :=
  if s.tRobHead.isEret then .ACTIVE
  else if s.tRobHead.isWait then if i.cpr0StatusReg.getLsbD 0 then .ARCH_WAIT else .WRITE_EPC
  else if s.tRobHead.isBreak || s.tRobHead.isIi || s.tRobHead.takeTrap then .WRITE_EPC
  else if s.tRobHead.exceptionTlbRefill then .WRITE_BADVADDR
  else if s.tRobHead.exceptionTlbModified || s.tRobHead.exceptionTlbInvalid then .ACTIVE
  else .DRAIN

/-- Where a serializing uop sends `ACTIVE`. -/
def serialState : CoreFsm :=
  if s.tUop.op = .MONITOR then
    if s.tUop.imm = 50 then .HANDLE_MONITOR
    else if s.tUop.imm = 52 then .MONITOR_FLUSH_CACHE
    else if s.tUop.imm = 53 then .HANDLE_MONITOR
    else .MONITOR_FLUSH_CACHE
  else if s.tUop.op = .SYSCALL then .MONITOR_FLUSH_CACHE
  else .ALLOC_FOR_SERIALIZE

def activeState : CoreFsm :=
  if s.takesIrq then .EXCEPTION_DRAIN
  else if s.tCanRetireRobHead then if s.tRobHead.faulted then s.faultState i else .ACTIVE
  else if !s.tDqEmpty && s.tUop.serializingOp && s.tRobEmpty then s.serialState
  else .ACTIVE

def drained : Bool := s.robInflight == 0 && i.memqEmpty && i.divideReady

def flushed : Bool :=
  (s.l1iFlushComplete || i.l1iFlushComplete) && (s.l1dFlushComplete || i.l1dFlushComplete)

def nextState : CoreFsm :=
  match s.state with
  | .ACTIVE => s.activeState i
  | .DRAIN => if s.drained i && s.dsDone then .RAT else .DRAIN
  | .EXCEPTION_DRAIN => if s.drained i then .RAT else .EXCEPTION_DRAIN
  | .RAT => if s.gotAck i then .ACTIVE else .RAT
  | .ALLOC_FOR_SERIALIZE =>
    if canAllocSerial s i then .WAIT_FOR_SERIALIZE_AND_RESTART else .ALLOC_FOR_SERIALIZE
  | .WAIT_FOR_SERIALIZE_AND_RESTART =>
    if s.tRobHeadComplete && s.gotAck i then .ACTIVE else .WAIT_FOR_SERIALIZE_AND_RESTART
  | .MONITOR_FLUSH_CACHE => if s.flushed i then .HANDLE_MONITOR else .MONITOR_FLUSH_CACHE
  | .HANDLE_MONITOR => if i.monitorRspValid then .ALLOC_FOR_MONITOR else .HANDLE_MONITOR
  | .ALLOC_FOR_MONITOR => .WAIT_FOR_MONITOR
  | .WAIT_FOR_MONITOR => if s.tRobHeadComplete && s.gotAck i then .ACTIVE else .WAIT_FOR_MONITOR
  | .FLUSH_FOR_HALT => if s.flushed i then .HALT else .FLUSH_FOR_HALT
  | .HALT => if i.resume then .HALT_WAIT_FOR_RESTART else .HALT
  | .HALT_WAIT_FOR_RESTART => if s.gotAck i then .ACTIVE else .HALT_WAIT_FOR_RESTART
  | .WRITE_EPC => .WRITE_CAUSE
  | .WRITE_CAUSE => .FLUSH_FOR_HALT
  | .WRITE_BADVADDR => .WRITE_EPC
  | .ARCH_WAIT => .ARCH_WAIT
  | .DELAY_SLOT => .DELAY_SLOT

/-- The delay slot of a drain is done: retired, nullified, or absent. -/
def nextDsDone : Bool :=
  match s.state with
  | .ACTIVE =>
    if s.takesIrq then true
    else if s.tCanRetireRobHead && s.tRobHead.faulted && s.faultState i == .DRAIN then
      !s.tRobHead.hasDelaySlot
    else s.dsDone
  | .DRAIN => s.dsDone || s.tRobHeadComplete && (s.hasNullifyingDelaySlot || s.hasDelaySlot)
  | .RAT => !s.gotAck i && s.dsDone
  | _ => s.dsDone

/-! ## Frames of the shared blocks -/

section Frames
variable (c : Comb)

@[simp] theorem withDelaySlot_tAlloc : (withDelaySlot s c).tAlloc = c.tAlloc := by
  unfold withDelaySlot; split_ifs <;> rfl
@[simp] theorem withDelaySlot_tAllocTwo : (withDelaySlot s c).tAllocTwo = c.tAllocTwo := by
  unfold withDelaySlot; split_ifs <;> rfl
@[simp] theorem withDelaySlot_tRetire : (withDelaySlot s c).tRetire = c.tRetire := by
  unfold withDelaySlot; split_ifs <;> rfl
@[simp] theorem withDelaySlot_tRetireTwo : (withDelaySlot s c).tRetireTwo = c.tRetireTwo := by
  unfold withDelaySlot; split_ifs <;> rfl
@[simp] theorem withDelaySlot_tBumpRobHead : (withDelaySlot s c).tBumpRobHead = c.tBumpRobHead := by
  unfold withDelaySlot; split_ifs <;> rfl
@[simp] theorem withDelaySlot_tRatCopy : (withDelaySlot s c).tRatCopy = c.tRatCopy := by
  unfold withDelaySlot; split_ifs <;> rfl
@[simp] theorem withDelaySlot_tClrRob : (withDelaySlot s c).tClrRob = c.tClrRob := by
  unfold withDelaySlot; split_ifs <;> rfl
@[simp] theorem withDelaySlot_tClrDq : (withDelaySlot s c).tClrDq = c.tClrDq := by
  unfold withDelaySlot; split_ifs <;> rfl
@[simp] theorem withDelaySlot_nState : (withDelaySlot s c).nState = c.nState := by
  unfold withDelaySlot; split_ifs <;> rfl
@[simp] theorem withDelaySlot_nDsDone : (withDelaySlot s c).nDsDone = c.nDsDone := by
  unfold withDelaySlot; split_ifs <;> rfl

@[simp] theorem withDelaySlot_l1dFlush :
    (withDelaySlot s c).nL1dFlushComplete = c.nL1dFlushComplete := by
  unfold withDelaySlot; split_ifs <;> rfl
@[simp] theorem withDelaySlot_nCause : (withDelaySlot s c).nCause = c.nCause := by
  unfold withDelaySlot; split_ifs <;> rfl
@[simp] theorem withDelaySlot_cpr0Val :
    (withDelaySlot s c).tExceptionWrCpr0Val = c.tExceptionWrCpr0Val := by
  unfold withDelaySlot; split_ifs <;> rfl
@[simp] theorem withDelaySlot_cpr0Ptr :
    (withDelaySlot s c).tExceptionWrCpr0Ptr = c.tExceptionWrCpr0Ptr := by
  unfold withDelaySlot; split_ifs <;> rfl
@[simp] theorem withDelaySlot_cpr0Data :
    (withDelaySlot s c).tExceptionWrCpr0Data = c.tExceptionWrCpr0Data := by
  unfold withDelaySlot; split_ifs <;> rfl

/-- All that a faulted head decides, by the state that it sends `ACTIVE` to. -/
theorem faultDispatch_eq : ∃ brk ud cause, faultDispatch s i c =
    { c with
      nGotBreak := brk, nGotUd := ud, nCause := cause
      nFlushReq :=
        s.faultState i == .WRITE_EPC || s.faultState i == .WRITE_BADVADDR || c.nFlushReq
      nRestartValid := s.faultState i == .DRAIN || c.nRestartValid
      nState := if s.faultState i = .ACTIVE then c.nState else s.faultState i
      nDsDone := if s.faultState i = .DRAIN then !s.tRobHead.hasDelaySlot else c.nDsDone } := by
  unfold faultDispatch faultState
  -- the conditions in the order in which the source tests them
  cases s.tRobHead.isEret with
  | true => exact ⟨_, _, _, rfl⟩
  | false =>
  cases s.tRobHead.isWait with
  | true => cases i.cpr0StatusReg.getLsbD 0 <;> exact ⟨_, _, _, rfl⟩
  | false =>
  cases s.tRobHead.isBreak with
  | true => exact ⟨_, _, _, rfl⟩
  | false =>
  cases s.tRobHead.isIi with
  | true => exact ⟨_, _, _, rfl⟩
  | false =>
  cases s.tRobHead.takeTrap with
  | true => exact ⟨_, _, _, rfl⟩
  | false =>
  cases s.tRobHead.exceptionTlbRefill with
  | true => exact ⟨_, _, _, rfl⟩
  | false =>
  cases s.tRobHead.exceptionTlbModified with
  | true => exact ⟨_, _, _, rfl⟩
  | false => cases s.tRobHead.exceptionTlbInvalid <;> exact ⟨_, _, _, rfl⟩

/-- Outside `withDelaySlot` and the allocation branches, the strobes that a fault leaves alone. -/
theorem faultDispatch_strobes :
    (faultDispatch s i c).tAlloc = c.tAlloc ∧ (faultDispatch s i c).tAllocTwo = c.tAllocTwo ∧
      (faultDispatch s i c).tRatCopy = c.tRatCopy ∧ (faultDispatch s i c).tClrRob = c.tClrRob ∧
      (faultDispatch s i c).tClrDq = c.tClrDq := by
  obtain ⟨_, _, _, he⟩ := faultDispatch_eq s i c
  rw [he]
  exact ⟨rfl, rfl, rfl, rfl, rfl⟩

theorem combFault_strobes :
    (combFault s i c).tAlloc = c.tAlloc ∧ (combFault s i c).tAllocTwo = c.tAllocTwo ∧
      (combFault s i c).tRatCopy = c.tRatCopy ∧ (combFault s i c).tClrRob = c.tClrRob ∧
      (combFault s i c).tClrDq = c.tClrDq ∧ (combFault s i c).tBumpRobHead = true := by
  obtain ⟨h1, h2, h3, h4, h5⟩ := faultDispatch_strobes s i c
  exact ⟨h1, h2, h3, h4, h5, rfl⟩

theorem combSerialize_strobes :
    (combSerialize s c).tAlloc = c.tAlloc ∧ (combSerialize s c).tAllocTwo = c.tAllocTwo ∧
      (combSerialize s c).tRatCopy = c.tRatCopy ∧ (combSerialize s c).tClrRob = c.tClrRob ∧
      (combSerialize s c).tClrDq = c.tClrDq ∧ (combSerialize s c).tRetire = c.tRetire ∧
      (combSerialize s c).tRetireTwo = c.tRetireTwo ∧
      (combSerialize s c).tBumpRobHead = c.tBumpRobHead := by
  unfold combSerialize; split_ifs <;> exact ⟨rfl, rfl, rfl, rfl, rfl, rfl, rfl, rfl⟩

end Frames
/-! ## The strobes -/

/-- The strobes of `ACTIVE`. -/
theorem combActive_strobes (c : Comb)
    (hc : c.tAlloc = false ∧ c.tAllocTwo = false ∧ c.tRetire = false ∧ c.tRetireTwo = false ∧
      c.tBumpRobHead = false) :
    (combActive s i c).tAlloc = (s.offersAlloc && canAlloc s i) ∧
      (combActive s i c).tAllocTwo = (s.offersAlloc && canAllocTwo s i) ∧
      (combActive s i c).tRetire = s.retiresActive ∧
      (combActive s i c).tRetireTwo = (s.retiresActive && canRetireTwo s) ∧
      (combActive s i c).tBumpRobHead = (s.retiresActive && s.tRobHead.faulted) ∧
      (combActive s i c).tRatCopy = c.tRatCopy ∧ (combActive s i c).tClrRob = c.tClrRob ∧
      (combActive s i c).tClrDq = c.tClrDq := by
  obtain ⟨h1, h2, h3, h4, h5⟩ := hc
  have hempty : s.tCanRetireRobHead = true → s.tRobHeadComplete = true ∧ s.tRobEmpty = false := by
    intro h
    simp only [tCanRetireRobHead, Bool.and_eq_true, Bool.not_eq_true'] at h
    exact h.1
  unfold combActive offersAlloc retiresActive takesIrq
  cases hirq : s.externIrq && !s.tRobEmpty && !s.tRobHead.inDelaySlot with
  | true => simp [h1, h2, h3, h4, h5]
  | false =>
    cases hret : s.tCanRetireRobHead with
    | true =>
      obtain ⟨hcomp, hne⟩ := hempty hret
      cases hf : s.tRobHead.faulted with
      | true =>
        obtain ⟨f1, f2, f3, f4, f5, f6⟩ := combFault_strobes s i c
        simp [h1, h2, hcomp, f1, f2, f3, f4, f5, f6]
      | false =>
        cases hdq : s.tDqEmpty with
        | true => simp [h1, h2, h5, hcomp]
        | false =>
          cases hser : s.tUop.serializingOp <;> simp [combAllocRetire, hser, hne, h1, h2, h5, hcomp]
    | false =>
      cases hdq : s.tDqEmpty with
      | true => simp [h1, h2, h3, h4, h5]
      | false =>
        obtain ⟨f1, f2, f3, f4, f5, f6, f7, f8⟩ := combSerialize_strobes s c
        cases hser : s.tUop.serializingOp with
        | false => simp [combAllocIdle, hser, h3, h4, h5]
        | true =>
          cases hre : s.tRobEmpty <;>
            simp [combAllocIdle, hser, hre, f1, f2, f3, f4, f5, f6, f7, f8, h1, h2, h3, h4, h5]

theorem combDrain_strobes (c : Comb) (hc : c.tRetire = false) :
    (combDrain s i c).tAlloc = c.tAlloc ∧ (combDrain s i c).tAllocTwo = c.tAllocTwo ∧
      (combDrain s i c).tRetire =
        (s.tRobHeadComplete && !s.dsDone &&
          if s.hasNullifyingDelaySlot then s.takeBr else s.hasDelaySlot) ∧
      (combDrain s i c).tRetireTwo = c.tRetireTwo ∧
      (combDrain s i c).tBumpRobHead = c.tBumpRobHead ∧ (combDrain s i c).tRatCopy = c.tRatCopy ∧
      (combDrain s i c).tClrRob = c.tClrRob ∧ (combDrain s i c).tClrDq = c.tClrDq := by
  unfold combDrain
  cases hn : s.hasNullifyingDelaySlot <;> cases hd : s.hasDelaySlot <;>
    cases hh : s.tRobHeadComplete <;> cases hds : s.dsDone <;> simp [hc] <;> split_ifs <;> simp [hc]

/-- The strobes of every state. -/
theorem combState_strobes :
    (combState s i (combDefault s i)).tAlloc = s.allocates i ∧
      (combState s i (combDefault s i)).tAllocTwo = s.allocatesTwo i ∧
      (combState s i (combDefault s i)).tRetire = s.retires i ∧
      (combState s i (combDefault s i)).tRetireTwo = s.retiresTwo ∧
      (combState s i (combDefault s i)).tBumpRobHead = s.bumps ∧
      (combState s i (combDefault s i)).tRatCopy = s.flushes ∧
      (combState s i (combDefault s i)).tClrRob = s.flushes ∧
      (combState s i (combDefault s i)).tClrDq = s.clearsQueue i := by
  unfold combState allocates allocatesTwo retires retiresTwo bumps flushes clearsQueue
  cases hs : s.state with
  | ACTIVE =>
    obtain ⟨h1, h2, h3, h4, h5, h6, h7, h8⟩ :=
      combActive_strobes s i (combDefault s i) ⟨rfl, rfl, rfl, rfl, rfl⟩
    simp only [h1, h2, h3, h4, h5, h6, h7, h8, beq_self_eq_true, Bool.true_and, true_and]
    exact ⟨rfl, rfl, rfl⟩
  | DRAIN => exact combDrain_strobes s i (combDefault s i) rfl
  | EXCEPTION_DRAIN => simp only [combExceptionDrain]; split_ifs <;> simp [combDefault]
  | RAT => simp only [combRat]; split_ifs <;> simp [combDefault]
  | ALLOC_FOR_SERIALIZE => simp [combAllocForSerialize, combDefault]
  | ALLOC_FOR_MONITOR => simp [combAllocForMonitor, combDefault]
  | WAIT_FOR_SERIALIZE_AND_RESTART =>
    simp only [combWaitForSerialize]
    split_ifs <;> simp_all [combDefault, combRestartHead]
  | WAIT_FOR_MONITOR =>
    simp only [combWaitForMonitor, gotAck]
    split_ifs <;> simp_all [combDefault, combRestartHead]
  | MONITOR_FLUSH_CACHE => simp only [combMonitorFlushCache]; split_ifs <;> simp [combDefault]
  | HANDLE_MONITOR => simp only [combHandleMonitor]; split_ifs <;> simp [combDefault]
  | FLUSH_FOR_HALT => simp only [combFlushForHalt]; split_ifs <;> simp [combDefault]
  | HALT => simp only [combHalt]; split_ifs <;> simp_all [combDefault]
  | HALT_WAIT_FOR_RESTART => simp only [combHaltWaitForRestart]; split_ifs <;> simp [combDefault]
  | WRITE_EPC => simp [combWriteEpc, writeCpr0, combDefault]
  | WRITE_CAUSE => simp [combWriteCause, writeCpr0, combDefault]
  | WRITE_BADVADDR => simp [combWriteBadvaddr, writeCpr0, combDefault]
  | ARCH_WAIT => simp [combDefault]
  | DELAY_SLOT => simp [combDefault]

theorem faultDispatch_next (c : Comb) (hc : c.nState = .ACTIVE) :
    (faultDispatch s i c).nState = s.faultState i ∧
      (faultDispatch s i c).nDsDone =
        if s.faultState i = .DRAIN then !s.tRobHead.hasDelaySlot else c.nDsDone := by
  obtain ⟨_, _, _, he⟩ := faultDispatch_eq s i c
  rw [he]
  refine ⟨?_, rfl⟩
  change (if s.faultState i = .ACTIVE then c.nState else s.faultState i) = _
  split_ifs with h
  · rw [hc, h]
  · rfl

theorem combSerialize_next (c : Comb) :
    (combSerialize s c).nState = s.serialState ∧ (combSerialize s c).nDsDone = c.nDsDone := by
  unfold combSerialize serialState
  split_ifs <;> exact ⟨rfl, rfl⟩

theorem combActive_next (c : Comb) (hc : c.nState = .ACTIVE) :
    (combActive s i c).nState = s.activeState i ∧
      (combActive s i c).nDsDone =
        if s.takesIrq then true
        else if s.tCanRetireRobHead && s.tRobHead.faulted && s.faultState i == .DRAIN then
          !s.tRobHead.hasDelaySlot
        else c.nDsDone := by
  unfold combActive activeState takesIrq
  cases hirq : s.externIrq && !s.tRobEmpty && !s.tRobHead.inDelaySlot with
  | true => simp
  | false =>
    cases hret : s.tCanRetireRobHead with
    | true =>
      cases hf : s.tRobHead.faulted with
      | true =>
        obtain ⟨h1, h2⟩ := faultDispatch_next s i c hc
        simp [combFault, h1, h2]
      | false =>
        have hne : s.tRobEmpty = false := by
          simp only [tCanRetireRobHead, Bool.and_eq_true, Bool.not_eq_true'] at hret
          exact hret.1.2
        cases hdq : s.tDqEmpty <;> cases hser : s.tUop.serializingOp <;>
          simp [combAllocRetire, hser, hne, hc]
    | false =>
      obtain ⟨h1, h2⟩ := combSerialize_next s c
      cases hdq : s.tDqEmpty <;> cases hser : s.tUop.serializingOp <;> cases hre : s.tRobEmpty <;>
        simp [combAllocIdle, hser, hre, hc, h1, h2]

theorem combDrain_next (c : Comb) (hc : c.nDsDone = s.dsDone) :
    (combDrain s i c).nState = (if s.drained i && s.dsDone then .RAT else c.nState) ∧
      (combDrain s i c).nDsDone =
        (s.dsDone || s.tRobHeadComplete && (s.hasNullifyingDelaySlot || s.hasDelaySlot)) := by
  have hdr : (s.robInflight = 0 ∧ s.dsDone = true ∧ i.memqEmpty = true ∧ i.divideReady = true) ↔
      (s.drained i && s.dsDone) = true := by
    simp only [drained, Bool.and_eq_true, beq_iff_eq]
    tauto
  unfold combDrain
  simp only [hdr]
  cases hn : s.hasNullifyingDelaySlot <;> cases hd : s.hasDelaySlot <;>
    cases hh : s.tRobHeadComplete <;> cases hds : s.dsDone <;> cases s.drained i <;>
    simp [hc, hds]

theorem combRat_next (c : Comb) :
    (combRat c).nState = (if c.nGotRestartAck then .ACTIVE else c.nState) ∧
      (combRat c).nDsDone = (!c.nGotRestartAck && c.nDsDone) := by
  unfold combRat
  cases c.nGotRestartAck <;> exact ⟨rfl, rfl⟩

/-- The successor state and the delay slot flag of every state. -/
theorem combState_next :
    (combState s i (combDefault s i)).nState = s.nextState i ∧
      (combState s i (combDefault s i)).nDsDone = s.nextDsDone i := by
  unfold combState nextState nextDsDone
  cases hs : s.state with
  | ACTIVE => exact combActive_next s i (combDefault s i) hs
  | DRAIN =>
    obtain ⟨h1, h2⟩ := combDrain_next s i (combDefault s i) rfl
    exact ⟨h1.trans (by rw [show (combDefault s i).nState = .DRAIN from hs]), h2⟩
  | EXCEPTION_DRAIN =>
    simp only [combExceptionDrain, drained]
    split_ifs <;> simp_all [combDefault]
  | RAT =>
    obtain ⟨h1, h2⟩ := combRat_next (combDefault s i)
    exact ⟨h1.trans (by rw [show (combDefault s i).nState = .RAT from hs]; rfl), h2⟩
  | ALLOC_FOR_SERIALIZE => simp [combAllocForSerialize, combDefault]
  | ALLOC_FOR_MONITOR => simp [combAllocForMonitor, combDefault]
  | WAIT_FOR_SERIALIZE_AND_RESTART =>
    simp only [combWaitForSerialize, gotAck]
    split_ifs <;> simp_all [combDefault, combRestartHead]
  | WAIT_FOR_MONITOR =>
    simp only [combWaitForMonitor, gotAck]
    split_ifs <;> simp_all [combDefault, combRestartHead]
  | MONITOR_FLUSH_CACHE =>
    simp only [combMonitorFlushCache, flushed]
    split_ifs <;> simp_all [combDefault]
  | HANDLE_MONITOR => simp only [combHandleMonitor]; split_ifs <;> simp_all [combDefault]
  | FLUSH_FOR_HALT =>
    simp only [combFlushForHalt, flushed]
    split_ifs <;> simp_all [combDefault]
  | HALT => simp only [combHalt]; split_ifs <;> simp_all [combDefault]
  | HALT_WAIT_FOR_RESTART =>
    simp only [combHaltWaitForRestart, gotAck]
    split_ifs <;> simp_all [combDefault]
  | WRITE_EPC => exact ⟨rfl, rfl⟩
  | WRITE_CAUSE => exact ⟨rfl, rfl⟩
  | WRITE_BADVADDR => exact ⟨rfl, rfl⟩
  | ARCH_WAIT => exact ⟨hs, rfl⟩
  | DELAY_SLOT => exact ⟨hs, rfl⟩

@[simp] theorem comb_tAlloc : (s.comb i).tAlloc = s.allocates i := by
  rw [comb, withDelaySlot_tAlloc]; exact (combState_strobes s i).1
@[simp] theorem comb_tAllocTwo : (s.comb i).tAllocTwo = s.allocatesTwo i := by
  rw [comb, withDelaySlot_tAllocTwo]; exact (combState_strobes s i).2.1
@[simp] theorem comb_tRetire : (s.comb i).tRetire = s.retires i := by
  rw [comb, withDelaySlot_tRetire]; exact (combState_strobes s i).2.2.1
@[simp] theorem comb_tRetireTwo : (s.comb i).tRetireTwo = s.retiresTwo := by
  rw [comb, withDelaySlot_tRetireTwo]; exact (combState_strobes s i).2.2.2.1
@[simp] theorem comb_tBumpRobHead : (s.comb i).tBumpRobHead = s.bumps := by
  rw [comb, withDelaySlot_tBumpRobHead]; exact (combState_strobes s i).2.2.2.2.1
@[simp] theorem comb_tRatCopy : (s.comb i).tRatCopy = s.flushes := by
  rw [comb, withDelaySlot_tRatCopy]; exact (combState_strobes s i).2.2.2.2.2.1
@[simp] theorem comb_tClrRob : (s.comb i).tClrRob = s.flushes := by
  rw [comb, withDelaySlot_tClrRob]; exact (combState_strobes s i).2.2.2.2.2.2.1
@[simp] theorem comb_tClrDq : (s.comb i).tClrDq = s.clearsQueue i := by
  rw [comb, withDelaySlot_tClrDq]; exact (combState_strobes s i).2.2.2.2.2.2.2

@[simp] theorem comb_nState : (s.comb i).nState = s.nextState i := by
  rw [comb, withDelaySlot_nState]; exact (combState_next s i).1
@[simp] theorem comb_nDsDone : (s.comb i).nDsDone = s.nextDsDone i := by
  rw [comb, withDelaySlot_nDsDone]; exact (combState_next s i).2

@[simp] theorem step_state : (s.step i).state = s.nextState i := comb_nState s i
@[simp] theorem step_dsDone : (s.step i).dsDone = s.nextDsDone i := comb_nDsDone s i

/-! ## The exception port -/

/-- The register that the exception port names. -/
def exceptionPtr : BitVec 5 :=
  match s.state with
  | .WRITE_EPC => 14
  | .WRITE_CAUSE => 13
  | .WRITE_BADVADDR => 8
  | _ => 0

theorem combActive_cpr0Ptr (c : Comb) :
    (combActive s i c).tExceptionWrCpr0Ptr = c.tExceptionWrCpr0Ptr := by
  have hf : (combFault s i c).tExceptionWrCpr0Ptr = c.tExceptionWrCpr0Ptr := by
    obtain ⟨_, _, _, he⟩ := faultDispatch_eq s i c
    rw [combFault, he]
  have hr : (combAllocRetire s i c).tExceptionWrCpr0Ptr = c.tExceptionWrCpr0Ptr := by
    unfold combAllocRetire; split_ifs <;> rfl
  have hi : (combAllocIdle s i c).tExceptionWrCpr0Ptr = c.tExceptionWrCpr0Ptr := by
    unfold combAllocIdle combSerialize; split_ifs <;> rfl
  unfold combActive
  split_ifs <;> first | rfl | exact hf | exact hr | exact hi

@[simp] theorem comb_cpr0Ptr : (s.comb i).tExceptionWrCpr0Ptr = s.exceptionPtr := by
  rw [comb, withDelaySlot_cpr0Ptr, combState, exceptionPtr]
  cases hs : s.state with
  | ACTIVE => exact combActive_cpr0Ptr s i _
  | DRAIN => simp only [combDrain]; split_ifs <;> rfl
  | EXCEPTION_DRAIN => simp only [combExceptionDrain]; split_ifs <;> rfl
  | RAT => simp only [combRat]; split_ifs <;> rfl
  | WAIT_FOR_SERIALIZE_AND_RESTART => simp only [combWaitForSerialize]; split_ifs <;> rfl
  | WAIT_FOR_MONITOR => simp only [combWaitForMonitor]; split_ifs <;> rfl
  | MONITOR_FLUSH_CACHE => simp only [combMonitorFlushCache]; split_ifs <;> rfl
  | HANDLE_MONITOR => simp only [combHandleMonitor]; split_ifs <;> rfl
  | FLUSH_FOR_HALT => simp only [combFlushForHalt]; split_ifs <;> rfl
  | HALT => simp only [combHalt]; split_ifs <;> rfl
  | HALT_WAIT_FOR_RESTART => simp only [combHaltWaitForRestart]; split_ifs <;> rfl
  | _ => rfl

theorem exceptionPtr_ne : s.exceptionPtr ≠ 12 := by
  unfold exceptionPtr
  split <;> decide

end Core
end MipsCore
