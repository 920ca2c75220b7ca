import MipsCore.Core.State

/-! # Control of the core

The next-state block of `core.sv`, one definition for each state.  `$stop` has no
effect on the signals, so the branches that only stop the simulation leave the
defaults.
-/
namespace MipsCore

/-- The signals that the next-state block drives. -/
structure Comb where
  tAlloc : Bool
  tAllocTwo : Bool
  tRetire : Bool
  tRetireTwo : Bool
  tBumpRobHead : Bool
  tRatCopy : Bool
  tClrRob : Bool
  tClrDq : Bool
  tClrExternIrq : Bool
  tRestartComplete : Bool
  tMonitorReqValid : Bool
  tExceptionWrCpr0Val : Bool
  tExceptionWrCpr0Ptr : BitVec 5
  tExceptionWrCpr0Data : Word
  nState : CoreFsm
  nCause : BitVec 5
  nMachineClr : Bool
  nDelayslotRobPtr : RobPtr
  nInDelaySlot : Bool
  nRestartPc : Word
  nRestartSrcPc : Word
  nRestartSrcIsIndirect : Bool
  nRestartValid : Bool
  nHasDelaySlot : Bool
  nHasNullifyingDelaySlot : Bool
  nTakeBr : Bool
  nMonitorRspData : Word
  nDsDone : Bool
  nFlushReq : Bool
  nFlushClReq : Bool
  nFlushClAddr : Word
  nGotBreak : Bool
  nGotSyscall : Bool
  nGotUd : Bool
  nMonitorReason : BitVec 16
  nGotRestartAck : Bool
  nReadyForResume : Bool
  nL1iFlushComplete : Bool
  nL1dFlushComplete : Bool

namespace Core
variable (s : Core) (i : CoreIn)

/-- The default of every signal. -/
def combDefault : Comb where
  tAlloc := false
  tAllocTwo := false
  tRetire := false
  tRetireTwo := false
  tBumpRobHead := false
  tRatCopy := false
  tClrRob := false
  tClrDq := false
  tClrExternIrq := false
  tRestartComplete := false
  tMonitorReqValid := false
  tExceptionWrCpr0Val := false
  tExceptionWrCpr0Ptr := 0
  tExceptionWrCpr0Data := 0
  nState := s.state
  nCause := s.cause
  nMachineClr := s.machineClr
  nDelayslotRobPtr := s.delayslotRobPtr
  nInDelaySlot := s.inDelaySlot
  nRestartPc := s.restartPc
  nRestartSrcPc := s.restartSrcPc
  nRestartSrcIsIndirect := s.restartSrcIsIndirect
  nRestartValid := false
  nHasDelaySlot := s.hasDelaySlot
  nHasNullifyingDelaySlot := s.hasNullifyingDelaySlot
  nTakeBr := s.takeBr
  nMonitorRspData := s.monitorRspData
  nDsDone := s.dsDone
  nFlushReq := false
  nFlushClReq := false
  nFlushClAddr := s.flushClAddr
  nGotBreak := s.gotBreak
  nGotSyscall := s.gotSyscall
  nGotUd := s.gotUd
  nMonitorReason := s.monitorReason
  nGotRestartAck :=
    if s.state = .ACTIVE then false else if !s.gotRestartAck then i.restartAck else s.gotRestartAck
  nReadyForResume := false
  nL1iFlushComplete := s.l1iFlushComplete || i.l1iFlushComplete
  nL1dFlushComplete := s.l1dFlushComplete || i.l1dFlushComplete

/-- Which exception a faulted head takes, or a drain for a mispredicted branch. -/
def faultDispatch (c : Comb) : Comb :=
  if s.tRobHead.isEret then c
  else if s.tRobHead.isWait then
    if i.cpr0StatusReg.getLsbD 0 then { c with nState := .ARCH_WAIT }
    else { c with nGotBreak := true, nFlushReq := true, nCause := 9, nState := .WRITE_EPC }
  else if s.tRobHead.isBreak then
    { c with nGotBreak := true, nFlushReq := true, nCause := 9, nState := .WRITE_EPC }
  else if s.tRobHead.isIi then
    { c with nGotUd := true, nFlushReq := true, nCause := 10, nState := .WRITE_EPC }
  else if s.tRobHead.takeTrap then
    { c with nFlushReq := true, nCause := 13, nState := .WRITE_EPC }
  else if s.tRobHead.exceptionTlbRefill then
    { c with
      nFlushReq := true, nCause := if s.tRobHead.isStore then 3 else 2, nState := .WRITE_BADVADDR }
  else if s.tRobHead.exceptionTlbModified then c
  else if s.tRobHead.exceptionTlbInvalid then c
  else { c with nDsDone := !s.tRobHead.hasDelaySlot, nState := .DRAIN, nRestartValid := true }

def combFault (c : Comb) : Comb :=
  { faultDispatch s i c with
    nMachineClr := true
    nDelayslotRobPtr := Ring.slot s.robNextHeadPtr
    nRestartPc := s.tRobHead.targetPc
    nRestartSrcPc := s.tRobHead.pc
    nRestartSrcIsIndirect := s.tRobHead.isIndirect && !s.tRobHead.isRet
    nHasDelaySlot := s.tRobHead.hasDelaySlot
    nHasNullifyingDelaySlot := s.tRobHead.hasNullifyingDelaySlot
    nTakeBr := s.tRobHead.takeBr
    tBumpRobHead := true }

/-- Allocation of the decode queue's head in `ACTIVE`. -/
def canAlloc : Bool :=
  !s.tRobFull && !i.uqFull && !s.tDqEmpty && s.tEnoughIprfs && s.tEnoughHlprfs &&
    s.tEnoughFprfs && s.tEnoughFcrprfs

def canAllocTwo : Bool :=
  canAlloc s i && !s.tUop2.serializingOp && !s.tDqNextEmpty && !s.tRobNextFull &&
    !i.uqNextFull && s.tEnoughNextIprfs && s.tEnoughNextHlprfs && s.tEnoughNextFprfs &&
    s.tEnoughNextFcrprfs

/-- Two instructions retire when neither faults and the second is an ordinary one. -/
def canRetireTwo : Bool :=
  !s.tRobNextEmpty && !s.tRobHead.faulted && !s.tRobNextHead.faulted && s.tRobHeadComplete &&
    s.tRobNextHeadComplete && !s.tRobHead.isBr && !s.tRobNextHead.isRet &&
    !s.tRobNextHead.isCall && !s.tRobNextHead.validFcrDst && !s.tRobNextHead.validHiloDst

/-- Allocation in a cycle whose head retires. -/
def combAllocRetire (c : Comb) : Comb :=
  if s.tUop.serializingOp then
    if s.tRobEmpty then
      { c with
        nState := if s.tUop.op == .MONITOR || s.tUop.op == .SYSCALL then .HANDLE_MONITOR
          else .ALLOC_FOR_SERIALIZE
        nMonitorReason := s.tUop.imm }
    else c
  else { c with tAlloc := canAlloc s i, tAllocTwo := canAllocTwo s i }

/-- The entry into serialization, once the reorder buffer has drained. -/
def combSerialize (c : Comb) : Comb :=
  if s.tUop.op = .MONITOR then
    let c := { c with nMonitorReason := s.tUop.imm }
    if s.tUop.imm = 50 then { c with nState := .HANDLE_MONITOR }
    else if s.tUop.imm = 52 then
      { c with
        nState := .MONITOR_FLUSH_CACHE, nL1iFlushComplete := true, nFlushClAddr := s.archA0,
        nFlushClReq := true }
    else if s.tUop.imm = 53 then { c with nState := .HANDLE_MONITOR }
    else { c with nFlushReq := true, nState := .MONITOR_FLUSH_CACHE }
  else if s.tUop.op = .SYSCALL then { c with nFlushReq := true, nState := .MONITOR_FLUSH_CACHE }
  else { c with nState := .ALLOC_FOR_SERIALIZE }

/-- Allocation in a cycle whose head does not retire. -/
def combAllocIdle (c : Comb) : Comb :=
  if s.tUop.serializingOp && s.tRobEmpty then combSerialize s c
  else if !s.tUop.serializingOp then
    { c with tAlloc := canAlloc s i, tAllocTwo := canAllocTwo s i }
  else c

def combActive (c : Comb) : Comb :=
  if s.externIrq && !s.tRobEmpty && !s.tRobHead.inDelaySlot then
    { c with
      nState := .EXCEPTION_DRAIN, nRestartPc := s.tRobHead.pc, nMachineClr := true, nDsDone := true,
      tClrExternIrq := true, nRestartValid := true }
  else if s.tCanRetireRobHead then
    let c := if s.tRobHead.faulted then combFault s i c
      else if !s.tDqEmpty then combAllocRetire s i c else c
    { c with tRetire := s.tRobHeadComplete, tRetireTwo := canRetireTwo s }
  else if !s.tDqEmpty then combAllocIdle s i c
  else c

def combDrain (c : Comb) : Comb :=
  let c := if s.hasNullifyingDelaySlot && s.tRobHeadComplete && !s.dsDone then
      { c with tRetire := s.takeBr, nDsDone := true }
    else if s.hasDelaySlot && s.tRobHeadComplete && !s.dsDone then
      { c with tRetire := true, nDsDone := true }
    else c
  if s.robInflight = 0 ∧ s.dsDone ∧ i.memqEmpty ∧ i.divideReady then { c with nState := .RAT } else c

def combExceptionDrain (c : Comb) : Comb :=
  if s.robInflight = 0 ∧ i.memqEmpty ∧ i.divideReady then { c with nState := .RAT } else c

def combRat (c : Comb) : Comb :=
  let c := { c with tRatCopy := true, tClrRob := true, tClrDq := true, nMachineClr := false }
  if c.nGotRestartAck then { c with nState := .ACTIVE, nDsDone := false, tRestartComplete := true }
  else c

/-- The serializing states look at the whole free list, not at the selected bank. -/
def canAllocSerial : Bool := !s.tRobFull && !i.uqFull && s.prfFree != 0 && !s.tDqEmpty

def combAllocForSerialize (c : Comb) : Comb :=
  { c with
    tAlloc := canAllocSerial s i
    nState := if canAllocSerial s i then .WAIT_FOR_SERIALIZE_AND_RESTART else .ALLOC_FOR_SERIALIZE }

def combAllocForMonitor (c : Comb) : Comb :=
  { c with tAlloc := canAllocSerial s i, nState := .WAIT_FOR_MONITOR }

/-- The restart request of a serialized instruction. -/
def combRestartHead (c : Comb) : Comb :=
  { c with
    tClrDq := true, nRestartPc := s.tRobHead.targetPc, nRestartSrcPc := s.tRobHead.pc,
    nRestartSrcIsIndirect := false, nRestartValid := true }

def combWaitForSerialize (c : Comb) : Comb :=
  if s.tRobHeadComplete then
    let c := combRestartHead s c
    if c.nGotRestartAck then { c with nState := .ACTIVE } else c
  else c

def combWaitForMonitor (c : Comb) : Comb :=
  if s.tRobHeadComplete then
    let c := combRestartHead s c
    if c.nGotRestartAck then { c with tRetire := true, nState := .ACTIVE } else c
  else c

def combMonitorFlushCache (c : Comb) : Comb :=
  if c.nL1iFlushComplete && c.nL1dFlushComplete then
    { c with nState := .HANDLE_MONITOR, nL1iFlushComplete := false, nL1dFlushComplete := false }
  else c

def combHandleMonitor (c : Comb) : Comb :=
  let c := { c with tMonitorReqValid := true }
  if i.monitorRspValid then
    { c with nState := .ALLOC_FOR_MONITOR, nMonitorRspData := i.monitorRspData }
  else c

def combFlushForHalt (c : Comb) : Comb :=
  if c.nL1iFlushComplete && c.nL1dFlushComplete then
    { c with
      nState := .HALT, nReadyForResume := true, nL1iFlushComplete := false,
      nL1dFlushComplete := false }
  else c

def combHalt (c : Comb) : Comb :=
  if i.resume then
    { c with
      nRestartPc := i.resumePc, nRestartSrcPc := s.tRobHead.pc, nRestartSrcIsIndirect := false,
      nRestartValid := true, nState := .HALT_WAIT_FOR_RESTART, nGotBreak := false, nGotUd := false,
      nGotSyscall := false, tClrDq := true }
  else { c with nReadyForResume := true }

def combHaltWaitForRestart (c : Comb) : Comb :=
  if c.nGotRestartAck then { c with nState := .ACTIVE } else c

def writeCpr0 (ptr : BitVec 5) (data : Word) (next : CoreFsm) (c : Comb) : Comb :=
  { c with
    tExceptionWrCpr0Val := true, tExceptionWrCpr0Ptr := ptr, tExceptionWrCpr0Data := data,
    nState := next }

/-- The value for EPC: the pc of the entry, or of the branch before it. -/
def epcData (e : RobEntry) : Word := if e.inDelaySlot then e.pc - 4 else e.pc
/-- The value for Cause: the BD bit and the exception code. -/
def causeData (e : RobEntry) (cause : BitVec 5) : Word :=
  0#32 ++ BitVec.ofBool e.inDelaySlot ++ 0#15 ++ 0#8 ++ 0#1 ++ cause ++ 0#2

def combWriteEpc (c : Comb) : Comb := writeCpr0 14 (epcData s.tRobHead) .WRITE_CAUSE c
def combWriteCause (c : Comb) : Comb :=
  writeCpr0 13 (causeData s.tRobHead s.cause) .FLUSH_FOR_HALT c
def combWriteBadvaddr (c : Comb) : Comb := writeCpr0 8 s.tRobHead.data .WRITE_EPC c

def combState (c : Comb) : Comb :=
  match s.state with
  | .ACTIVE => combActive s i c
  | .DRAIN => combDrain s i c
  | .EXCEPTION_DRAIN => combExceptionDrain s i c
  | .RAT => combRat c
  | .ALLOC_FOR_SERIALIZE => combAllocForSerialize s i c
  | .WAIT_FOR_SERIALIZE_AND_RESTART => combWaitForSerialize s c
  | .MONITOR_FLUSH_CACHE => combMonitorFlushCache c
  | .HANDLE_MONITOR => combHandleMonitor i c
  | .ALLOC_FOR_MONITOR => combAllocForMonitor s i c
  | .WAIT_FOR_MONITOR => combWaitForMonitor s c
  | .FLUSH_FOR_HALT => combFlushForHalt c
  | .HALT => combHalt s i c
  | .HALT_WAIT_FOR_RESTART => combHaltWaitForRestart c
  | .WRITE_EPC => combWriteEpc s c
  | .WRITE_CAUSE => combWriteCause s c
  | .WRITE_BADVADDR => combWriteBadvaddr s c
  | .ARCH_WAIT => c
  | .DELAY_SLOT => c

/-- After the state's own assignments, the delay slot flag follows the allocation. -/
def withDelaySlot (c : Comb) : Comb :=
  if c.tAlloc then
    { c with nInDelaySlot := if c.tAllocTwo then s.tUop2.hasDelaySlot else s.tUop.hasDelaySlot }
  else if c.tClrDq || c.tClrRob then { c with nInDelaySlot := false }
  else c

def comb : Comb := withDelaySlot s (combState s i (combDefault s i))

end Core
end MipsCore
