import MipsCore.Decode
import MipsCore.Scan
import MipsCore.Lib.BitMask
import MipsCore.Lib.Ring

/-! # Registers and inputs of the core

The registers of `core.sv` without their `r_` prefix, the signals it reads from
the memory system and from the execution unit, and its reset state.  The arrays
that reset leaves alone are arguments of the reset state.
-/
namespace MipsCore

inductive CoreFsm
  | HALT | ACTIVE | DRAIN | RAT | DELAY_SLOT | ALLOC_FOR_SERIALIZE | MONITOR_FLUSH_CACHE
  | HANDLE_MONITOR | ALLOC_FOR_MONITOR | WAIT_FOR_MONITOR | FLUSH_FOR_HALT
  | HALT_WAIT_FOR_RESTART | WAIT_FOR_SERIALIZE_AND_RESTART | WRITE_EPC | WRITE_CAUSE
  | WRITE_BADVADDR | EXCEPTION_DRAIN | ARCH_WAIT
  deriving DecidableEq, Repr

structure Core where
  state : CoreFsm
  -- decode queue
  dq : BitVec 2 → Uop
  dqHeadPtr : BitVec 3
  dqNextHeadPtr : BitVec 3
  dqTailPtr : BitVec 3
  dqNextTailPtr : BitVec 3
  dqCnt : BitVec 3
  -- reorder buffer
  rob : RobPtr → RobEntry
  robComplete : BitVec 32
  robInflight : BitVec 32
  robDeadInsns : BitVec 32
  robHeadPtr : BitVec 6
  robNextHeadPtr : BitVec 6
  robTailPtr : BitVec 6
  robNextTailPtr : BitVec 6
  -- free lists
  prfFree : BitVec 64
  retirePrfFree : BitVec 64
  fpPrfFree : BitVec 64
  retireFpPrfFree : BitVec 64
  hiloPrfFree : BitVec 4
  retireHiloPrfFree : BitVec 4
  fcrPrfFree : BitVec 4
  retireFcrPrfFree : BitVec 4
  bankSel : Bool
  -- register maps
  allocRat : ArchReg → PrfPtr
  retireRat : ArchReg → PrfPtr
  fpAllocRat : ArchReg → PrfPtr
  fpRetireRat : ArchReg → PrfPtr
  hiloAllocRat : HiloPtr
  hiloRetireRat : HiloPtr
  fcrAllocRat : HiloPtr
  fcrRetireRat : HiloPtr
  -- control
  inDelaySlot : Bool
  dsDone : Bool
  drainDsComplete : Bool
  machineClr : Bool
  delayslotRobPtr : RobPtr
  gotRestartAck : Bool
  restartPc : Word
  restartSrcPc : Word
  restartSrcIsIndirect : Bool
  restartValid : Bool
  hasDelaySlot : Bool
  hasNullifyingDelaySlot : Bool
  takeBr : Bool
  cause : BitVec 5
  gotBreak : Bool
  gotSyscall : Bool
  gotUd : Bool
  readyForResume : Bool
  flushReq : Bool
  flushClReq : Bool
  flushClAddr : Word
  l1iFlushComplete : Bool
  l1dFlushComplete : Bool
  monitorReason : BitVec 16
  monitorRspData : Word
  archA0 : Word
  externIrq : Bool
  -- branch predictor training
  branchPc : Word
  tookBranch : Bool
  branchValid : Bool
  branchFault : Bool
  branchPhtIdx : BitVec 16
  -- retirement ports
  retireRegPtr : ArchReg
  retireRegData : Word
  retireRegValid : Bool
  retireRegFpValid : Bool
  retireRegTwoPtr : ArchReg
  retireRegTwoData : Word
  retireRegTwoValid : Bool
  retireRegFpTwoValid : Bool
  retireValid : Bool
  retireTwoValid : Bool
  retirePc : Word
  retireTwoPc : Word
  retireDelaySlot : Bool
  retiredCall : Bool
  retiredRet : Bool
  retiredRobPtrValid : Bool
  retiredRobPtrTwoValid : Bool
  retiredRobPtr : RobPtr
  retiredRobPtrTwo : RobPtr

/-- What the core reads in a cycle: fetch and memory ports, the monitor, and the
outputs of the execution unit. -/
structure CoreIn where
  externIrq : Bool := false
  resume : Bool := false
  memqEmpty : Bool := true
  resumePc : Word := 0
  l1dFlushComplete : Bool := false
  l1iFlushComplete : Bool := false
  insn : InsnFetch := {}
  insnValid : Bool := false
  insnTwo : InsnFetch := {}
  insnValidTwo : Bool := false
  restartAck : Bool := false
  coreMemRsp : MemRsp := {}
  coreMemRspValid : Bool := false
  monitorRspValid : Bool := false
  monitorRspData : Word := 0
  divideReady : Bool := true
  in32fpRegMode : Bool := false
  cpr0StatusReg : Word := 0
  mqWait : BitVec 32 := 0
  uqWait : BitVec 32 := 0
  fqWait : BitVec 32 := 0
  uqFull : Bool := false
  uqNextFull : Bool := false
  completeBundle1 : Complete := {}
  completeValid1 : Bool := false
  completeBundle2 : Complete := {}
  completeValid2 : Bool := false

/-- The state after reset.  Reset clears only the fault bits of the reorder buffer and
leaves the decode queue as it is. -/
def Core.reset (rob : RobPtr → RobEntry) (dq : BitVec 2 → Uop) : Core where
  state := .HALT
  dq := dq
  dqHeadPtr := 0
  dqNextHeadPtr := 1
  dqTailPtr := 0
  dqNextTailPtr := 1
  dqCnt := 0
  rob := fun p => { rob p with faulted := false }
  robComplete := 0
  robInflight := 0
  robDeadInsns := 0
  robHeadPtr := 0
  robNextHeadPtr := 1
  robTailPtr := 0
  robNextTailPtr := 1
  prfFree := 0xffffffff00000000#64
  retirePrfFree := 0xffffffff00000000#64
  fpPrfFree := 0xffffffff00000000#64
  retireFpPrfFree := 0xffffffff00000000#64
  hiloPrfFree := 0xe#4
  retireHiloPrfFree := 0xe#4
  fcrPrfFree := 0xe#4
  retireFcrPrfFree := 0xe#4
  bankSel := false
  allocRat := fun r => r.setWidth 6
  retireRat := fun r => r.setWidth 6
  fpAllocRat := fun r => r.setWidth 6
  fpRetireRat := fun r => r.setWidth 6
  hiloAllocRat := 0
  hiloRetireRat := 0
  fcrAllocRat := 0
  fcrRetireRat := 0
  inDelaySlot := false
  dsDone := false
  drainDsComplete := false
  machineClr := false
  delayslotRobPtr := 0
  gotRestartAck := false
  restartPc := 0
  restartSrcPc := 0
  restartSrcIsIndirect := false
  restartValid := false
  hasDelaySlot := false
  hasNullifyingDelaySlot := false
  takeBr := false
  cause := 0
  gotBreak := false
  gotSyscall := false
  gotUd := false
  readyForResume := false
  flushReq := false
  flushClReq := false
  flushClAddr := 0
  l1iFlushComplete := false
  l1dFlushComplete := false
  monitorReason := 0
  monitorRspData := 0
  archA0 := 0
  externIrq := false
  branchPc := 0
  tookBranch := false
  branchValid := false
  branchFault := false
  branchPhtIdx := 0
  retireRegPtr := 0
  retireRegData := 0
  retireRegValid := false
  retireRegFpValid := false
  retireRegTwoPtr := 0
  retireRegTwoData := 0
  retireRegTwoValid := false
  retireRegFpTwoValid := false
  retireValid := false
  retireTwoValid := false
  retirePc := 0
  retireTwoPc := 0
  retireDelaySlot := false
  retiredCall := false
  retiredRet := false
  retiredRobPtrValid := false
  retiredRobPtrTwoValid := false
  retiredRobPtr := 0
  retiredRobPtrTwo := 0

namespace Core
variable (s : Core)

/-! ## Reorder buffer and decode queue views -/

def tRobHead : RobEntry := s.rob (Ring.slot s.robHeadPtr)
def tRobNextHead : RobEntry := s.rob (Ring.slot s.robNextHeadPtr)
def tRobHeadComplete : Bool := s.robComplete.getLsbD (Ring.slot s.robHeadPtr).toNat
def tRobNextHeadComplete : Bool := s.robComplete.getLsbD (Ring.slot s.robNextHeadPtr).toNat
def tRobEmpty : Bool := s.robHeadPtr == s.robTailPtr
def tRobNextEmpty : Bool := s.robNextHeadPtr == s.robTailPtr
def tRobFull : Bool :=
  Ring.slot s.robHeadPtr == Ring.slot s.robTailPtr && s.robHeadPtr != s.robTailPtr
def tRobNextFull : Bool :=
  Ring.slot s.robHeadPtr == Ring.slot s.robNextTailPtr && s.robHeadPtr != s.robNextTailPtr

def tDqEmpty : Bool := s.dqTailPtr == s.dqHeadPtr
def tDqNextEmpty : Bool := s.dqTailPtr == s.dqNextHeadPtr
def tDqFull : Bool :=
  Ring.slot s.dqTailPtr == Ring.slot s.dqHeadPtr && s.dqTailPtr != s.dqHeadPtr
def tDqNextFull : Bool :=
  Ring.slot s.dqNextTailPtr == Ring.slot s.dqHeadPtr && s.dqNextTailPtr != s.dqHeadPtr
def tUop : Uop := s.dq (Ring.slot s.dqHeadPtr)
def tUop2 : Uop := s.dq (Ring.slot s.dqNextHeadPtr)

/-- NOP, J, illegal instructions and ERET complete at allocation. -/
def folds (u : Uop) : Bool := u.op == .NOP || u.op == .J || u.op == .II || u.op == .ERET
def tFoldUop : Bool := folds s.tUop
def tFoldUop2 : Bool := folds s.tUop2

/-! ## Banked free lists -/

def evenBank (m : BitVec 64) : BitVec 64 := m &&& 0x5555555555555555#64
def oddBank (m : BitVec 64) : BitVec 64 := m &&& 0xaaaaaaaaaaaaaaaa#64
/-- The bank that serves the first uop of the cycle; the second uop gets the other one. -/
def bank (m : BitVec 64) : BitVec 64 := if s.bankSel then evenBank m else oddBank m
def bank2 (m : BitVec 64) : BitVec 64 := if s.bankSel then oddBank m else evenBank m

def tGprFfsFull : Bool := s.bank s.prfFree == 0
def tGprFfs2Full : Bool := s.bank2 s.prfFree == 0
def tFpFfsFull : Bool := s.bank s.fpPrfFree == 0
def tFpFfs2Full : Bool := s.bank2 s.fpPrfFree == 0

def nPrfEntry : PrfPtr := (findFirstSet 4 (s.bank s.prfFree)).setWidth 6
def nPrfEntry2 : PrfPtr := (findFirstSet 4 (s.bank2 s.prfFree)).setWidth 6
def nFpPrfEntry : PrfPtr := (findFirstSet 4 (s.bank s.fpPrfFree)).setWidth 6
def nFpPrfEntry2 : PrfPtr := (findFirstSet 4 (s.bank2 s.fpPrfFree)).setWidth 6
def nHiloPrfEntry : HiloPtr := (findFirstSet 0 s.hiloPrfFree).setWidth 2
def nFcrPrfEntry : HiloPtr := (findFirstSet 0 s.fcrPrfFree).setWidth 2

def tEnoughIprfs : Bool := !(s.tUop.dstValid && s.tGprFfsFull)
def tEnoughHlprfs : Bool := !(s.tUop.hiloDstValid && s.hiloPrfFree == 0)
def tEnoughFprfs : Bool := !(s.tUop.fpDstValid && s.tFpFfsFull)
def tEnoughFcrprfs : Bool := !(s.tUop.fcrDstValid && s.fcrPrfFree == 0)
def tEnoughNextIprfs : Bool := !(s.tUop2.dstValid && s.tGprFfs2Full)
def tEnoughNextHlprfs : Bool := !s.tUop2.hiloDstValid
def tEnoughNextFprfs : Bool := !(s.tUop2.fpDstValid && s.tFpFfs2Full)
def tEnoughNextFcrprfs : Bool := !s.tUop2.fcrDstValid

/-- A faulted branch with a delay slot waits for the slot to be allocated. -/
def tCanRetireRobHead : Bool :=
  s.tRobHeadComplete && !s.tRobEmpty &&
    (if (s.tRobHead.hasDelaySlot || s.tRobHead.hasNullifyingDelaySlot) && s.tRobHead.faulted
      then !s.tRobNextEmpty else true)

end Core
end MipsCore
