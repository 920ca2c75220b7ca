import MipsCore.Core.Control
import Mathlib.Logic.Function.Basic

/-! # Datapath and clock edge of the core

Rename, retirement, the reorder buffer and the decode queue of `core.sv`, and the
registers at the next clock edge.
-/
namespace MipsCore
namespace Core
open BitMask (setBit setBitIf)
open Ring (writeIf modifyIf putIf alterIf writeIf_eq_putIf modifyIf_eq_alterIf)
variable (s : Core) (i : CoreIn) (c : Comb)

/-! ## Rename -/

/-- The physical source of an operand of the first uop. -/
def renameSrc (valid fpValid : Bool) (r : PrfPtr) : PrfPtr :=
  if valid || fpValid then
    if fpValid then s.fpAllocRat (r.setWidth 5) else s.allocRat (r.setWidth 5)
  else r

/-- The physical source of an operand of the second uop, which sees the first one's destination. -/
def renameSrc2 (valid fpValid : Bool) (r : PrfPtr) : PrfPtr :=
  if valid || fpValid then
    if fpValid then
      if s.tUop.fpDstValid && r.setWidth 5 == s.tUop.dst.setWidth 5 then s.nFpPrfEntry
      else s.fpAllocRat (r.setWidth 5)
    else
      if s.tUop.dstValid && r.setWidth 5 == s.tUop.dst.setWidth 5 then s.nPrfEntry
      else s.allocRat (r.setWidth 5)
  else r

def tAllocUop : Uop :=
  let u := s.tUop
  let r := { u with
    srcA := s.renameSrc u.srcAValid u.fpSrcAValid u.srcA
    srcB := s.renameSrc u.srcBValid u.fpSrcBValid u.srcB
    srcC := s.renameSrc u.srcCValid u.fpSrcCValid u.srcC
    hiloSrc := if u.hiloSrcValid then s.hiloAllocRat else if u.fcrSrcValid then s.fcrAllocRat
      else u.hiloSrc }
  if c.tAlloc then
    let r := { r with robPtr := Ring.slot s.robTailPtr }
    if u.dstValid then { r with dst := s.nPrfEntry }
    else if u.hiloDstValid then { r with hiloDst := s.nHiloPrfEntry }
    else if u.fcrDstValid then { r with hiloDst := s.nFcrPrfEntry }
    else if u.fpDstValid then { r with dst := s.nFpPrfEntry }
    else r
  else r

def tAllocUop2 : Uop :=
  let u := s.tUop2
  let r := { u with
    srcA := s.renameSrc2 u.srcAValid u.fpSrcAValid u.srcA
    srcB := s.renameSrc2 u.srcBValid u.fpSrcBValid u.srcB
    srcC := s.renameSrc2 u.srcCValid u.fpSrcCValid u.srcC
    hiloSrc :=
      if u.hiloSrcValid then if s.tUop.hiloDstValid then s.nHiloPrfEntry else s.hiloAllocRat
      else if u.fcrSrcValid then if s.tUop.fcrDstValid then s.nFcrPrfEntry else s.fcrAllocRat
      else u.hiloSrc }
  if c.tAllocTwo then
    let r := { r with robPtr := Ring.slot s.robNextTailPtr }
    if u.dstValid then { r with dst := s.nPrfEntry2 }
    else if u.hiloDstValid then r
    else if u.fcrDstValid then r
    else if u.fpDstValid then { r with dst := s.nFpPrfEntry2 }
    else r
  else r

def nAllocRat : ArchReg → PrfPtr :=
  let rat := if c.tAlloc && s.tUop.dstValid then
      Function.update s.allocRat (s.tUop.dst.setWidth 5) s.nPrfEntry
    else s.allocRat
  if c.tAllocTwo && s.tUop2.dstValid then
    Function.update rat (s.tUop2.dst.setWidth 5) s.nPrfEntry2
  else rat

/-- A uop has one destination class: integer before HI/LO before FCR before FP. -/
def hiloDst (u : Uop) : Bool := !u.dstValid && u.hiloDstValid
def fcrDst (u : Uop) : Bool := !u.dstValid && !u.hiloDstValid && u.fcrDstValid
def fpDst (u : Uop) : Bool := !u.dstValid && !u.hiloDstValid && !u.fcrDstValid && u.fpDstValid

def nFpAllocRat : ArchReg → PrfPtr :=
  let rat := if c.tAlloc && fpDst s.tUop then
      Function.update s.fpAllocRat (s.tUop.dst.setWidth 5) s.nFpPrfEntry
    else s.fpAllocRat
  if c.tAllocTwo && fpDst s.tUop2 then
    Function.update rat (s.tUop2.dst.setWidth 5) s.nFpPrfEntry2
  else rat

def nHiloAllocRat : HiloPtr := if c.tAlloc && hiloDst s.tUop then s.nHiloPrfEntry else s.hiloAllocRat
def nFcrAllocRat : HiloPtr := if c.tAlloc && fcrDst s.tUop then s.nFcrPrfEntry else s.fcrAllocRat

/-! ## Retirement -/

/-- The head retires an integer destination; the other classes follow in the order of the source. -/
def tFreeReg : Bool := c.tRetire && s.tRobHead.validDst
def tFreeHilo : Bool := c.tRetire && !s.tRobHead.validDst && s.tRobHead.validHiloDst
def tFreeFcr : Bool :=
  c.tRetire && !s.tRobHead.validDst && !s.tRobHead.validHiloDst && s.tRobHead.validFcrDst
def tFreeFpReg : Bool :=
  c.tRetire && !s.tRobHead.validDst && !s.tRobHead.validHiloDst && !s.tRobHead.validFcrDst &&
    s.tRobHead.validFpDst
def tFreeRegTwo : Bool := c.tRetire && c.tRetireTwo && s.tRobNextHead.validDst
def tFreeFpRegTwo : Bool := c.tRetire && c.tRetireTwo && s.tRobNextHead.validFpDst

/-- Retirement of one destination into a map. -/
def retireMap (free : Bool) (e : RobEntry) (rat : ArchReg → PrfPtr) : ArchReg → PrfPtr :=
  if free then Function.update rat e.ldst e.pdst else rat
/-- Retirement of one destination into a retirement free list. -/
def retireFree {w : ℕ} (free : Bool) (pdst oldPdst : ℕ) (m : BitVec w) : BitVec w :=
  if free then setBit (setBit m pdst false) oldPdst true else m

def nRetireRat : ArchReg → PrfPtr :=
  retireMap (s.tFreeRegTwo c) s.tRobNextHead (retireMap (s.tFreeReg c) s.tRobHead s.retireRat)
def nFpRetireRat : ArchReg → PrfPtr :=
  retireMap (s.tFreeFpRegTwo c) s.tRobNextHead (retireMap (s.tFreeFpReg c) s.tRobHead s.fpRetireRat)
def nHiloRetireRat : HiloPtr := if s.tFreeHilo c then s.tRobHead.pdst.setWidth 2 else s.hiloRetireRat
def nFcrRetireRat : HiloPtr := if s.tFreeFcr c then s.tRobHead.pdst.setWidth 2 else s.fcrRetireRat

def nRetirePrfFree : BitVec 64 :=
  retireFree (s.tFreeRegTwo c) s.tRobNextHead.pdst.toNat s.tRobNextHead.oldPdst.toNat
    (retireFree (s.tFreeReg c) s.tRobHead.pdst.toNat s.tRobHead.oldPdst.toNat s.retirePrfFree)
def nRetireFpPrfFree : BitVec 64 :=
  retireFree (s.tFreeFpRegTwo c) s.tRobNextHead.pdst.toNat s.tRobNextHead.oldPdst.toNat
    (retireFree (s.tFreeFpReg c) s.tRobHead.pdst.toNat s.tRobHead.oldPdst.toNat s.retireFpPrfFree)
def nRetireHiloPrfFree : BitVec 4 :=
  retireFree (s.tFreeHilo c) (s.tRobHead.pdst.setWidth 2).toNat (s.tRobHead.oldPdst.setWidth 2).toNat
    s.retireHiloPrfFree
def nRetireFcrPrfFree : BitVec 4 :=
  retireFree (s.tFreeFcr c) (s.tRobHead.pdst.setWidth 2).toNat (s.tRobHead.oldPdst.setWidth 2).toNat
    s.retireFcrPrfFree

/-! ## Allocation free lists -/

/-- Removal of an allocated register from a free list. -/
def takeFree {w : ℕ} (take : Bool) (p : ℕ) (m : BitVec w) : BitVec w :=
  if take then setBit m p false else m
/-- Return of a register to a free list. -/
def giveFree {w : ℕ} (give : Bool) (p : ℕ) (m : BitVec w) : BitVec w :=
  if give then setBit m p true else m

def nPrfFree : BitVec 64 :=
  giveFree (s.tFreeRegTwo c) s.tRobNextHead.oldPdst.toNat <|
  giveFree (s.tFreeReg c) s.tRobHead.oldPdst.toNat <|
  takeFree (c.tAllocTwo && s.tUop2.dstValid) s.nPrfEntry2.toNat <|
  takeFree (c.tAlloc && s.tUop.dstValid) s.nPrfEntry.toNat s.prfFree
def nFpPrfFree : BitVec 64 :=
  giveFree (s.tFreeFpRegTwo c) s.tRobNextHead.oldPdst.toNat <|
  giveFree (s.tFreeFpReg c) s.tRobHead.oldPdst.toNat <|
  takeFree (c.tAllocTwo && s.tUop2.fpDstValid) s.nFpPrfEntry2.toNat <|
  takeFree (c.tAlloc && s.tUop.fpDstValid) s.nFpPrfEntry.toNat s.fpPrfFree
def nHiloPrfFree : BitVec 4 :=
  giveFree (s.tFreeHilo c) (s.tRobHead.oldPdst.setWidth 2).toNat <|
  takeFree (c.tAlloc && s.tUop.hiloDstValid) s.nHiloPrfEntry.toNat s.hiloPrfFree
def nFcrPrfFree : BitVec 4 :=
  giveFree (s.tFreeFcr c) (s.tRobHead.oldPdst.setWidth 2).toNat <|
  takeFree (c.tAlloc && s.tUop.fcrDstValid) s.nFcrPrfEntry.toNat s.fcrPrfFree

/-! ## Reorder buffer entries -/

/-- The fault flags of a folded uop. -/
def foldEntry (fold : Bool) (op : Opcode) (e : RobEntry) : RobEntry :=
  if fold then
    if op = .II then { e with faulted := true, isIi := true }
    else if op = .ERET then { e with faulted := true, isEret := true }
    else if op = .J then { e with takeBr := true }
    else e
  else e

/-- The fields of an entry that do not depend on its destination. -/
def baseEntry (u : Uop) (inDelaySlot isRet : Bool) : RobEntry where
  inDelaySlot := inDelaySlot
  pc := u.pc
  isBr := u.isBr
  hasDelaySlot := u.hasDelaySlot
  hasNullifyingDelaySlot := u.hasNullifyingDelaySlot
  phtIdx := u.phtIdx
  isStore := u.isStore
  isCall := u.op == .JAL || u.op == .JALR || u.op == .BAL
  isRet := isRet
  isSyscall := u.op == .SYSCALL
  isBreak := u.op == .BREAK
  isEret := u.op == .ERET
  isWait := u.op == .WAIT
  isIndirect := u.op == .JALR || u.op == .JR

/-- The destination of the first uop. -/
def destEntry (u : Uop) (e : RobEntry) : RobEntry :=
  if u.dstValid then
    { e with
      validDst := true, ldst := u.dst.setWidth 5, pdst := s.nPrfEntry,
      oldPdst := s.allocRat (u.dst.setWidth 5) }
  else if u.hiloDstValid then
    { e with
      validHiloDst := true, pdst := s.nHiloPrfEntry.setWidth 6, oldPdst := s.hiloAllocRat.setWidth 6 }
  else if u.fcrDstValid then
    { e with
      validFcrDst := true, pdst := s.nFcrPrfEntry.setWidth 6, oldPdst := s.fcrAllocRat.setWidth 6 }
  else if u.fpDstValid then
    { e with
      validFpDst := true, ldst := u.dst.setWidth 5, pdst := s.nFpPrfEntry,
      oldPdst := s.fpAllocRat (u.dst.setWidth 5) }
  else e

def tRobTail : RobEntry :=
  foldEntry s.tFoldUop s.tUop.op <| s.destEntry s.tUop <|
    baseEntry s.tUop s.inDelaySlot (s.tUop.op == .JR && s.tUop.srcA == 31)

/-- The destination of the second uop, which may replace the first one's. -/
def destEntry2 (u : Uop) (e : RobEntry) : RobEntry :=
  if u.dstValid then
    { e with
      validDst := true, ldst := u.dst.setWidth 5, pdst := s.nPrfEntry2,
      oldPdst := if s.tUop.dstValid && s.tUop.dst == u.dst then s.tRobTail.pdst
        else s.allocRat (u.dst.setWidth 5) }
  else if u.fpDstValid then
    { e with
      validFpDst := true, ldst := u.dst.setWidth 5, pdst := s.nFpPrfEntry2,
      oldPdst := if s.tUop.fpDstValid && s.tUop.dst == u.dst then s.tRobTail.pdst
        else s.fpAllocRat (u.dst.setWidth 5) }
  else e

-- the return flag of the second entry looks at the first uop's source
def tRobNextTail : RobEntry :=
  foldEntry s.tFoldUop2 s.tUop2.op <| s.destEntry2 s.tUop2 <|
    baseEntry s.tUop2 s.tUop.hasDelaySlot (s.tUop2.op == .JR && s.tUop.srcA == 31)

/-- A completion overwrites the result fields of its entry. -/
def completeEntry (b : Complete) (e : RobEntry) : RobEntry :=
  { e with
    faulted := b.faulted, targetPc := b.restartPc, isIi := b.isIi, takeTrap := b.takeTrap,
    takeBr := b.takeBr, data := b.data }
def memEntry (r : MemRsp) (e : RobEntry) : RobEntry :=
  { e with
    data := r.data, faulted := r.faulted, exceptionTlbRefill := r.exceptionTlbRefill,
    exceptionTlbModified := r.exceptionTlbModified, exceptionTlbInvalid := r.exceptionTlbInvalid }

/-- The results that arrive in a cycle. -/
def writeResults (rob : RobPtr → RobEntry) : RobPtr → RobEntry :=
  modifyIf i.coreMemRspValid i.coreMemRsp.robPtr (memEntry i.coreMemRsp) <|
  modifyIf i.completeValid2 i.completeBundle2.robPtr (completeEntry i.completeBundle2) <|
  modifyIf i.completeValid1 i.completeBundle1.robPtr (completeEntry i.completeBundle1) rob

def nRob : RobPtr → RobEntry :=
  if c.tClrRob then fun p => { s.rob p with faulted := false }
  else writeResults i <|
    writeIf c.tAllocTwo (Ring.slot s.robNextTailPtr) s.tRobNextTail <|
    writeIf c.tAlloc (Ring.slot s.robTailPtr) s.tRobTail s.rob

def nRobComplete : BitVec 32 :=
  if c.tClrRob then 0
  else
    setBitIf i.coreMemRspValid i.coreMemRsp.robPtr true <|
    setBitIf i.completeValid2 i.completeBundle2.robPtr i.completeBundle2.complete <|
    setBitIf i.completeValid1 i.completeBundle1.robPtr i.completeBundle1.complete <|
    setBitIf c.tAllocTwo (Ring.slot s.robNextTailPtr) s.tFoldUop2 <|
    setBitIf c.tAlloc (Ring.slot s.robTailPtr) s.tFoldUop s.robComplete

def nRobDeadInsns : BitVec 32 :=
  if c.tClrRob then 0
  else
    setBitIf c.tAllocTwo (Ring.slot s.robNextTailPtr) true <|
    setBitIf c.tAlloc (Ring.slot s.robTailPtr) true <|
    setBitIf c.tRetireTwo (Ring.slot s.robNextHeadPtr) false <|
    setBitIf c.tRetire (Ring.slot s.robHeadPtr) false s.robDeadInsns

def tClrMask : BitVec 32 :=
  setBitIf i.coreMemRspValid i.coreMemRsp.robPtr true <|
  setBitIf i.completeValid2 i.completeBundle2.robPtr true <|
  setBitIf i.completeValid1 i.completeBundle1.robPtr true (i.uqWait ||| i.mqWait ||| i.fqWait)

def nRobInflight : BitVec 32 :=
  if s.dsDone then s.robInflight &&& ~~~tClrMask i
  else
    setBitIf (c.tAllocTwo && !s.tFoldUop2) (Ring.slot s.robNextTailPtr) true <|
    setBitIf (c.tAlloc && !s.tFoldUop) (Ring.slot s.robTailPtr) true <|
    setBitIf i.coreMemRspValid i.coreMemRsp.robPtr false <|
    setBitIf i.completeValid2 i.completeBundle2.robPtr false <|
    setBitIf i.completeValid1 i.completeBundle1.robPtr false s.robInflight

/-! ## Pointers -/

/-- How far allocation and retirement move their pointers in a cycle. -/
def allocStep : BitVec 6 := if c.tAlloc then if c.tAllocTwo then 2 else 1 else 0
def retireStep : BitVec 6 :=
  if c.tRetire || c.tBumpRobHead then if c.tRetireTwo then 2 else 1 else 0

def nRobHeadPtr : BitVec 6 := if c.tClrRob then 0 else s.robHeadPtr + retireStep c
def nRobNextHeadPtr : BitVec 6 := if c.tClrRob then 1 else s.robNextHeadPtr + retireStep c
def nRobTailPtr : BitVec 6 := if c.tClrRob then 0 else s.robTailPtr + allocStep c
def nRobNextTailPtr : BitVec 6 := if c.tClrRob then 1 else s.robNextTailPtr + allocStep c

/-! ## Decode queue -/

def tDecUop : Uop := decodeMips32 i.in32fpRegMode i.insn
def tDecUop2 : Uop := decodeMips32 i.in32fpRegMode i.insnTwo

/-- The queue takes one or two decoded uops in any state of the core. -/
def dqPush : Bool := i.insnValid && !s.tDqFull
def dqPushTwo : Bool := dqPush s i && !s.tDqNextFull && i.insnValidTwo

def nDq : BitVec 2 → Uop :=
  if c.tClrDq then s.dq
  else
    writeIf (dqPushTwo s i) (Ring.slot s.dqNextTailPtr) (tDecUop2 i) <|
    writeIf (dqPush s i) (Ring.slot s.dqTailPtr) (tDecUop i) s.dq

def dqPushStep : BitVec 3 := if dqPush s i then if dqPushTwo s i then 2 else 1 else 0
def dqPopStep : BitVec 3 := if c.tAlloc then if c.tAllocTwo then 2 else 1 else 0
/-- Both kinds of flush empty the queue. -/
def clearsDq : Bool := c.tClrRob || c.tClrDq

def nDqHeadPtr : BitVec 3 := if clearsDq c then 0 else s.dqHeadPtr + dqPopStep c
def nDqNextHeadPtr : BitVec 3 := if clearsDq c then 1 else s.dqNextHeadPtr + dqPopStep c
def nDqTailPtr : BitVec 3 := if clearsDq c then 0 else s.dqTailPtr + dqPushStep s i
def nDqNextTailPtr : BitVec 3 := if clearsDq c then 1 else s.dqNextTailPtr + dqPushStep s i
def nDqCnt : BitVec 3 := if clearsDq c then 0 else s.dqCnt + dqPushStep s i - dqPopStep c

/-! ## Ports -/

def insnAck : Bool := !s.tDqFull && i.insnValid && s.state == .ACTIVE
def insnAckTwo : Bool :=
  !s.tDqFull && i.insnValid && !s.tDqNextFull && i.insnValidTwo && s.state == .ACTIVE
def headOfRobPtrValid : Bool := s.state == .ACTIVE || s.state == .DRAIN && !s.dsDone
def headOfRobPtr : RobPtr := Ring.slot s.robHeadPtr
def tPush1 : Bool := c.tAlloc && !s.tFoldUop
def tPush2 : Bool := c.tAllocTwo && !s.tFoldUop2
/-- What the execution unit's queues are offered. -/
def uqUop : Uop := if s.tPush1 c then s.tAllocUop c else s.tAllocUop2 c
def uqUopTwo : Uop := s.tAllocUop2 c
def uqPush : Bool := s.tPush1 c || s.tPush2 c
def uqPushTwo : Bool := s.tPush2 c && s.tPush1 c

/-! ## Clock edge -/

def clock : Core where
  state := c.nState
  dq := s.nDq i c
  dqHeadPtr := s.nDqHeadPtr c
  dqNextHeadPtr := s.nDqNextHeadPtr c
  dqTailPtr := s.nDqTailPtr i c
  dqNextTailPtr := s.nDqNextTailPtr i c
  dqCnt := s.nDqCnt i c
  rob := s.nRob i c
  robComplete := s.nRobComplete i c
  robInflight := s.nRobInflight i c
  robDeadInsns := s.nRobDeadInsns c
  robHeadPtr := s.nRobHeadPtr c
  robNextHeadPtr := s.nRobNextHeadPtr c
  robTailPtr := s.nRobTailPtr c
  robNextTailPtr := s.nRobNextTailPtr c
  prfFree := if c.tRatCopy then s.retirePrfFree else s.nPrfFree c
  retirePrfFree := s.nRetirePrfFree c
  fpPrfFree := if c.tRatCopy then s.retireFpPrfFree else s.nFpPrfFree c
  retireFpPrfFree := s.nRetireFpPrfFree c
  hiloPrfFree := if c.tRatCopy then s.retireHiloPrfFree else s.nHiloPrfFree c
  retireHiloPrfFree := s.nRetireHiloPrfFree c
  fcrPrfFree := if c.tRatCopy then s.retireFcrPrfFree else s.nFcrPrfFree c
  retireFcrPrfFree := s.nRetireFcrPrfFree c
  bankSel := !s.bankSel
  allocRat := if c.tRatCopy then s.retireRat else s.nAllocRat c
  retireRat := s.nRetireRat c
  fpAllocRat := if c.tRatCopy then s.fpRetireRat else s.nFpAllocRat c
  fpRetireRat := s.nFpRetireRat c
  hiloAllocRat := if c.tRatCopy then s.hiloRetireRat else s.nHiloAllocRat c
  hiloRetireRat := s.nHiloRetireRat c
  fcrAllocRat := if c.tRatCopy then s.fcrRetireRat else s.nFcrAllocRat c
  fcrRetireRat := s.nFcrRetireRat c
  inDelaySlot := c.nInDelaySlot
  dsDone := c.nDsDone
  drainDsComplete := s.dsDone
  machineClr := c.nMachineClr
  delayslotRobPtr := c.nDelayslotRobPtr
  gotRestartAck := c.nGotRestartAck
  restartPc := c.nRestartPc
  restartSrcPc := c.nRestartSrcPc
  restartSrcIsIndirect := c.nRestartSrcIsIndirect
  restartValid := c.nRestartValid
  hasDelaySlot := c.nHasDelaySlot
  hasNullifyingDelaySlot := c.nHasNullifyingDelaySlot
  takeBr := c.nTakeBr
  cause := c.nCause
  gotBreak := c.nGotBreak
  gotSyscall := c.nGotSyscall
  gotUd := c.nGotUd
  readyForResume := c.nReadyForResume
  flushReq := c.nFlushReq
  flushClReq := c.nFlushClReq
  flushClAddr := c.nFlushClAddr
  l1iFlushComplete := c.nL1iFlushComplete
  l1dFlushComplete := c.nL1dFlushComplete
  monitorReason := c.nMonitorReason
  monitorRspData := c.nMonitorRspData
  archA0 :=
    if s.tRobHead.validDst && c.tRetire && s.tRobHead.ldst == 4 then s.tRobHead.data else s.archA0
  externIrq := if c.tClrExternIrq then false else s.externIrq || i.externIrq
  branchPc :=
    if c.tRetire then if c.tRetireTwo then s.tRobNextHead.pc else s.tRobHead.pc else 0
  tookBranch :=
    c.tRetire && if c.tRetireTwo then s.tRobNextHead.takeBr else s.tRobHead.takeBr
  branchValid := c.tRetire && if c.tRetireTwo then s.tRobNextHead.isBr else s.tRobHead.isBr
  branchFault := c.tRetire && s.tRobHead.faulted
  branchPhtIdx :=
    if c.tRetire then if c.tRetireTwo then s.tRobNextHead.phtIdx else s.tRobHead.phtIdx else 0
  retireRegPtr := s.tRobHead.ldst
  retireRegData := s.tRobHead.data
  retireRegValid := s.tRobHead.validDst && c.tRetire
  retireRegFpValid := s.tRobHead.validFpDst && c.tRetire
  retireRegTwoPtr := s.tRobNextHead.ldst
  retireRegTwoData := s.tRobNextHead.data
  retireRegTwoValid := s.tRobNextHead.validDst && c.tRetireTwo
  retireRegFpTwoValid := s.tRobNextHead.validFpDst && c.tRetireTwo
  retireValid := c.tRetire
  retireTwoValid := c.tRetireTwo
  retirePc := s.tRobHead.pc
  retireTwoPc := s.tRobNextHead.pc
  retireDelaySlot := s.tRobHead.inDelaySlot && c.tRetire
  retiredCall := s.tRobHead.isCall && c.tRetire
  retiredRet := s.tRobHead.isRet && c.tRetire
  retiredRobPtrValid := c.tRetire
  retiredRobPtrTwoValid := c.tRetireTwo
  retiredRobPtr := Ring.slot s.robHeadPtr
  retiredRobPtrTwo := Ring.slot s.robNextHeadPtr

/-- One cycle of the core. -/
def step : Core := s.clock i (s.comb i)

/-- The same cycle with conditions on the index for the writes to memories and maps. -/
def stepEval : Core :=
  let c := s.comb i
  { s.clock i c with
    dq :=
      if c.tClrDq then s.dq
      else
        putIf (dqPushTwo s i) (Ring.slot s.dqNextTailPtr) (tDecUop2 i) <|
        putIf (dqPush s i) (Ring.slot s.dqTailPtr) (tDecUop i) s.dq
    rob :=
      if c.tClrRob then fun p => { s.rob p with faulted := false }
      else
        alterIf i.coreMemRspValid i.coreMemRsp.robPtr (memEntry i.coreMemRsp) <|
        alterIf i.completeValid2 i.completeBundle2.robPtr (completeEntry i.completeBundle2) <|
        alterIf i.completeValid1 i.completeBundle1.robPtr (completeEntry i.completeBundle1) <|
        putIf c.tAllocTwo (Ring.slot s.robNextTailPtr) s.tRobNextTail <|
        putIf c.tAlloc (Ring.slot s.robTailPtr) s.tRobTail s.rob
    allocRat :=
      if c.tRatCopy then s.retireRat
      else
        putIf (c.tAllocTwo && s.tUop2.dstValid) (s.tUop2.dst.setWidth 5) s.nPrfEntry2 <|
        putIf (c.tAlloc && s.tUop.dstValid) (s.tUop.dst.setWidth 5) s.nPrfEntry s.allocRat
    retireRat :=
      putIf (s.tFreeRegTwo c) s.tRobNextHead.ldst s.tRobNextHead.pdst <|
      putIf (s.tFreeReg c) s.tRobHead.ldst s.tRobHead.pdst s.retireRat
    fpAllocRat :=
      if c.tRatCopy then s.fpRetireRat
      else
        putIf (c.tAllocTwo && fpDst s.tUop2) (s.tUop2.dst.setWidth 5) s.nFpPrfEntry2 <|
        putIf (c.tAlloc && fpDst s.tUop) (s.tUop.dst.setWidth 5) s.nFpPrfEntry s.fpAllocRat
    fpRetireRat :=
      putIf (s.tFreeFpRegTwo c) s.tRobNextHead.ldst s.tRobNextHead.pdst <|
      putIf (s.tFreeFpReg c) s.tRobHead.ldst s.tRobHead.pdst s.fpRetireRat }

theorem step_eq_stepEval : step = stepEval := by
  funext s i
  simp only [step, stepEval, clock, ← writeIf_eq_putIf, ← modifyIf_eq_alterIf]
  rfl

end Core
end MipsCore
