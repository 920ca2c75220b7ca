import MipsCore.Exec.Alu
import MipsCore.Lib.Clocked

/-! # Datapath and clock edge of the execution unit

The uop queues, the integer scheduler, the multiplier, the issue of memory
requests and the register files of `exec.sv`.
-/
namespace MipsCore
namespace Exec
open BitMask (setBit setBitIf)
open Ring (writeIf putIf writeIf_eq_putIf)
variable (e : Exec) (i : ExecIn)

/-! ## Queue views -/

/-- A full queue: the pointers name the same slot and differ. -/
def ptrFull (h t : BitVec 4) : Bool := h != t && Ring.slot h == Ring.slot t

def tUqEmpty : Bool := e.uqHeadPtr == e.uqTailPtr
def tMemUqEmpty : Bool := e.memUqHeadPtr == e.memUqTailPtr
def tFpUqEmpty : Bool := e.fpUqHeadPtr == e.fpUqTailPtr
def uqFull : Bool :=
  ptrFull e.uqHeadPtr e.uqTailPtr || ptrFull e.memUqHeadPtr e.memUqTailPtr ||
    ptrFull e.fpUqHeadPtr e.fpUqTailPtr
def uqNextFull : Bool :=
  ptrFull e.uqHeadPtr e.uqNextTailPtr || ptrFull e.memUqHeadPtr e.memUqNextTailPtr ||
    ptrFull e.fpUqHeadPtr e.fpUqNextTailPtr
def memQFull : Bool := ptrFull e.mqHeadPtr e.mqTailPtr
def memQEmpty : Bool := e.mqHeadPtr == e.mqTailPtr

def uqHead : Uop := e.uq (Ring.slot e.uqHeadPtr)
def memUqHead : Uop := e.memUq (Ring.slot e.memUqHeadPtr)
def fpUqHead : Uop := e.fpUq (Ring.slot e.fpUqHeadPtr)

/-- A cycle pushes two uops of a class, or one: the first of that class. -/
def pushTwo (cls : Uop → Bool) : Bool := i.uqPush && i.uqPushTwo && cls i.uqUop && cls i.uqUopTwo
def pushOne (cls : Uop → Bool) : Bool :=
  (i.uqPush && cls i.uqUop || i.uqPushTwo && cls i.uqUopTwo) && !pushTwo i cls
def pushUop (cls : Uop → Bool) : Uop := if cls i.uqUop then i.uqUop else i.uqUopTwo

def nUopQueue (cls : Uop → Bool) (tail nextTail : BitVec 4) (q : BitVec 3 → Uop) : BitVec 3 → Uop :=
  if pushTwo i cls then
    Function.update (Function.update q (Ring.slot tail) i.uqUop) (Ring.slot nextTail) i.uqUopTwo
  else writeIf (pushOne i cls) (Ring.slot tail) (pushUop i cls) q

def pushStep (cls : Uop → Bool) : BitVec 4 :=
  if pushTwo i cls then 2 else if pushOne i cls then 1 else 0

/-! ## The latched integer uop -/

def tSrc (p : PrfPtr) : Word := narrow e.in32bMode (e.intPrf p)

def aluIn : AluIn where
  uop := e.intUop
  srcA := e.tSrc e.intUop.srcA
  srcB := e.tSrc e.intUop.srcB
  srcC := e.tSrc e.intUop.srcC
  hilo := e.hiloPrf e.intUop.hiloSrc
  fcr := e.fcrPrf e.intUop.hiloSrc
  cpr0SrcA := e.cpr0 (e.intUop.srcA.setWidth 5)
  monitorRspData := i.monitorRspData
  in32bMode := e.in32bMode
  in32fpRegMode := e.in32fpRegMode
  starts := e.startInt && !i.dsDone

def alu : AluOut := Alu.run (e.aluIn i)

/-- What the integer uop writes when it has really been issued. -/
def wrInt : Bool := e.startInt && (e.alu i).wrIntPrf
def wrHilo : Bool := e.startInt && (e.alu i).wrHilo

/-! ## Multiplier -/

/-- `t_mul`, the product that enters the pipeline. -/
def tMul : Word :=
  if e.intUop.op = .MULTU then
    (lo32 (e.tSrc e.intUop.srcA)).setWidth 64 * (lo32 (e.tSrc e.intUop.srcB)).setWidth 64
  else (lo32 (e.tSrc e.intUop.srcA)).signExtend 64 * (lo32 (e.tSrc e.intUop.srcB)).signExtend 64

def mulGo : Bool := (e.alu i).startMul && e.startInt

def nMul0 : MulStage where
  mul := e.tMul
  complete := e.mulGo i
  doMadd := e.mulGo i && e.intUop.op == .MADD
  doMsub := e.mulGo i && e.intUop.op == .MSUB
  robPtr := e.intUop.robPtr
  gprVal := e.mulGo i && e.intUop.op == .MUL
  gprPtr := e.intUop.dst
  hiloVal := e.mulGo i && e.intUop.op != .MUL
  hiloPtr := e.intUop.hiloDst
  madd := e.hiloPrf e.intUop.hiloSrc

/-- `y`, the result at the end of the pipeline. -/
def tMulResult : Word :=
  if e.mul2.doMadd then e.mul2.mul + e.mul2.madd
  else if e.mul2.doMsub then e.mul2.mul - e.mul2.madd
  else e.mul2.mul

/-! ## Integer scheduler -/

/-- The results of the cycle that wake a source. -/
def wakes (p : PrfPtr) : Bool :=
  i.memRsp.dstValid && i.memRsp.dstPtr == p || e.mul2.gprVal && e.mul2.gprPtr == p ||
    e.wrInt i && e.intUop.dst == p
def wakesHilo (p : HiloPtr) : Bool :=
  e.mul2.hiloVal && e.mul2.hiloPtr == p || i.divComplete && i.divHiloPtr == p ||
    e.wrHilo i && e.intUop.hiloDst == p
def wakesFcr (p : HiloPtr) : Bool := i.fpuFcrValid && i.fpuFcrPtr == p

def srcAMatch (u : Uop) : Bool := u.srcAValid && e.wakes i u.srcA
def srcBMatch (u : Uop) : Bool := u.srcBValid && e.wakes i u.srcB
def srcCMatch (u : Uop) : Bool := u.srcCValid && e.wakes i u.srcC
def hiloMatch (u : Uop) : Bool := u.hiloSrcValid && e.wakesHilo i u.hiloSrc
def fcrMatch (u : Uop) : Bool := u.fcrSrcValid && wakesFcr i u.hiloSrc

/-- The unit that an operation needs is free at its writeback. -/
def unitFree (op : Opcode) : Bool :=
  if isDiv op then i.divReady else if isMult op then !e.wbBitvec.getLsbD 4 else !e.wbBitvec.getLsbD 1

def entryRdy (k : BitVec 2) : Bool :=
  e.aluSchedValid.getLsbD k.toNat && e.unitFree i (e.aluSchedUops k).op &&
    ((e.srcAMatch i (e.aluSchedUops k) || e.aluSrcARdy.getLsbD k.toNat) &&
      (e.srcBMatch i (e.aluSchedUops k) || e.aluSrcBRdy.getLsbD k.toNat) &&
      (e.srcCMatch i (e.aluSchedUops k) || e.aluSrcCRdy.getLsbD k.toNat) &&
      (e.hiloMatch i (e.aluSchedUops k) || e.aluHiloRdy.getLsbD k.toNat) &&
      (fcrMatch i (e.aluSchedUops k) || e.aluFcrRdy.getLsbD k.toNat))

/-- A four-bit mask from a flag of each scheduler entry. -/
def entryMask (f : BitVec 2 → Bool) : BitVec 4 :=
  BitVec.ofBool (f 3) ++ BitVec.ofBool (f 2) ++ BitVec.ofBool (f 1) ++ BitVec.ofBool (f 0)

def tAluEntryRdy : BitVec 4 := entryMask (e.entryRdy i)
/-- The entry that the fair scheduler names, also when nothing is ready. -/
def selectPtr : BitVec 2 := (fairSched 0 e.schedCnt (e.tAluEntryRdy i)).setWidth 2
def allocPtr : BitVec 2 := (findFirstSet 0 (~~~e.aluSchedValid)).setWidth 2
def tAluSchedFull : Bool := e.aluSchedValid == BitVec.allOnes 4
def tPopUq : Bool := !(i.dsDone || e.tUqEmpty || e.tAluSchedFull)
def selects : Bool := e.tAluEntryRdy i != 0

def nAluSchedValid : BitVec 4 :=
  if i.dsDone then 0
  else
    setBitIf (e.selects i) (e.selectPtr i) false (setBitIf (e.tPopUq i) e.allocPtr true e.aluSchedValid)

/-- A source-ready bit of each entry: set at allocation, cleared at selection, woken by results. -/
def nSrcRdy (allocRdy : Bool) (woken : Uop → Bool) (rdy : BitVec 4) : BitVec 4 :=
  entryMask fun k =>
    if e.tPopUq i && k == e.allocPtr then allocRdy
    else if e.selects i && k == e.selectPtr i then false
    else if e.aluSchedValid.getLsbD k.toNat then
      rdy.getLsbD k.toNat || woken (e.aluSchedUops k)
    else rdy.getLsbD k.toNat

/-- An allocated source is ready when it is not in flight or is being written. -/
def allocRdy (valid inflight woken : Bool) : Bool := if valid then !inflight || woken else true

/-! ## Memory requests -/

/-- The head of the memory queue as a request, and whether it issues. -/
structure MemIssue where
  srcsRdy : Bool := false
  tail : MemReq

def tMemAddr : Word := e.intPrf e.memUqHead.srcA + e.memUqHead.imm.signExtend 64

/-- The defaults of the request. -/
def memTail : MemReq where
  op := .LW
  robPtr := e.memUqHead.robPtr
  dstPtr := e.memUqHead.dst
  pc := e.memUqHead.pc

def intBusy (p : PrfPtr) : Bool := e.prfInflight.getLsbD p.toNat
def fpBusy (p : PrfPtr) : Bool := e.fpPrfInflight.getLsbD p.toNat

/-- The request issues unless the queue is full or one of its sources is in flight. -/
def memIssue (busy : Bool) (r : MemReq) : MemIssue :=
  if e.memQFull || busy then { tail := e.memTail } else { srcsRdy := true, tail := r }

def storeIssue (op : MemOp) : MemIssue :=
  e.memIssue (e.intBusy e.memUqHead.srcA || e.intBusy e.memUqHead.srcB)
    { e.memTail with
      op := op, isStore := true, addr := e.tMemAddr, data := e.intPrf e.memUqHead.srcB }

def loadIssue (op : MemOp) : MemIssue :=
  e.memIssue (e.intBusy e.memUqHead.srcA)
    { e.memTail with op := op, addr := e.tMemAddr, dstValid := true }

def loadMergeIssue (op : MemOp) : MemIssue :=
  e.memIssue (e.intBusy e.memUqHead.srcA || e.intBusy e.memUqHead.srcB)
    { e.memTail with
      op := op, addr := e.tMemAddr, dstValid := true, data := e.intPrf e.memUqHead.srcB }

def fpStoreIssue (op : MemOp) (lo : Bool) : MemIssue :=
  e.memIssue (e.intBusy e.memUqHead.srcA || e.fpBusy e.memUqHead.srcB)
    { e.memTail with
      op := op, isStore := true, lwc1Lo := lo, addr := e.tMemAddr, data := e.fpPrf e.memUqHead.srcB,
      isFp := true }

def headIssue : MemIssue :=
  match e.memUqHead.op with
  | .SB => e.storeIssue .SB
  | .SH => e.storeIssue .SH
  | .SW => e.storeIssue .SW
  | .SDC1 => e.fpStoreIssue .SDC1 false
  | .SWC1_MERGE => e.fpStoreIssue .SWC1_MERGE (e.memUqHead.jmpImm.getLsbD 0)
  | .SYNC =>
    if e.memQEmpty then { srcsRdy := true, tail := { e.memTail with op := .DEAD_LD } }
    else { tail := e.memTail }
  | .SC => { e.storeIssue .SC with
      tail := { (e.storeIssue .SC).tail with dstValid := (e.storeIssue .SC).srcsRdy } }
  | .SWR => e.storeIssue .SWR
  | .SWL => e.storeIssue .SWL
  | .LW => e.loadIssue .LW
  | .LDC1 =>
    e.memIssue (e.intBusy e.memUqHead.srcA)
      { e.memTail with op := .LDC1, addr := e.tMemAddr, fpDstValid := true, isFp := true }
  | .LWC1_MERGE =>
    e.memIssue (e.intBusy e.memUqHead.srcA || e.fpBusy e.memUqHead.srcB)
      { e.memTail with
        op := .LWC1_MERGE, lwc1Lo := e.memUqHead.jmpImm.getLsbD 0, data := e.fpPrf e.memUqHead.srcB,
        addr := e.tMemAddr, fpDstValid := true, isFp := true }
  | .LWL => e.loadMergeIssue .LWL
  | .LWR => e.loadMergeIssue .LWR
  | .LB => e.loadIssue .LB
  | .LBU => e.loadIssue .LBU
  | .LHU => e.loadIssue .LHU
  | .LH => e.loadIssue .LH
  | .MFC1_MERGE =>
    e.memIssue (e.fpBusy e.memUqHead.srcB)
      { e.memTail with
        op := .MFC1_MERGE, lwc1Lo := e.memUqHead.jmpImm.getLsbD 0, data := e.fpPrf e.memUqHead.srcB,
        dstValid := true, isFp := true }
  | .MTC1_MERGE =>
    e.memIssue (e.intBusy e.memUqHead.srcA || e.fpBusy e.memUqHead.srcB)
      { e.memTail with
        op := .MTC1_MERGE, lwc1Lo := e.memUqHead.jmpImm.getLsbD 0, data := e.fpPrf e.memUqHead.srcB,
        addr := e.intPrf e.memUqHead.srcA, fpDstValid := true, isFp := true }
  | _ => { tail := e.memTail }

def tPushMq : Bool := !e.tMemUqEmpty && e.headIssue.srcsRdy
def tPopMemUq : Bool := !(e.tMemUqEmpty || i.dsDone) && e.headIssue.srcsRdy
def tPopFpUq : Bool := !(e.tFpUqEmpty || i.dsDone) && i.fpSrcsRdy

def memReq : MemReq := e.memQ (Ring.slot e.mqHeadPtr)
def memReqValid : Bool := !e.memQEmpty

/-! ## Scoreboards -/

def nPrfInflight : BitVec 64 :=
  setBitIf (e.wrInt i) e.intUop.dst false <|
  setBitIf e.mul2.gprVal e.mul2.gprPtr false <|
  setBitIf i.memRsp.dstValid i.memRsp.dstPtr false <|
  setBitIf (i.uqPushTwo && i.uqUopTwo.dstValid) i.uqUopTwo.dst true <|
  setBitIf (i.uqPush && i.uqUop.dstValid) i.uqUop.dst true e.prfInflight

def nHiloInflight : BitVec 4 :=
  setBitIf (e.wrHilo i) e.intUop.hiloDst false <|
  setBitIf i.divComplete i.divHiloPtr false <|
  setBitIf e.mul2.hiloVal e.mul2.hiloPtr false <|
  setBitIf (i.uqPushTwo && i.uqUopTwo.hiloDstValid) i.uqUopTwo.hiloDst true <|
  setBitIf (i.uqPush && i.uqUop.hiloDstValid) i.uqUop.hiloDst true e.hiloInflight

def nFcrPrfInflight : BitVec 4 :=
  setBitIf i.fpuFcrValid i.fpuFcrPtr false <|
  setBitIf (i.uqPushTwo && i.uqUopTwo.fcrDstValid) i.uqUopTwo.hiloDst true <|
  setBitIf (i.uqPush && i.uqUop.fcrDstValid) i.uqUop.hiloDst true e.fcrPrfInflight

def nFpPrfInflight : BitVec 64 :=
  setBitIf i.fpWrPrf e.fpUqHead.dst false <|
  setBitIf i.fpuResultValid i.fpuDstPtr false <|
  setBitIf i.memRsp.fpDstValid i.memRsp.dstPtr false <|
  setBitIf (i.uqPushTwo && i.uqUopTwo.fpDstValid) i.uqUopTwo.dst true <|
  setBitIf (i.uqPush && i.uqUop.fpDstValid) i.uqUop.dst true e.fpPrfInflight

/-- The uops of a class that wait for issue, by reorder buffer slot. -/
def nWait (cls : Uop → Bool) (pop : Bool) (popped : RobPtr) (m : BitVec 32) : BitVec 32 :=
  if i.restartComplete then 0
  else
    setBitIf pop popped false <|
    if pushTwo i cls then setBit (setBit m i.uqUop.robPtr.toNat true) i.uqUopTwo.robPtr.toNat true
    else setBitIf (pushOne i cls) (pushUop i cls).robPtr true m

/-! ## Register files -/

/-- The first write port serves the integer uop before the multiplier; the second one memory
before the clearing of a system call's argument. -/
def nIntPrf : PrfPtr → Word :=
  let prf :=
    if e.wrInt i then
      Function.update e.intPrf e.intUop.dst (narrow e.in32bMode (e.alu i).result)
    else if e.mul2.gprVal then
      Function.update e.intPrf e.mul2.gprPtr
        (if e.in32bMode then (lo32 e.tMulResult).setWidth 64 else (lo32 e.tMulResult).signExtend 64)
    else e.intPrf
  if i.memRsp.dstValid then
    Function.update prf i.memRsp.dstPtr (narrow e.in32bMode i.memRsp.data)
  else if (e.alu i).gotSyscall && e.startInt then Function.update prf e.intUop.srcA 0
  else prf

def nHiloPrf : HiloPtr → Word :=
  if e.wrHilo i then Function.update e.hiloPrf e.intUop.hiloDst (e.alu i).hiloResult
  else if e.mul2.hiloVal then Function.update e.hiloPrf e.mul2.hiloPtr e.tMulResult
  else writeIf i.divComplete i.divHiloPtr i.divResult e.hiloPrf

def nFpPrf : PrfPtr → Word :=
  writeIf i.memRsp.fpDstValid i.memRsp.dstPtr i.memRsp.data <|
    if i.fpWrPrf then Function.update e.fpPrf e.fpUqHead.dst i.fpMovResult
    else writeIf i.fpuResultValid i.fpuDstPtr i.fpuResult e.fpPrf

def wrCpr0 : Bool := e.startInt && (e.alu i).wrCpr0

def nCpr0 : BitVec 5 → Word :=
  if e.wrCpr0 i then Function.update e.cpr0 (e.alu i).dstCpr0 (e.alu i).cpr0Result
  else if e.startInt && (e.alu i).setThreadArea then
    Function.update e.cpr0 29 (e.alu i).cpr0Result
  else writeIf i.exceptionWrCpr0Val i.exceptionWrCpr0Ptr i.exceptionWrCpr0Data e.cpr0

def nCpr0StatusReg : Word :=
  if e.wrCpr0 i && (e.alu i).dstCpr0 == 12 then (e.alu i).cpr0Result else e.cpr0StatusReg

/-! ## Completion ports -/

def nCompleteValid1 : Bool :=
  e.startInt && (e.alu i).aluValid || e.mul2.complete || i.divComplete

def nCompleteBundle1 : Complete :=
  if e.mul2.complete || i.divComplete then
    { robPtr := if e.mul2.complete then e.mul2.robPtr else i.divRobPtr, complete := true,
      data := e.tMulResult }
  else
    { robPtr := e.intUop.robPtr
      complete := (e.alu i).aluValid
      faulted := (e.alu i).mispredBr || (e.alu i).unimpOp || (e.alu i).fault
      restartPc := (e.alu i).pc
      isIi := (e.alu i).unimpOp
      takeBr := (e.alu i).takeBr
      data := narrow e.in32bMode (e.alu i).result }

def nCompleteBundle2 : Complete :=
  if i.fpuResultValid || i.fpuFcrValid then
    { robPtr := i.fpuRobPtr, complete := true, data := i.fpuResult }
  else { robPtr := e.fpUqHead.robPtr, complete := true, data := i.fpMovResult }

/-! ## Clock edge -/

/-- A pointer of a uop queue: both kinds of flush return it to its reset value. -/
def nPtr (reset step p : BitVec 4) : BitVec 4 := if i.dsDone then reset else p + step

/-- One cycle of the execution unit. -/
def step : Exec where
  intPrf := e.nIntPrf i
  fpPrf := e.nFpPrf i
  hiloPrf := e.nHiloPrf i
  fcrPrf := writeIf i.fpuFcrValid i.fpuFcrPtr (i.fpuResult.setWidth 8) e.fcrPrf
  cpr0 := e.nCpr0 i
  cpr0StatusReg := e.nCpr0StatusReg i
  in32bMode := (e.alu i).nIn32bMode
  in32fpRegMode := (e.alu i).nIn32fpRegMode
  prfInflight := if i.dsDone then 0 else e.nPrfInflight i
  fpPrfInflight := if i.dsDone then 0 else e.nFpPrfInflight i
  hiloInflight := if i.dsDone then 0 else e.nHiloInflight i
  fcrPrfInflight := if i.dsDone then 0 else e.nFcrPrfInflight i
  uq := nUopQueue i Uop.isInt e.uqTailPtr e.uqNextTailPtr e.uq
  uqHeadPtr := nPtr i 0 (Ring.bump (e.tPopUq i)) e.uqHeadPtr
  uqTailPtr := nPtr i 0 (pushStep i Uop.isInt) e.uqTailPtr
  uqNextTailPtr := nPtr i 1 (pushStep i Uop.isInt) e.uqNextTailPtr
  memUq := nUopQueue i Uop.isMem e.memUqTailPtr e.memUqNextTailPtr e.memUq
  memUqHeadPtr := nPtr i 0 (Ring.bump (e.tPopMemUq i)) e.memUqHeadPtr
  memUqTailPtr := nPtr i 0 (pushStep i Uop.isMem) e.memUqTailPtr
  memUqNextTailPtr := nPtr i 1 (pushStep i Uop.isMem) e.memUqNextTailPtr
  fpUq := nUopQueue i Uop.isFp e.fpUqTailPtr e.fpUqNextTailPtr e.fpUq
  fpUqHeadPtr := nPtr i 0 (Ring.bump (e.tPopFpUq i)) e.fpUqHeadPtr
  fpUqTailPtr := nPtr i 0 (pushStep i Uop.isFp) e.fpUqTailPtr
  fpUqNextTailPtr := nPtr i 1 (pushStep i Uop.isFp) e.fpUqNextTailPtr
  uqWait := nWait i Uop.isInt e.startInt e.intUop.robPtr e.uqWait
  mqWait := nWait i Uop.isMem (e.tPopMemUq i) e.memUqHead.robPtr e.mqWait
  fqWait := nWait i Uop.isFp (e.tPopFpUq i) e.fpUqHead.robPtr e.fqWait
  aluSchedValid := e.nAluSchedValid i
  aluSchedUops := writeIf (e.tPopUq i) e.allocPtr e.uqHead e.aluSchedUops
  aluSrcARdy :=
    e.nSrcRdy i (allocRdy e.uqHead.srcAValid (e.intBusy e.uqHead.srcA) (e.srcAMatch i e.uqHead))
      (e.srcAMatch i) e.aluSrcARdy
  aluSrcBRdy :=
    e.nSrcRdy i (allocRdy e.uqHead.srcBValid (e.intBusy e.uqHead.srcB) (e.srcBMatch i e.uqHead))
      (e.srcBMatch i) e.aluSrcBRdy
  aluSrcCRdy :=
    e.nSrcRdy i (allocRdy e.uqHead.srcCValid (e.intBusy e.uqHead.srcC) (e.srcCMatch i e.uqHead))
      (e.srcCMatch i) e.aluSrcCRdy
  aluHiloRdy :=
    e.nSrcRdy i
      (allocRdy e.uqHead.hiloSrcValid (e.hiloInflight.getLsbD e.uqHead.hiloSrc.toNat)
        (e.hiloMatch i e.uqHead))
      (e.hiloMatch i) e.aluHiloRdy
  aluFcrRdy :=
    e.nSrcRdy i
      (allocRdy e.uqHead.fcrSrcValid (e.fcrPrfInflight.getLsbD e.uqHead.hiloSrc.toNat)
        (fcrMatch i e.uqHead))
      (fcrMatch i) e.aluFcrRdy
  schedCnt := fairSchedCnt 0 e.schedCnt (e.tAluEntryRdy i)
  intUop := e.aluSchedUops (e.selectPtr i)
  startInt := e.selects i && !i.dsDone
  wbBitvec :=
    let wb := setBit (e.wbBitvec >>> 1) 35 ((e.alu i).startDiv32 && e.startInt)
    if e.mulGo i then setBit wb 2 true else wb
  mul0 := e.nMul0 i
  mul1 := e.mul0
  mul2 := e.mul1
  memQ := writeIf e.tPushMq (Ring.slot e.mqTailPtr) e.headIssue.tail e.memQ
  mqHeadPtr := e.mqHeadPtr + Ring.bump i.memReqAck
  mqTailPtr := e.mqTailPtr + Ring.bump e.tPushMq
  completeBundle1 := e.nCompleteBundle1 i
  completeValid1 := e.nCompleteValid1 i
  completeBundle2 := e.nCompleteBundle2 i
  completeValid2 := i.fpWrPrf || i.fpuResultValid || i.fpuFcrValid

/-! ## The clock edge for evaluation -/

def nUopQueueEval (cls : Uop → Bool) (tail nextTail : BitVec 4) (q : BitVec 3 → Uop) :
    BitVec 3 → Uop :=
  if pushTwo i cls then
    putIf true (Ring.slot nextTail) i.uqUopTwo (putIf true (Ring.slot tail) i.uqUop q)
  else putIf (pushOne i cls) (Ring.slot tail) (pushUop i cls) q

/-- The same cycle with conditions on the index for the writes to queues and register files. -/
def stepEval : Exec :=
  let a := e.alu i
  { e.step i with
    intPrf :=
      let prf :=
        if e.wrInt i then putIf true e.intUop.dst (narrow e.in32bMode a.result) e.intPrf
        else
          putIf e.mul2.gprVal e.mul2.gprPtr
            (if e.in32bMode then (lo32 e.tMulResult).setWidth 64
              else (lo32 e.tMulResult).signExtend 64)
            e.intPrf
      if i.memRsp.dstValid then putIf true i.memRsp.dstPtr (narrow e.in32bMode i.memRsp.data) prf
      else putIf (a.gotSyscall && e.startInt) e.intUop.srcA 0 prf
    hiloPrf :=
      if e.wrHilo i then putIf true e.intUop.hiloDst a.hiloResult e.hiloPrf
      else if e.mul2.hiloVal then putIf true e.mul2.hiloPtr e.tMulResult e.hiloPrf
      else putIf i.divComplete i.divHiloPtr i.divResult e.hiloPrf
    fpPrf :=
      putIf i.memRsp.fpDstValid i.memRsp.dstPtr i.memRsp.data <|
        if i.fpWrPrf then putIf true e.fpUqHead.dst i.fpMovResult e.fpPrf
        else putIf i.fpuResultValid i.fpuDstPtr i.fpuResult e.fpPrf
    fcrPrf := putIf i.fpuFcrValid i.fpuFcrPtr (i.fpuResult.setWidth 8) e.fcrPrf
    cpr0 :=
      if e.wrCpr0 i then putIf true a.dstCpr0 a.cpr0Result e.cpr0
      else if e.startInt && a.setThreadArea then putIf true 29 a.cpr0Result e.cpr0
      else putIf i.exceptionWrCpr0Val i.exceptionWrCpr0Ptr i.exceptionWrCpr0Data e.cpr0
    uq := nUopQueueEval i Uop.isInt e.uqTailPtr e.uqNextTailPtr e.uq
    memUq := nUopQueueEval i Uop.isMem e.memUqTailPtr e.memUqNextTailPtr e.memUq
    fpUq := nUopQueueEval i Uop.isFp e.fpUqTailPtr e.fpUqNextTailPtr e.fpUq
    aluSchedUops := putIf (e.tPopUq i) e.allocPtr e.uqHead e.aluSchedUops
    memQ := putIf e.tPushMq (Ring.slot e.mqTailPtr) e.headIssue.tail e.memQ }

theorem step_eq_stepEval : step = stepEval := by
  funext e i
  simp only [step, stepEval, nUopQueueEval, ← writeIf_eq_putIf]
  rfl

end Exec
end MipsCore
