import MipsCore.L1i.State

/-! # One cycle of the instruction cache

Predecode, prediction, the fetch state machine and the clock edge of `l1i.sv`.
-/
namespace MipsCore
open Ring (writeIf putIf writeIf_eq_putIf)

/-- `predecode` -/
def predecode (insn : BitVec 32) : Jump :=
  let rs : BitVec 5 := insn.extractLsb' 21 5
  let rt : BitVec 5 := insn.extractLsb' 16 5
  match (insn.extractLsb' 26 6).toNat with
  | 0 =>
    if insn.extractLsb' 0 6 = 8#6 then if rs = 31 then .IS_JR_R31 else .IS_JR
    else if insn.extractLsb' 0 6 = 9#6 then .IS_JALR
    else .NOT_CFLOW
  | 1 =>
    match rt.toNat with
    | 0 | 1 => .IS_COND_BR
    | 2 | 3 => .IS_L_COND_BR
    | 17 => .IS_BR_AND_LINK
    | _ => .NOT_CFLOW
  | 2 => .IS_J
  | 3 => .IS_JAL
  | 4 => if rs = 0 ∧ rt = 0 then .IS_BR else .IS_COND_BR
  | 5 | 6 | 7 => .IS_COND_BR
  | 17 =>
    if rs = 8 then if insn.getLsbD 17 then .IS_L_COND_BR else .IS_COND_BR else .NOT_CFLOW
  | 20 | 21 | 22 | 23 => .IS_L_COND_BR
  | _ => .NOT_CFLOW

/-- `compute_pht_idx` -/
def computePhtIdx (pc : Word) (hist : BitVec 64) : BitVec 16 :=
  let fold0 : BitVec 32 := hist.extractLsb' 0 32 ^^^ hist.extractLsb' 32 32
  let fold1 : BitVec 16 := fold0.extractLsb' 16 16 ^^^ fold0.extractLsb' 0 16
  fold1 ^^^ pc.extractLsb' 3 16

/-- The position of the lowest marker. -/
def firstMarker (m : BitVec 5) : ℕ :=
  if m.getLsbD 0 then 0 else if m.getLsbD 1 then 1 else if m.getLsbD 2 then 2
  else if m.getLsbD 3 then 3 else if m.getLsbD 4 then 4 else 7

namespace L1i
variable (s : L1i) (i : L1iIn)

/-! ## Fetch queue views -/

def fqEmpty : Bool := s.fqHeadPtr == s.fqTailPtr
def fqNextEmpty : Bool := s.fqNextHeadPtr == s.fqTailPtr
/-- The head and a tail pointer name the same slot and differ. -/
def fullAt (t : BitVec 4) : Bool := s.fqHeadPtr != t && Ring.slot s.fqHeadPtr == Ring.slot t
def fqFull : Bool := s.fullAt s.fqTailPtr
def fqFull2 : Bool := s.fullAt s.fqNextTailPtr || s.fqFull
def fqFull3 : Bool := s.fullAt s.fqNext3TailPtr || s.fqFull2
def fqFull4 : Bool := s.fullAt s.fqNext4TailPtr || s.fqFull3

/-! ## The line that has been read -/

def tHit : Bool := s.req && (s.validOut && s.tagOut == s.cacheTag)
def tMiss : Bool := s.req && !(s.validOut && s.tagOut == s.cacheTag)
def tInsnIdx : BitVec 2 := wordIdx s.cachePc
def tPd : Jump := s.jumpOut s.tInsnIdx
/-- `t_insn_data` .. `t_insn_data4` -/
def tInsnData (k : BitVec 2) : BitVec 32 := selectCl32 s.arrayOut (s.tInsnIdx + k)

def isCflow (k : BitVec 2) : Bool := s.jumpOut k != .NOT_CFLOW
def tBranchMarker : BitVec 5 :=
  (1#1 ++ BitVec.ofBool (s.isCflow 3) ++ BitVec.ofBool (s.isCflow 2) ++
    BitVec.ofBool (s.isCflow 1) ++ BitVec.ofBool (s.isCflow 0)) >>> s.tInsnIdx.toNat
/-- A conditional branch that is predicted not to be taken does not end a push. -/
def tSpecBranchMarker : BitVec 5 :=
  s.tBranchMarker &&& (0xf#4 ++ BitVec.ofBool !(s.tPd == .IS_COND_BR && !s.phtOut.getLsbD 1))
def tFirstBranch : ℕ := firstMarker s.tSpecBranchMarker

/-! ## Prediction -/

/-- What the class of the instruction at the cache pc makes of the next fetch. -/
structure Predict where
  isCflow : Bool := false
  takeBr : Bool := false
  isCall : Bool := false
  isRet : Bool := false
  nPc : Word
  deriving DecidableEq

def tSimm : Word := ((s.tInsnData 0).extractLsb' 0 16).signExtend 64
def branchTarget : Word := s.cachePc + 4 + (s.tSimm.extractLsb' 0 62 ++ 0#2)
def jumpTarget : Word := s.cachePc.extractLsb' 28 36 ++ (s.tInsnData 0).extractLsb' 0 26 ++ 0#2

def taken (target : Word) (isCall isRet : Bool) : Predict where
  isCflow := true
  takeBr := true
  isCall := isCall
  isRet := isRet
  nPc := target

def predict : Predict :=
  match s.tPd with
  | .IS_J => taken s.jumpTarget false false
  | .IS_JAL => taken s.jumpTarget true false
  | .IS_BR | .IS_L_COND_BR => taken s.branchTarget false false
  | .IS_BR_AND_LINK =>
    if s.phtOut.getLsbD 1 || (s.tInsnData 0).extractLsb' 21 5 == 0#5 then
      taken s.branchTarget true false
    else { nPc := s.pc + 4 }
  | .IS_COND_BR =>
    if s.phtOut.getLsbD 1 then taken s.branchTarget false false else { nPc := s.pc + 4 }
  | .IS_JR_R31 => taken (s.specReturnStack (s.specRsTos + 1)) false true
  | .IS_JR => taken s.btbPc false false
  | .IS_JALR => taken s.btbPc true false
  | .NOT_CFLOW => { nPc := s.pc + 4 }

/-- How many instructions a push takes from the line. -/
def pushWidth : ℕ :=
  if s.predict.isCflow || s.delaySlot then 1
  else if s.tFirstBranch = 4 && !s.fqFull4 then 4
  else if s.tFirstBranch = 3 && !s.fqFull3 then 3
  else if s.tFirstBranch = 2 && !s.fqFull2 then 2
  else 1

/-! ## State machine -/

def wantsFlush : Bool := s.flushReq || i.flushReq
def wantsRestart : Bool := i.restartValid || s.restartReq

/-- What the active state does in a cycle. -/
inductive Action
  | bubble | flush | restart | reloadUtlb | reload | push | waitNotFull | idle
  deriving DecidableEq

def action : Action :=
  if s.resteerBubble then .bubble
  else if s.wantsFlush i then .flush
  else if s.wantsRestart i then .restart
  else if !i.utlbHit && (s.tMiss || s.tHit) then .reloadUtlb
  else if s.tMiss then .reload
  else if s.tHit && !s.fqFull then .push
  else if s.tHit && s.fqFull then .waitNotFull
  else .idle

def pushes : Bool := s.state == .ACTIVE && s.action i == .push

/-- A flush begins, which clears the fetch queue. -/
def flushes : Bool :=
  match s.state with
  | .ACTIVE => s.action i == .flush
  | .RELOAD_TURNAROUND => s.wantsFlush i
  | .WAIT_FOR_NOT_FULL => s.fqFull && s.wantsFlush i
  | _ => false

/-- `n_restart_ack` -/
def restarts : Bool :=
  match s.state with
  | .IDLE => s.wantsRestart i
  | .ACTIVE => s.action i == .restart
  | .RELOAD_TURNAROUND => !s.wantsFlush i && s.wantsRestart i
  | .WAIT_FOR_NOT_FULL => s.fqFull && !s.wantsFlush i && s.wantsRestart i
  | _ => false

def tClearFq : Bool := s.flushes i || s.restarts i

def nState : L1iFsm :=
  if s.flushes i then .FLUSH_CACHE
  else if s.restarts i then .ACTIVE
  else match s.state with
    | .IDLE => .IDLE
    | .ACTIVE =>
      match s.action i with
      | .reloadUtlb => .RELOAD_UTLB
      | .reload => .INJECT_RELOAD
      | .waitNotFull => .WAIT_FOR_NOT_FULL
      | _ => .ACTIVE
    | .INJECT_RELOAD => if i.memRspValid then .RELOAD_TURNAROUND else .INJECT_RELOAD
    | .RELOAD_TURNAROUND => if s.fqFull then .RELOAD_TURNAROUND else .ACTIVE
    | .FLUSH_CACHE => if s.cacheIdx == lastSet then .IDLE else .FLUSH_CACHE
    | .WAIT_FOR_NOT_FULL => if s.fqFull then .WAIT_FOR_NOT_FULL else .ACTIVE
    | .RELOAD_UTLB =>
      if i.tlbRspValid then if s.fqFull then .WAIT_FOR_NOT_FULL else .ACTIVE else .RELOAD_UTLB

def nPushPc : Word :=
  match s.pushWidth with
  | 4 => s.cachePc + 20
  | 3 => s.cachePc + 16
  | 2 => s.cachePc + 12
  | _ => s.predict.nPc

def nPc : Word :=
  if s.restarts i then i.restartPc
  else match s.state with
    | .ACTIVE =>
      match s.action i with
      | .push => s.nPushPc
      | .reloadUtlb | .reload | .waitNotFull => s.pc
      | _ => s.pc + 4
    | _ => s.pc

def nMissPc : Word :=
  if s.state == .ACTIVE then
    match s.action i with
    | .reloadUtlb | .reload | .waitNotFull => s.cachePc
    | _ => s.missPc
  else s.missPc

def nPushCachePc : Word :=
  match s.pushWidth with
  | 4 => s.cachePc + 16
  | 3 => s.cachePc + 12
  | 2 => s.cachePc + 8
  | _ => s.pc

/-- The turnaround fetches again from the pc that missed. -/
def turnsAround : Bool :=
  s.state == .RELOAD_TURNAROUND && !s.wantsFlush i && !s.wantsRestart i && !s.fqFull

def nCachePc : Word :=
  match s.state with
  | .ACTIVE => if s.action i = .push then s.nPushCachePc else s.pc
  | .RELOAD_TURNAROUND => if s.turnsAround i then s.missPc else 0
  | .WAIT_FOR_NOT_FULL => s.missPc
  | .RELOAD_UTLB => if i.tlbRspValid then s.missPc else 0
  | _ => 0

def nPushIdx : SetIdx :=
  match s.pushWidth with
  | 4 => s.cacheIdx + 1
  | 3 => if s.tInsnIdx = 0 then setOf s.pc else s.cacheIdx + 1
  | 2 => if s.tInsnIdx = 2 then s.cacheIdx + 1 else setOf s.pc
  | _ => setOf s.pc

def tCacheIdx : SetIdx :=
  if s.flushes i then 0
  else match s.state with
    | .ACTIVE => if s.action i = .push then s.nPushIdx else setOf s.pc
    | .RELOAD_TURNAROUND | .WAIT_FOR_NOT_FULL | .RELOAD_UTLB => setOf s.missPc
    | .FLUSH_CACHE => s.cacheIdx + 1
    | _ => 0

def tCacheTag : CacheTag :=
  match s.state with
  | .ACTIVE => if s.action i = .push then tagOf s.nPushCachePc else tagOf s.pc
  | .RELOAD_TURNAROUND | .WAIT_FOR_NOT_FULL | .RELOAD_UTLB => tagOf s.missPc
  | _ => 0

def nReq : Bool :=
  match s.state with
  | .ACTIVE => s.action i != .restart
  | .RELOAD_TURNAROUND => s.turnsAround i
  | .WAIT_FOR_NOT_FULL => !s.fqFull
  | .RELOAD_UTLB => i.tlbRspValid
  | _ => false

/-- A restart clears the flag, except in the idle state. -/
def nDelaySlot : Bool :=
  if s.restarts i && s.state != .IDLE then false
  else if s.pushes i then !s.delaySlot && s.predict.isCflow
  else s.delaySlot

def nMemReqValid : Bool := s.state == .ACTIVE && s.action i == .reload
def nMemReqAddr : Word := if s.nMemReqValid i then lineOf s.cachePc else s.memReqAddr

/-! ## Pushed instructions -/

def tInsn : InsnFetch where
  data := s.tInsnData 0
  pc := s.cachePc
  predTarget := s.nPc i
  pred := s.pushes i && s.predict.takeBr
  phtIdx := s.phtIdx

/-- `t_insn2` .. `t_insn4`, which are never predicted. -/
def tInsnNext (k : BitVec 2) : InsnFetch where
  data := s.tInsnData k
  pc := s.cachePc + 4 * k.setWidth 64

/-- The instructions that a cycle pushes. -/
def pushed : List InsnFetch :=
  if s.pushes i then
    match s.pushWidth with
    | 4 => [s.tInsn i, s.tInsnNext 1, s.tInsnNext 2, s.tInsnNext 3]
    | 3 => [s.tInsn i, s.tInsnNext 1, s.tInsnNext 2]
    | 2 => [s.tInsn i, s.tInsnNext 1]
    | _ => [s.tInsn i]
  else []

/-- The queue takes the first four of a list at its four tail pointers. -/
def writeFq : List InsnFetch → BitVec 3 → InsnFetch
  | [a] => Function.update s.fq (Ring.slot s.fqTailPtr) a
  | [a, b] =>
    Function.update (Function.update s.fq (Ring.slot s.fqTailPtr) a) (Ring.slot s.fqNextTailPtr) b
  | [a, b, c] =>
    Function.update (Function.update (Function.update s.fq (Ring.slot s.fqTailPtr) a)
      (Ring.slot s.fqNextTailPtr) b) (Ring.slot s.fqNext3TailPtr) c
  | [a, b, c, d] =>
    Function.update (Function.update (Function.update (Function.update s.fq
      (Ring.slot s.fqTailPtr) a) (Ring.slot s.fqNextTailPtr) b) (Ring.slot s.fqNext3TailPtr) c)
      (Ring.slot s.fqNext4TailPtr) d
  | _ => s.fq

def pushStep : BitVec 4 := BitVec.ofNat 4 (s.pushed i).length
def popStep : BitVec 4 := if i.insnAck then if i.insnAckTwo then 2 else 1 else 0

/-- A pointer of the fetch queue: a clear returns it to its first value. -/
def nFqPtr (first step p : BitVec 4) : BitVec 4 := if s.tClearFq i then first else p + step

/-! ## Arrays -/

def insnLine (l : Line) : Line :=
  bswap32 (l.extractLsb' 96 32) ++ bswap32 (l.extractLsb' 64 32) ++ bswap32 (l.extractLsb' 32 32) ++
    bswap32 (l.extractLsb' 0 32)
def predecodeLine (l : Line) (k : BitVec 2) : Jump := predecode (bswap32 (selectCl32 l k))

def memReqSet : SetIdx := setOf s.memReqAddr
def nValidRam : SetIdx → Bool :=
  writeIf (i.memRspValid || s.state == .FLUSH_CACHE)
    (if i.memRspValid then s.memReqSet else s.cacheIdx) (s.state != .FLUSH_CACHE) s.validRam

/-! ## Predictors -/

def tPhtVal : BitVec 2 :=
  match s.phtUpdateOut.toNat with
  | 0 => if s.takeBr then 1 else s.phtUpdateOut
  | 1 => if s.takeBr then 2 else 0
  | 2 => if s.takeBr then 3 else 1
  | _ => if s.takeBr then s.phtUpdateOut else 2
def tDoPhtWr : Bool :=
  match s.phtUpdateOut.toNat with
  | 0 => s.phtUpdate && s.takeBr
  | 3 => s.phtUpdate && !s.takeBr
  | _ => s.phtUpdate

def tIsCall : Bool := s.pushes i && s.predict.isCall
def tIsRet : Bool := s.pushes i && s.predict.isRet

def nSpecRsTos : BitVec 2 :=
  if s.restarts i then s.archRsTos
  else if s.tIsCall i then s.specRsTos - 1
  else if s.tIsRet i then s.specRsTos + 1
  else s.specRsTos
def nSpecReturnStack : BitVec 2 → Word :=
  if s.tIsCall i then Function.update s.specReturnStack s.specRsTos (s.cachePc + 8)
  else if s.restarts i then s.archReturnStack
  else s.specReturnStack
def nArchRsTos : BitVec 2 :=
  if i.retireValid && i.retiredCall then s.archRsTos - 1
  else if i.retireValid && i.retiredRet then s.archRsTos + 1
  else s.archRsTos
def nArchReturnStack : BitVec 2 → Word :=
  writeIf (i.retireRegValid && i.retireValid && i.retiredCall) s.archRsTos i.retireRegData
    s.archReturnStack
def nArchGblHist : BitVec 64 :=
  if i.branchPcValid then s.archGblHist.extractLsb' 0 63 ++ BitVec.ofBool i.tookBranch
  else s.archGblHist
def nSpecGblHist : BitVec 64 :=
  if s.restarts i then s.nArchGblHist i
  else if s.pushes i && s.tPd != .NOT_CFLOW then
    s.specGblHist.extractLsb' 0 63 ++ BitVec.ofBool s.predict.takeBr
  else s.specGblHist
def nPhtIdx : BitVec 16 := computePhtIdx (s.nCachePc i) s.specGblHist

/-! ## Clock edge -/

/-- One cycle of the instruction cache. -/
def step : L1i where
  state := s.nState i
  pc := s.nPc i
  missPc := s.nMissPc i
  cachePc := s.nCachePc i
  restartReq := s.wantsRestart i && !s.restarts i
  restartAck := s.restarts i
  flushReq := s.wantsFlush i && !s.flushes i
  flushComplete := s.state == .FLUSH_CACHE && s.cacheIdx == lastSet
  delaySlot := s.nDelaySlot i
  resteerBubble := false
  req := s.nReq i
  memReqValid := s.nMemReqValid i
  memReqAddr := s.nMemReqAddr i
  validRam := s.nValidRam i
  tagRam := writeIf i.memRspValid s.memReqSet (tagOf s.memReqAddr) s.tagRam
  insnRam := writeIf i.memRspValid s.memReqSet (insnLine i.memRspLoadData) s.insnRam
  pdRam := writeIf i.memRspValid s.memReqSet (predecodeLine i.memRspLoadData) s.pdRam
  validOut := s.validRam (s.tCacheIdx i)
  tagOut := s.tagRam (s.tCacheIdx i)
  arrayOut := s.insnRam (s.tCacheIdx i)
  jumpOut := s.pdRam (s.tCacheIdx i)
  cacheIdx := s.tCacheIdx i
  cacheTag := s.tCacheTag i
  fq := s.writeFq (s.pushed i)
  fqHeadPtr := s.nFqPtr i 0 (popStep i) s.fqHeadPtr
  fqNextHeadPtr := s.nFqPtr i 1 (popStep i) s.fqNextHeadPtr
  fqTailPtr := s.nFqPtr i 0 (s.pushStep i) s.fqTailPtr
  fqNextTailPtr := s.nFqPtr i 1 (s.pushStep i) s.fqNextTailPtr
  fqNext3TailPtr := s.nFqPtr i 2 (s.pushStep i) s.fqNext3TailPtr
  fqNext4TailPtr := s.nFqPtr i 3 (s.pushStep i) s.fqNext4TailPtr
  pht := writeIf s.tDoPhtWr s.phtUpdateIdx s.tPhtVal s.pht
  phtOut := s.pht (s.nPhtIdx i)
  phtIdx := s.nPhtIdx i
  phtUpdate := i.branchPcValid
  phtUpdateOut := s.pht i.branchPhtIdx
  phtUpdateIdx := i.branchPhtIdx
  takeBr := i.tookBranch
  btb := writeIf (i.restartValid && i.restartSrcIsIndirect) (i.restartSrcPc.extractLsb' 2 7)
    i.restartPc s.btb
  btbPc := s.btb ((s.nCachePc i).extractLsb' 2 7)
  specReturnStack := s.nSpecReturnStack i
  archReturnStack := s.nArchReturnStack i
  specRsTos := s.nSpecRsTos i
  archRsTos := s.nArchRsTos i
  specGblHist := s.nSpecGblHist i
  archGblHist := s.nArchGblHist i

/-! ## The clock edge for evaluation -/

def writeFqEval : List InsnFetch → BitVec 3 → InsnFetch
  | [a] => putIf true (Ring.slot s.fqTailPtr) a s.fq
  | [a, b] =>
    putIf true (Ring.slot s.fqNextTailPtr) b <| putIf true (Ring.slot s.fqTailPtr) a s.fq
  | [a, b, c] =>
    putIf true (Ring.slot s.fqNext3TailPtr) c <| putIf true (Ring.slot s.fqNextTailPtr) b <|
      putIf true (Ring.slot s.fqTailPtr) a s.fq
  | [a, b, c, d] =>
    putIf true (Ring.slot s.fqNext4TailPtr) d <| putIf true (Ring.slot s.fqNext3TailPtr) c <|
      putIf true (Ring.slot s.fqNextTailPtr) b <| putIf true (Ring.slot s.fqTailPtr) a s.fq
  | _ => s.fq

theorem writeFq_eq_writeFqEval : s.writeFq = s.writeFqEval := by
  funext l
  unfold writeFq writeFqEval
  simp only [← writeIf_eq_putIf]
  rfl

/-- The same cycle with conditions on the index for the writes to arrays, queue and tables. -/
def stepEval : L1i :=
  { s.step i with
    validRam :=
      putIf (i.memRspValid || s.state == .FLUSH_CACHE)
        (if i.memRspValid then s.memReqSet else s.cacheIdx) (s.state != .FLUSH_CACHE) s.validRam
    tagRam := putIf i.memRspValid s.memReqSet (tagOf s.memReqAddr) s.tagRam
    insnRam := putIf i.memRspValid s.memReqSet (insnLine i.memRspLoadData) s.insnRam
    pdRam := putIf i.memRspValid s.memReqSet (predecodeLine i.memRspLoadData) s.pdRam
    fq := s.writeFqEval (s.pushed i)
    pht := putIf s.tDoPhtWr s.phtUpdateIdx s.tPhtVal s.pht
    btb :=
      putIf (i.restartValid && i.restartSrcIsIndirect) (i.restartSrcPc.extractLsb' 2 7) i.restartPc
        s.btb
    specReturnStack :=
      if s.tIsCall i then putIf true s.specRsTos (s.cachePc + 8) s.specReturnStack
      else if s.restarts i then s.archReturnStack
      else s.specReturnStack
    archReturnStack :=
      putIf (i.retireRegValid && i.retireValid && i.retiredCall) s.archRsTos i.retireRegData
        s.archReturnStack }

theorem step_eq_stepEval : step = stepEval := by
  funext s i
  simp only [step, stepEval, ← writeFq_eq_writeFqEval, ← writeIf_eq_putIf]
  rfl

end L1i
end MipsCore
