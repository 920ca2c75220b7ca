import MipsCore.L1d.Line

/-! # One cycle of the data cache

The next-state block and the clock edge of `l1d.sv`.  New requests read the second
port; the first port replays the head of the miss queue.
-/
namespace MipsCore
namespace L1d
open BitMask (setBit setBitIf)
open Ring (writeIf)
variable (s : L1d) (i : L1dIn)

/-! ## Queue and ports -/

def tMemHead : MemReq := s.memQ (Ring.slot s.mqHeadPtr)
def memQEmpty : Bool := s.mqHeadPtr == s.mqTailPtr
def memQFull : Bool :=
  s.mqHeadPtr != s.mqTailPtr && Ring.slot s.mqHeadPtr == Ring.slot s.mqTailPtr
def memQAlmostFull : Bool :=
  s.mqHeadPtr != s.mqTailPtr + 1 && Ring.slot s.mqHeadPtr == Ring.slot (s.mqTailPtr + 1)

def tData : Line := if s.gotReq && s.mustForward then s.arrayWrData else s.arrayOut
def tData2 : Line := if s.gotReq2 && s.mustForward2 then s.arrayWrData else s.arrayOut2

/-- The line that a port has read is the one that its request names. -/
def hits : Bool := s.validOut && s.tagOut == s.cacheTag
def tPort2HitCache : Bool := s.validOut2 && s.tagOut2 == s.cacheTag2
def tHitCache : Bool :=
  s.hits && s.gotReq && (s.state == .ACTIVE || s.state == .INJECT_RELOAD)
def tHitCache2 : Bool := s.tPort2HitCache && s.gotReq2 && s.state == .ACTIVE

/-- The store at the first port writes the array. -/
def tWrArray : Bool := writesArray s.req.op && s.tHitCache && (s.isRetry || s.didReload)

def tMhBlock : Bool := s.gotReq && s.lastWr && s.cacheIdx == setOf s.tMemHead.addr
def tCmBlock : Bool :=
  s.gotReq && s.lastWr && s.cacheIdx == setOf i.coreMemReq.addr &&
    s.cacheTag == tagOf i.coreMemReq.addr
def tCmBlockStall : Bool := s.tCmBlock i && !(s.didReload || s.isRetry)

/-! ## Second port -/

/-- The request at the second port in the active state. -/
def serves2 : Bool := s.state == .ACTIVE && s.gotReq2
/-- It is neither drained nor a register merge, and goes to memory. -/
def looksUp2 : Bool :=
  s.serves2 && !i.drainDsComplete && s.req2.op != .MTC1_MERGE && s.req2.op != .MFC1_MERGE
/-- A load whose line is in the cache and that no queued request of its set precedes. -/
def loadHit2 : Bool := s.looksUp2 i && !s.req2.isStore && s.tPort2HitCache && !s.hitBusyAddr2

def tPushMiss : Bool :=
  s.looksUp2 i && (s.req2.isStore || !(s.tPort2HitCache && !s.hitBusyAddr2))
def tIncrBusy : Bool := s.looksUp2 i && s.req2.isStore

/-! ## First port -/

def serves : Bool := s.state == .ACTIVE && s.gotReq
def tGotMiss : Bool := s.serves && !s.hits
/-- The set holds another line that must be written back. -/
def victim : Bool := s.validOut && s.dirtyOut && s.tagOut != s.cacheTag
def mayReload : Bool := s.hitBusyAddr && s.isRetry || !s.hitBusyAddr
def evicts : Bool := s.tGotMiss && s.victim && s.mayReload
def refills : Bool := s.tGotMiss && !s.victim && (s.mayReload || s.lockCache)
/-- A write to the set is still on its way into the array. -/
def writeInFlight : Bool := s.rrCacheIdx == s.cacheIdx && s.rrLastWr
def loadHit : Bool := s.serves && s.hits && !s.req.isStore
def tResetGraduated : Bool := s.serves && s.hits && s.req.isStore

/-! ## Miss queue head -/

def considers : Bool :=
  s.state == .ACTIVE && !s.memQEmpty && !s.tGotMiss && !s.lockCache && !s.tMhBlock
def firesStore : Bool :=
  s.considers && s.tMemHead.isStore && s.graduated s.tMemHead.robPtr == 2
def firesLoad : Bool := s.considers && !s.tMemHead.isStore
def fires : Bool := s.firesStore || s.firesLoad
/-- `t_force_clear_busy` -/
def tForceClearBusy : Bool :=
  s.considers && s.tMemHead.isStore && s.graduated s.tMemHead.robPtr != 2 && i.drainDsComplete &&
    i.deadRobMask.getLsbD s.tMemHead.robPtr.toNat
def tPopMq : Bool := s.fires || s.tForceClearBusy i

/-! ## New requests and flushes -/

def coreMemReqAck : Bool :=
  s.state == .ACTIVE && i.coreMemReqValid && !s.tGotMiss && !(s.memQAlmostFull || s.memQFull) &&
    !s.firesLoad &&
    !(s.lastWr2 && s.cacheIdx2 == setOf i.coreMemReq.addr && !i.coreMemReq.isStore) &&
    !s.tCmBlockStall i && s.graduated i.coreMemReq.robPtr == 0

def mayFlush : Bool := s.memQEmpty && !(s.gotReq && s.lastWr)
def flushes : Bool := s.state == .ACTIVE && !s.coreMemReqAck i && s.flushReq && s.mayFlush
def flushesCl : Bool :=
  s.state == .ACTIVE && !s.coreMemReqAck i && !(s.flushReq && s.mayFlush) && s.flushClReq &&
    s.mayFlush

/-! ## Next state -/

def nState : L1dFsm :=
  match s.state with
  | .ACTIVE =>
    if s.flushes i then .FLUSH_CACHE
    else if s.flushesCl i then .FLUSH_CL
    else if s.evicts || s.refills then
      if s.writeInFlight then .WAIT_INJECT_RELOAD else .INJECT_RELOAD
    else .ACTIVE
  | .WAIT_INJECT_RELOAD => .INJECT_RELOAD
  | .INJECT_RELOAD =>
    if i.memRspValid then if s.reloadIssue then .HANDLE_RELOAD else .ACTIVE else .INJECT_RELOAD
  | .HANDLE_RELOAD => .ACTIVE
  | .FLUSH_CL => if s.dirtyOut then .FLUSH_CL_WAIT else .ACTIVE
  | .FLUSH_CL_WAIT => if i.memRspValid then .ACTIVE else .FLUSH_CL_WAIT
  | .FLUSH_CACHE =>
    if s.cacheIdx == lastSet then .ACTIVE
    else if s.dirtyOut then .FLUSH_CACHE_WAIT else .FLUSH_CACHE
  | .FLUSH_CACHE_WAIT => if i.memRspValid then .FLUSH_CACHE else .FLUSH_CACHE_WAIT
  | .RELOAD_UTLB => if i.tlbRspValid then .ACTIVE else .RELOAD_UTLB

def tCacheIdx : SetIdx :=
  match s.state with
  | .ACTIVE =>
    if s.flushes i then 0
    else if s.flushesCl i then setOf i.flushClAddr
    else if s.fires then setOf s.tMemHead.addr
    else if s.refills || s.evicts && s.writeInFlight then s.cacheIdx
    else 0
  | .HANDLE_RELOAD => setOf s.req.addr
  | .FLUSH_CACHE => s.cacheIdx + 1
  | .FLUSH_CACHE_WAIT => s.cacheIdx
  | _ => 0

def tCacheTag : CacheTag :=
  if s.fires then tagOf s.tMemHead.addr
  else if s.state == .HANDLE_RELOAD then tagOf s.req.addr
  else 0

def tGotReq : Bool := s.fires || s.state == .HANDLE_RELOAD
def nReq : MemReq := if s.fires then s.tMemHead else s.req
def nLastWr : Bool := s.firesStore || s.state == .HANDLE_RELOAD && s.req.isStore

def tCacheIdx2 : SetIdx := if s.coreMemReqAck i then setOf i.coreMemReq.addr else 0
def tCacheTag2 : CacheTag := if s.coreMemReqAck i then tagOf i.coreMemReq.addr else 0
def nReq2 : MemReq := if s.coreMemReqAck i then i.coreMemReq else s.req2
def nLastWr2 : Bool := s.coreMemReqAck i && i.coreMemReq.isStore

def nReloadIssue : Bool :=
  if s.tGotMiss && (s.victim || s.refills) then true
  else if s.state == .INJECT_RELOAD && i.memRspValid then false
  else s.reloadIssue

def nLockCache : Bool :=
  if s.evicts then true else if s.refills then s.writeInFlight else s.lockCache

def nInhibitWrite : Bool :=
  match s.state with
  | .ACTIVE => if s.tGotMiss then s.victim else s.inhibitWrite
  | .INJECT_RELOAD | .FLUSH_CL_WAIT | .FLUSH_CACHE_WAIT =>
    if i.memRspValid then false else s.inhibitWrite
  | .FLUSH_CL => if s.dirtyOut then true else s.inhibitWrite
  | .FLUSH_CACHE => if s.dirtyOut && s.cacheIdx != lastSet then true else s.inhibitWrite
  | _ => s.inhibitWrite

/-- The state finds a dirty line and writes it back. -/
def flushesDirty : Bool :=
  s.dirtyOut && (s.state == .FLUSH_CL || s.state == .FLUSH_CACHE && s.cacheIdx != lastSet)

/-- `t_mark_invalid` -/
def tMarkInvalid : Bool :=
  !s.dirtyOut && (s.state == .FLUSH_CL || s.state == .FLUSH_CACHE && s.cacheIdx != lastSet)

/-! ## Memory requests -/

/-- The address of the line that the first port has read. -/
def victimAddr : Word := lineAddr s.tagOut s.cacheIdx

def nMemReqValid : Bool :=
  (s.evicts || s.refills) && !s.writeInFlight || s.state == .WAIT_INJECT_RELOAD || s.flushesDirty

def nMemReqAddr : Word :=
  if s.evicts || s.refills && s.writeInFlight || s.flushesDirty then s.victimAddr
  else if s.refills then lineOf s.req.addr
  else s.memReqAddr

def nMemReqOpcode : MemOp :=
  if s.evicts || s.refills && s.writeInFlight || s.flushesDirty then .SW
  else if s.refills then .LW
  else s.memReqOpcode

def nMemReqStoreData : Line :=
  if s.evicts || s.state == .WAIT_INJECT_RELOAD || s.flushesDirty then s.tData
  else s.memReqStoreData

def nFlushReq : Bool := !s.flushes i && (s.flushReq || i.flushReq)
def nFlushClReq : Bool := !s.flushesCl i && (s.flushClReq || i.flushClReq)
def nFlushComplete : Bool :=
  s.state == .FLUSH_CL && !s.dirtyOut || s.state == .FLUSH_CL_WAIT && i.memRspValid ||
    s.state == .FLUSH_CACHE && s.cacheIdx == lastSet

/-! ## Responses -/

def tRspData : Word := if s.req.op = .SC then 1 else loadData s.req s.tData
def tRspDstValid : Bool :=
  (loadsGpr s.req.op || s.req.op == .SC) && s.req.dstValid && s.tHitCache
def tRspFpDstValid : Bool := loadsFpr s.req.op && s.req.fpDstValid && s.tHitCache

/-- The response to the request at the first port before its data is known. -/
def defaultRsp (r : MemReq) : MemRsp where
  op := r.op
  data := r.addr
  robPtr := r.robPtr
  dstPtr := r.dstPtr
  pc := r.pc

/-- What the second port answers; a drained or queued request answers with its address. -/
def rsp2 : MemRsp :=
  if i.drainDsComplete then
    { defaultRsp s.req2 with dstValid := s.req2.dstValid, fpDstValid := s.req2.fpDstValid }
  else if s.req2.op = .MTC1_MERGE then
    { defaultRsp s.req2 with
      data := if s.req2.lwc1Lo then s.req2.addr.extractLsb' 0 32 ++ s.req2.data.extractLsb' 0 32
        else s.req2.data.extractLsb' 32 32 ++ s.req2.addr.extractLsb' 0 32
      fpDstValid := s.req2.fpDstValid }
  else if s.req2.op = .MFC1_MERGE then
    { defaultRsp s.req2 with
      data := (if s.req2.lwc1Lo then s.req2.data.extractLsb' 32 32
        else s.req2.data.extractLsb' 0 32).setWidth 64
      dstValid := s.req2.dstValid }
  else if s.loadHit2 i then
    { defaultRsp s.req2 with
      data := loadData s.req2 s.tData2
      dstValid := loadsGpr s.req2.op && s.req2.dstValid && s.tHitCache2
      fpDstValid := loadsFpr s.req2.op && s.req2.fpDstValid && s.tHitCache2 }
  else defaultRsp s.req2

/-- The second port answers everything but the loads that it queues. -/
def answers2 : Bool := s.serves2 && !(s.tPushMiss i && !s.req2.isStore)

def coreMemRspValid : Bool := s.answers2 i || s.loadHit
def coreMemRsp : MemRsp :=
  let r := if s.serves2 then s.rsp2 i else defaultRsp s.req
  if s.loadHit then
    { r with data := s.tRspData, dstValid := s.tRspDstValid, fpDstValid := s.tRspFpDstValid }
  else r

/-! ## Arrays -/

def memReqSet : SetIdx := setOf s.memReqAddr
def tArrayWrAddr : SetIdx := if i.memRspValid then s.memReqSet else s.cacheIdx
def tArrayWrData : Line := if i.memRspValid then i.memRspLoadData else storeLine s.req s.tData
def tArrayWrEn : Bool := i.memRspValid || s.tWrArray

def nTagRam : SetIdx → CacheTag := writeIf i.memRspValid s.memReqSet (tagOf s.memReqAddr) s.tagRam
def nDataRam : SetIdx → Line := writeIf (s.tArrayWrEn i) (s.tArrayWrAddr i) (s.tArrayWrData i) s.dataRam
def nDirtyRam : SetIdx → Bool :=
  writeIf (s.tArrayWrEn i) (s.tArrayWrAddr i) (!i.memRspValid) s.dirtyRam
def nValidRam : SetIdx → Bool :=
  if s.tMarkInvalid then Function.update s.validRam s.cacheIdx false
  else writeIf i.memRspValid s.memReqSet (!s.inhibitWrite) s.validRam

/-! ## Busy addresses -/

/-- A queued request of the set, by slot; the one that leaves does not count at the first port. -/
def hitBusyAddrs (idx : SetIdx) (k : BitVec 3) : Bool :=
  s.mqAddrValid.getLsbD k.toNat && s.mqAddr k == idx
def anyBusy (f : BitVec 3 → Bool) : Bool :=
  f 0 || f 1 || f 2 || f 3 || f 4 || f 5 || f 6 || f 7

def nHitBusyAddr : Bool :=
  anyBusy fun k =>
    !(s.tPopMq i && Ring.slot s.mqHeadPtr == k) && s.hitBusyAddrs (s.tCacheIdx i) k
def nHitBusyAddr2 : Bool := anyBusy (s.hitBusyAddrs (s.tCacheIdx2 i))

/-! ## Graduation -/

/-- A retirement graduates the waiting store of its slot. -/
def graduate (v : Bool) (p : RobPtr) (g : RobPtr → BitVec 2) : RobPtr → BitVec 2 :=
  writeIf (v && s.graduated p == 1) p 2 g

def nGraduated : RobPtr → BitVec 2 :=
  writeIf (s.tForceClearBusy i) s.tMemHead.robPtr 0 <|
  writeIf s.tResetGraduated s.req.robPtr 0 <|
  writeIf (s.tIncrBusy i) s.req2.robPtr 1 <|
  s.graduate i.retiredRobPtrTwoValid i.retiredRobPtrTwo <|
  s.graduate i.retiredRobPtrValid i.retiredRobPtr s.graduated

/-! ## Clock edge -/

def accepts : Bool := i.coreMemReqValid && s.coreMemReqAck i

def nNInflight : BitVec 4 :=
  if s.accepts i && !s.coreMemRspValid i then s.nInflight + 1
  else if !s.accepts i && s.coreMemRspValid i then s.nInflight - 1
  else s.nInflight

def nMqAddrValid : BitVec 8 :=
  setBitIf (s.tPopMq i) (Ring.slot s.mqHeadPtr) false <|
  setBitIf (s.tPushMiss i) (Ring.slot s.mqTailPtr) true s.mqAddrValid

/-- One cycle of the data cache. -/
def step : L1d where
  state := s.nState i
  tagRam := s.nTagRam i
  dataRam := s.nDataRam i
  dirtyRam := s.nDirtyRam i
  validRam := s.nValidRam i
  tagOut := s.tagRam (s.tCacheIdx i)
  arrayOut := s.dataRam (s.tCacheIdx i)
  dirtyOut := s.dirtyRam (s.tCacheIdx i)
  validOut := s.validRam (s.tCacheIdx i)
  cacheIdx := s.tCacheIdx i
  cacheTag := s.tCacheTag
  rrCacheIdx := s.cacheIdx
  rrLastWr := s.lastWr
  gotReq := s.tGotReq
  req := s.nReq
  lastWr := s.nLastWr
  isRetry := s.fires
  didReload := s.state == .HANDLE_RELOAD
  reloadIssue := s.nReloadIssue i
  lockCache := s.nLockCache
  inhibitWrite := s.nInhibitWrite i
  hitBusyAddr := s.nHitBusyAddr i
  mustForward := s.tMhBlock && s.tPopMq i
  tagOut2 := s.tagRam (s.tCacheIdx2 i)
  arrayOut2 := s.dataRam (s.tCacheIdx2 i)
  validOut2 := s.validRam (s.tCacheIdx2 i)
  cacheIdx2 := s.tCacheIdx2 i
  cacheTag2 := s.tCacheTag2 i
  gotReq2 := s.coreMemReqAck i
  req2 := s.nReq2 i
  lastWr2 := s.nLastWr2 i
  hitBusyAddr2 := s.nHitBusyAddr2 i
  mustForward2 := s.tCmBlock i && s.coreMemReqAck i
  arrayWrData := s.tArrayWrData i
  memQ := writeIf (s.tPushMiss i) (Ring.slot s.mqTailPtr) s.req2 s.memQ
  mqHeadPtr := s.mqHeadPtr + Ring.bump (s.tPopMq i)
  mqTailPtr := s.mqTailPtr + Ring.bump (s.tPushMiss i)
  mqAddrValid := s.nMqAddrValid i
  mqAddr := writeIf (s.tPushMiss i) (Ring.slot s.mqTailPtr) (setOf s.req2.addr) s.mqAddr
  graduated := s.nGraduated i
  nInflight := s.nNInflight i
  memqEmpty :=
    s.memQEmpty && i.drainDsComplete && !i.coreMemReqValid && !s.tGotReq && !s.coreMemReqAck i &&
      !s.tPushMiss i && s.nInflight == 0
  memReqValid := s.nMemReqValid
  memReqAddr := s.nMemReqAddr
  memReqStoreData := s.nMemReqStoreData
  memReqOpcode := s.nMemReqOpcode
  flushReq := s.nFlushReq i
  flushClReq := s.nFlushClReq i
  flushComplete := s.nFlushComplete i

end L1d
end MipsCore
