import MipsCore.CacheLine
import MipsCore.Lib.Ring
import MipsCore.Lib.BitMask
import MipsCore.Lib.Clocked

/-! # Registers and inputs of the data cache

The registers of `l1d.sv` without their `r_` prefix, the four arrays and the
registered outputs of their read ports.  The uTLB, whose answer the cache does not
use, the miss address and the counters are left out.
-/
namespace MipsCore

inductive L1dFsm
  | ACTIVE | INJECT_RELOAD | WAIT_INJECT_RELOAD | FLUSH_CACHE | FLUSH_CACHE_WAIT | FLUSH_CL
  | FLUSH_CL_WAIT | RELOAD_UTLB | HANDLE_RELOAD
  deriving DecidableEq, Repr

structure L1d where
  state : L1dFsm
  -- arrays
  tagRam : SetIdx → CacheTag
  dataRam : SetIdx → Line
  dirtyRam : SetIdx → Bool
  validRam : SetIdx → Bool
  -- first read port
  tagOut : CacheTag
  arrayOut : Line
  dirtyOut : Bool
  validOut : Bool
  cacheIdx : SetIdx
  cacheTag : CacheTag
  rrCacheIdx : SetIdx
  rrLastWr : Bool
  gotReq : Bool
  req : MemReq
  lastWr : Bool
  isRetry : Bool
  didReload : Bool
  reloadIssue : Bool
  lockCache : Bool
  inhibitWrite : Bool
  hitBusyAddr : Bool
  mustForward : Bool
  -- second read port
  tagOut2 : CacheTag
  arrayOut2 : Line
  validOut2 : Bool
  cacheIdx2 : SetIdx
  cacheTag2 : CacheTag
  gotReq2 : Bool
  req2 : MemReq
  lastWr2 : Bool
  hitBusyAddr2 : Bool
  mustForward2 : Bool
  arrayWrData : Line
  -- miss queue
  memQ : BitVec 3 → MemReq
  mqHeadPtr : BitVec 4
  mqTailPtr : BitVec 4
  mqAddrValid : BitVec 8
  mqAddr : BitVec 3 → SetIdx
  -- stores by reorder buffer slot: 0 none, 1 waiting for retirement, 2 graduated
  graduated : RobPtr → BitVec 2
  nInflight : BitVec 4
  memqEmpty : Bool
  -- memory side and flushes
  memReqValid : Bool
  memReqAddr : Word
  memReqStoreData : Line
  memReqOpcode : MemOp
  flushReq : Bool
  flushClReq : Bool
  flushComplete : Bool

/-- What the data cache reads in a cycle. -/
structure L1dIn where
  retiredRobPtrValid : Bool := false
  retiredRobPtrTwoValid : Bool := false
  retiredRobPtr : RobPtr := 0
  retiredRobPtrTwo : RobPtr := 0
  drainDsComplete : Bool := false
  deadRobMask : BitVec 32 := 0
  flushReq : Bool := false
  flushClReq : Bool := false
  flushClAddr : Word := 0
  coreMemReqValid : Bool := false
  coreMemReq : MemReq := {}
  memRspValid : Bool := false
  memRspLoadData : Line := 0
  tlbRspValid : Bool := false

/-- The arrays and registers that reset leaves alone. -/
structure L1dInit where
  tagRam : SetIdx → CacheTag := fun _ => 0
  dataRam : SetIdx → Line := fun _ => 0
  tagOut : CacheTag := 0
  arrayOut : Line := 0
  tagOut2 : CacheTag := 0
  arrayOut2 : Line := 0
  dirtyOut : Bool := false
  validOut : Bool := false
  validOut2 : Bool := false
  req : MemReq := {}
  req2 : MemReq := {}
  arrayWrData : Line := 0
  memQ : BitVec 3 → MemReq := fun _ => {}
  mqAddr : BitVec 3 → SetIdx := fun _ => 0

/-- The state after reset, with no valid and no dirty line. -/
def L1d.reset (m : L1dInit) : L1d where
  state := .ACTIVE
  tagRam := m.tagRam
  dataRam := m.dataRam
  dirtyRam := fun _ => false
  validRam := fun _ => false
  tagOut := m.tagOut
  arrayOut := m.arrayOut
  dirtyOut := m.dirtyOut
  validOut := m.validOut
  cacheIdx := 0
  cacheTag := 0
  rrCacheIdx := 0
  rrLastWr := false
  gotReq := false
  req := m.req
  lastWr := false
  isRetry := false
  didReload := false
  reloadIssue := false
  lockCache := false
  inhibitWrite := false
  hitBusyAddr := false
  mustForward := false
  tagOut2 := m.tagOut2
  arrayOut2 := m.arrayOut2
  validOut2 := m.validOut2
  cacheIdx2 := 0
  cacheTag2 := 0
  gotReq2 := false
  req2 := m.req2
  lastWr2 := false
  hitBusyAddr2 := false
  mustForward2 := false
  arrayWrData := m.arrayWrData
  memQ := m.memQ
  mqHeadPtr := 0
  mqTailPtr := 0
  mqAddrValid := 0
  mqAddr := m.mqAddr
  graduated := fun _ => 0
  nInflight := 0
  memqEmpty := true
  memReqValid := false
  memReqAddr := 0
  memReqStoreData := 0
  memReqOpcode := .LB
  flushReq := false
  flushClReq := false
  flushComplete := false

end MipsCore
