import MipsCore.CacheLine
import MipsCore.Lib.Ring
import MipsCore.Lib.Clocked

/-! # Registers and inputs of the instruction cache

The registers of `l1i.sv` without their `r_` prefix: the fetch state machine, the
fetch queue, the arrays with the predecoded classes, and the branch predictor.  The
uTLB answers through an input.
-/
namespace MipsCore

inductive L1iFsm
  | IDLE | ACTIVE | INJECT_RELOAD | RELOAD_TURNAROUND | FLUSH_CACHE | WAIT_FOR_NOT_FULL
  | RELOAD_UTLB
  deriving DecidableEq, Repr

/-- `jump_t`, the class that predecode gives an instruction. -/
inductive Jump
  | NOT_CFLOW | IS_COND_BR | IS_L_COND_BR | IS_J | IS_JR | IS_JAL | IS_JALR | IS_JR_R31 | IS_BR
  | IS_BR_AND_LINK
  deriving DecidableEq, Repr

structure L1i where
  state : L1iFsm
  pc : Word
  missPc : Word
  cachePc : Word
  restartReq : Bool
  restartAck : Bool
  flushReq : Bool
  flushComplete : Bool
  delaySlot : Bool
  resteerBubble : Bool
  req : Bool
  memReqValid : Bool
  memReqAddr : Word
  -- arrays and their registered outputs
  validRam : SetIdx → Bool
  tagRam : SetIdx → CacheTag
  insnRam : SetIdx → Line
  pdRam : SetIdx → BitVec 2 → Jump
  validOut : Bool
  tagOut : CacheTag
  arrayOut : Line
  jumpOut : BitVec 2 → Jump
  cacheIdx : SetIdx
  cacheTag : CacheTag
  -- fetch queue
  fq : BitVec 3 → InsnFetch
  fqHeadPtr : BitVec 4
  fqNextHeadPtr : BitVec 4
  fqTailPtr : BitVec 4
  fqNextTailPtr : BitVec 4
  fqNext3TailPtr : BitVec 4
  fqNext4TailPtr : BitVec 4
  -- direction and target predictors
  pht : BitVec 16 → BitVec 2
  phtOut : BitVec 2
  phtIdx : BitVec 16
  phtUpdate : Bool
  phtUpdateOut : BitVec 2
  phtUpdateIdx : BitVec 16
  takeBr : Bool
  btb : BitVec 7 → Word
  btbPc : Word
  specReturnStack : BitVec 2 → Word
  archReturnStack : BitVec 2 → Word
  specRsTos : BitVec 2
  archRsTos : BitVec 2
  specGblHist : BitVec 64
  archGblHist : BitVec 64

/-- What the instruction cache reads in a cycle. -/
structure L1iIn where
  flushReq : Bool := false
  restartPc : Word := 0
  restartSrcPc : Word := 0
  restartSrcIsIndirect : Bool := false
  restartValid : Bool := false
  retireValid : Bool := false
  retiredCall : Bool := false
  retiredRet : Bool := false
  retireRegData : Word := 0
  retireRegValid : Bool := false
  branchPcValid : Bool := false
  tookBranch : Bool := false
  branchPhtIdx : BitVec 16 := 0
  insnAck : Bool := false
  insnAckTwo : Bool := false
  memRspValid : Bool := false
  memRspLoadData : Line := 0
  utlbHit : Bool := true
  tlbRspValid : Bool := false

/-- The arrays and registers that reset leaves alone.  The valid bits are cleared at power-up. -/
structure L1iInit where
  tagRam : SetIdx → CacheTag := fun _ => 0
  insnRam : SetIdx → Line := fun _ => 0
  pdRam : SetIdx → BitVec 2 → Jump := fun _ _ => .NOT_CFLOW
  validOut : Bool := false
  tagOut : CacheTag := 0
  arrayOut : Line := 0
  jumpOut : BitVec 2 → Jump := fun _ => .NOT_CFLOW
  fq : BitVec 3 → InsnFetch := fun _ => {}
  pht : BitVec 16 → BitVec 2 := fun _ => 0
  phtOut : BitVec 2 := 0
  phtUpdateOut : BitVec 2 := 0
  btb : BitVec 7 → Word := fun _ => 0
  specReturnStack : BitVec 2 → Word := fun _ => 0
  archReturnStack : BitVec 2 → Word := fun _ => 0

def L1i.reset (m : L1iInit) : L1i where
  state := .IDLE
  pc := 0
  missPc := 0
  cachePc := 0
  restartReq := false
  restartAck := false
  flushReq := false
  flushComplete := false
  delaySlot := false
  resteerBubble := false
  req := false
  memReqValid := false
  memReqAddr := 0
  validRam := fun _ => false
  tagRam := m.tagRam
  insnRam := m.insnRam
  pdRam := m.pdRam
  validOut := m.validOut
  tagOut := m.tagOut
  arrayOut := m.arrayOut
  jumpOut := m.jumpOut
  cacheIdx := 0
  cacheTag := 0
  fq := m.fq
  fqHeadPtr := 0
  fqNextHeadPtr := 1
  fqTailPtr := 0
  fqNextTailPtr := 1
  fqNext3TailPtr := 1
  fqNext4TailPtr := 1
  pht := m.pht
  phtOut := m.phtOut
  phtIdx := 0
  phtUpdate := false
  phtUpdateOut := m.phtUpdateOut
  phtUpdateIdx := 0
  takeBr := false
  btb := m.btb
  btbPc := 0
  specReturnStack := m.specReturnStack
  archReturnStack := m.archReturnStack
  specRsTos := 3
  archRsTos := 3
  specGblHist := 0
  archGblHist := 0

end MipsCore
