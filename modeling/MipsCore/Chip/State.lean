import MipsCore.Pipeline.Flow
import MipsCore.L1d.Queue

/-! # The core with its data cache

The wiring of `core_l1d_l1i.sv` between the core and the data cache.  Fetch and the
memory system remain inputs, with those of the pipeline.
-/
namespace MipsCore

structure Chip where
  pipe : Pipeline
  l1d : L1d

structure ChipIn where
  /-- The pipeline's inputs; the data cache drives those that come from it. -/
  outside : PipelineIn := {}
  memRspValid : Bool := false
  memRspLoadData : Line := 0
  tlbRspValid : Bool := false

namespace Chip
variable (c : Chip) (i : ChipIn)

def reset (rob : RobPtr → RobEntry) (dq : BitVec 2 → Uop) (m : ExecInit) (d : L1dInit) : Chip where
  pipe := Pipeline.reset rob dq m
  l1d := L1d.reset d

/-- What the data cache sees of the core and of memory. -/
def l1dIn : L1dIn where
  retiredRobPtrValid := c.pipe.core.retiredRobPtrValid
  retiredRobPtrTwoValid := c.pipe.core.retiredRobPtrTwoValid
  retiredRobPtr := c.pipe.core.retiredRobPtr
  retiredRobPtrTwo := c.pipe.core.retiredRobPtrTwo
  drainDsComplete := c.pipe.core.drainDsComplete
  deadRobMask := c.pipe.core.robDeadInsns
  flushReq := c.pipe.core.flushReq
  flushClReq := c.pipe.core.flushClReq
  flushClAddr := c.pipe.core.flushClAddr
  coreMemReqValid := c.pipe.exec.memReqValid
  coreMemReq := c.pipe.exec.memReq
  memRspValid := i.memRspValid
  memRspLoadData := i.memRspLoadData
  tlbRspValid := i.tlbRspValid

/-- What the pipeline sees of the data cache and the outside. -/
def pipeIn : PipelineIn :=
  { i.outside with
    memqEmpty := c.l1d.memqEmpty
    l1dFlushComplete := c.l1d.flushComplete
    coreMemReqAck := c.l1d.coreMemReqAck (c.l1dIn i)
    coreMemRsp := c.l1d.coreMemRsp (c.l1dIn i)
    coreMemRspValid := c.l1d.coreMemRspValid (c.l1dIn i) }

/-- One cycle of the core and of its data cache. -/
def step : Chip where
  pipe := c.pipe.step (c.pipeIn i)
  l1d := c.l1d.step (c.l1dIn i)

/-- The same cycle with the pipeline in its form for evaluation. -/
theorem step_eval : step = fun c i => { c.step i with pipe := c.pipe.stepEval (c.pipeIn i) } := by
  rw [← Pipeline.step_eq_stepEval]
  rfl

end Chip
end MipsCore
