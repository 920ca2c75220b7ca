import MipsCore.Pipeline.Flow
import MipsCore.Core.Restart
import MipsCore.L1i.Restart

/-! # The core with its instruction cache

The wiring of `core_l1d_l1i.sv` between the core and the instruction cache, and a
record of what crosses it: the instructions that the cache has pushed since a
restart, and the uops that the core has allocated since it became active.
-/
namespace MipsCore
open MipsCore.Core (l1iFlushed)

structure FrontEnd where
  pipe : Pipeline
  l1i : L1i

structure FrontEndIn where
  /-- The pipeline's inputs; the instruction cache drives those that come from it. -/
  outside : PipelineIn := {}
  memRspValid : Bool := false
  memRspLoadData : Line := 0
  utlbHit : Bool := true
  tlbRspValid : Bool := false

namespace FrontEnd
variable (f : FrontEnd) (i : FrontEndIn)

def reset (rob : RobPtr → RobEntry) (dq : BitVec 2 → Uop) (m : ExecInit) (d : L1iInit) :
    FrontEnd where
  pipe := Pipeline.reset rob dq m
  l1i := L1i.reset d

/-- What the pipeline sees of the instruction cache and the outside. -/
def pipeIn : PipelineIn :=
  { i.outside with
    l1iFlushComplete := f.l1i.flushComplete
    insn := f.l1i.insn
    insnValid := f.l1i.insnValid
    insnTwo := f.l1i.insnTwo
    insnValidTwo := f.l1i.insnValidTwo
    restartAck := f.l1i.restartAck }

def coreIn : CoreIn := f.pipe.coreIn (f.pipeIn i)

/-- What the instruction cache sees of the core and of memory. -/
def l1iIn : L1iIn where
  flushReq := f.pipe.core.flushReq
  restartPc := f.pipe.core.restartPc
  restartSrcPc := f.pipe.core.restartSrcPc
  restartSrcIsIndirect := f.pipe.core.restartSrcIsIndirect
  restartValid := f.pipe.core.restartValid
  retireValid := f.pipe.core.retireValid
  retiredCall := f.pipe.core.retiredCall
  retiredRet := f.pipe.core.retiredRet
  retireRegData := f.pipe.core.retireRegData
  retireRegValid := f.pipe.core.retireRegValid
  branchPcValid := f.pipe.core.branchValid
  tookBranch := f.pipe.core.tookBranch
  branchPhtIdx := f.pipe.core.branchPhtIdx
  insnAck := f.pipe.core.insnAck (f.coreIn i)
  insnAckTwo := f.pipe.core.insnAckTwo (f.coreIn i)
  memRspValid := i.memRspValid
  memRspLoadData := i.memRspLoadData
  utlbHit := i.utlbHit
  tlbRspValid := i.tlbRspValid

/-- One cycle of the core and of its instruction cache. -/
def step : FrontEnd where
  pipe := f.pipe.step (f.pipeIn i)
  l1i := f.l1i.step (f.l1iIn i)

/-- The same cycle with both parts in their form for evaluation. -/
def stepEval : FrontEnd where
  pipe := f.pipe.stepEval (f.pipeIn i)
  l1i := f.l1i.stepEval (f.l1iIn i)

theorem step_eq_stepEval : step = stepEval := by
  unfold step stepEval
  rw [Pipeline.step_eq_stepEval, L1i.step_eq_stepEval]

/-- The core becomes active with the next cycle. -/
def reenters : Bool :=
  f.pipe.core.state != .ACTIVE && f.pipe.core.nextState (f.coreIn i) == .ACTIVE

end FrontEnd

/-- The front end and the record of its hand-off. -/
structure Handoff where
  front : FrontEnd
  /-- The restart pc with which the core became active. -/
  entryPc : Word
  /-- What has been pushed into the fetch queue since the restart that the core waited for. -/
  fetched : List InsnFetch
  /-- What has been allocated since the core became active. -/
  taken : List Uop

namespace Handoff
variable (h : Handoff) (i : FrontEndIn)

def reset (rob : RobPtr → RobEntry) (dq : BitVec 2 → Uop) (m : ExecInit) (d : L1iInit) :
    Handoff where
  front := FrontEnd.reset rob dq m d
  entryPc := 0
  fetched := []
  taken := []

def core : Core := h.front.pipe.core
def l1i : L1i := h.front.l1i
def coreIn : CoreIn := h.front.coreIn i
def l1iIn : L1iIn := h.front.l1iIn i
def pushed : List InsnFetch := h.l1i.pushed (h.l1iIn i)
def allocated : List Uop := h.core.allocUops (h.coreIn i)

/-- A restart that is served while the core is active is one that the core still held when it
became active, and starts no new record. -/
def step : Handoff where
  front := h.front.step i
  entryPc := if h.front.reenters i then (h.front.step i).pipe.core.restartPc else h.entryPc
  fetched :=
    if h.l1i.restarts (h.l1iIn i) && h.core.state != .ACTIVE then [] else h.fetched ++ h.pushed i
  taken := if h.front.reenters i then [] else h.taken ++ h.allocated i

end Handoff
end MipsCore
