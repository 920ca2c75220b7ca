import MipsCore.Core.FreeList
import MipsCore.Exec.Step

/-! # The core with its execution unit

`core.sv` instantiates `exec.sv`: each reads the other's registers and the strobes
of the cycle.  The fetch and memory ports, the monitor, the divider and the
floating-point unit remain inputs.
-/
namespace MipsCore

structure Pipeline where
  core : Core
  exec : Exec

structure PipelineIn where
  externIrq : Bool := false
  resume : Bool := false
  memqEmpty : Bool := true
  resumePc : Word := 0
  l1dFlushComplete : Bool := false
  l1iFlushComplete : Bool := false
  insn : InsnFetch := {}
  insnValid : Bool := false
  insnTwo : InsnFetch := {}
  insnValidTwo : Bool := false
  restartAck : Bool := false
  coreMemReqAck : Bool := false
  coreMemRsp : MemRsp := {}
  coreMemRspValid : Bool := false
  monitorRspValid : Bool := false
  monitorRspData : Word := 0
  divReady : Bool := true
  divComplete : Bool := false
  divRobPtr : RobPtr := 0
  divHiloPtr : HiloPtr := 0
  divResult : Word := 0
  fpSrcsRdy : Bool := false
  fpWrPrf : Bool := false
  fpMovResult : Word := 0
  fpuResultValid : Bool := false
  fpuFcrValid : Bool := false
  fpuRobPtr : RobPtr := 0
  fpuDstPtr : PrfPtr := 0
  fpuFcrPtr : HiloPtr := 0
  fpuResult : Word := 0

namespace Pipeline
variable (p : Pipeline) (i : PipelineIn)

def reset (rob : RobPtr → RobEntry) (dq : BitVec 2 → Uop) (m : ExecInit) : Pipeline where
  core := Core.reset rob dq
  exec := Exec.reset m

/-- What the core sees of the execution unit and the outside. -/
def coreIn : CoreIn where
  externIrq := i.externIrq
  resume := i.resume
  memqEmpty := i.memqEmpty
  resumePc := i.resumePc
  l1dFlushComplete := i.l1dFlushComplete
  l1iFlushComplete := i.l1iFlushComplete
  insn := i.insn
  insnValid := i.insnValid
  insnTwo := i.insnTwo
  insnValidTwo := i.insnValidTwo
  restartAck := i.restartAck
  coreMemRsp := i.coreMemRsp
  coreMemRspValid := i.coreMemRspValid
  monitorRspValid := i.monitorRspValid
  monitorRspData := i.monitorRspData
  divideReady := i.divReady
  in32fpRegMode := p.exec.in32fpRegMode
  cpr0StatusReg := p.exec.cpr0StatusReg
  mqWait := p.exec.mqWait
  uqWait := p.exec.uqWait
  fqWait := p.exec.fqWait
  uqFull := p.exec.uqFull
  uqNextFull := p.exec.uqNextFull
  completeBundle1 := p.exec.completeBundle1
  completeValid1 := p.exec.completeValid1
  completeBundle2 := p.exec.completeBundle2
  completeValid2 := p.exec.completeValid2

/-- What the execution unit sees of the core and the outside. -/
def execIn (c : Comb) : ExecIn where
  dsDone := p.core.dsDone
  restartComplete := c.tRestartComplete
  uqUop := p.core.uqUop c
  uqUopTwo := p.core.uqUopTwo c
  uqPush := p.core.uqPush c
  uqPushTwo := p.core.uqPushTwo c
  exceptionWrCpr0Val := c.tExceptionWrCpr0Val
  exceptionWrCpr0Ptr := c.tExceptionWrCpr0Ptr
  exceptionWrCpr0Data := c.tExceptionWrCpr0Data
  memReqAck := i.coreMemReqAck
  memRsp := i.coreMemRsp
  monitorRspData := p.core.monitorRspData
  divReady := i.divReady
  divComplete := i.divComplete
  divRobPtr := i.divRobPtr
  divHiloPtr := i.divHiloPtr
  divResult := i.divResult
  fpSrcsRdy := i.fpSrcsRdy
  fpWrPrf := i.fpWrPrf
  fpMovResult := i.fpMovResult
  fpuResultValid := i.fpuResultValid
  fpuFcrValid := i.fpuFcrValid
  fpuRobPtr := i.fpuRobPtr
  fpuDstPtr := i.fpuDstPtr
  fpuFcrPtr := i.fpuFcrPtr
  fpuResult := i.fpuResult

/-- One cycle of the core and of its execution unit. -/
def step : Pipeline where
  core := p.core.step (p.coreIn i)
  exec := p.exec.step (p.execIn i (p.core.comb (p.coreIn i)))

/-- The same cycle with both units in their form for evaluation. -/
def stepEval : Pipeline where
  core := p.core.stepEval (p.coreIn i)
  exec := p.exec.stepEval (p.execIn i (p.core.comb (p.coreIn i)))

theorem step_eq_stepEval : step = stepEval := by
  unfold step stepEval
  rw [Core.step_eq_stepEval, Exec.step_eq_stepEval]

@[simp] theorem step_core : (p.step i).core = p.core.step (p.coreIn i) := rfl
@[simp] theorem step_exec :
    (p.step i).exec = p.exec.step (p.execIn i (p.core.comb (p.coreIn i))) := rfl

end Pipeline
end MipsCore
