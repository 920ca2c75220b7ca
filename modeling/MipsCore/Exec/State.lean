import MipsCore.Machine
import MipsCore.Scan
import MipsCore.Lib.BitMask
import MipsCore.Lib.Ring

/-! # Registers and inputs of the execution unit

The registers of `exec.sv` without their `r_` prefix.  The floating-point unit and
the divider are inputs: what they return in a cycle, and whether the former takes
the head of its queue.  The arrays that reset leaves alone are arguments of the
reset state.
-/
namespace MipsCore

/-- A stage of the multiplier's pipeline. -/
structure MulStage where
  mul : Word := 0
  complete : Bool := false
  doMadd : Bool := false
  doMsub : Bool := false
  robPtr : RobPtr := 0
  gprVal : Bool := false
  gprPtr : PrfPtr := 0
  hiloVal : Bool := false
  hiloPtr : HiloPtr := 0
  madd : Word := 0
  deriving DecidableEq, Repr, Inhabited

structure Exec where
  -- register files
  intPrf : PrfPtr → Word
  fpPrf : PrfPtr → Word
  hiloPrf : HiloPtr → Word
  fcrPrf : HiloPtr → BitVec 8
  cpr0 : BitVec 5 → Word
  cpr0StatusReg : Word
  in32bMode : Bool
  in32fpRegMode : Bool
  prfInflight : BitVec 64
  fpPrfInflight : BitVec 64
  hiloInflight : BitVec 4
  fcrPrfInflight : BitVec 4
  -- uop queues
  uq : BitVec 3 → Uop
  uqHeadPtr : BitVec 4
  uqTailPtr : BitVec 4
  uqNextTailPtr : BitVec 4
  memUq : BitVec 3 → Uop
  memUqHeadPtr : BitVec 4
  memUqTailPtr : BitVec 4
  memUqNextTailPtr : BitVec 4
  fpUq : BitVec 3 → Uop
  fpUqHeadPtr : BitVec 4
  fpUqTailPtr : BitVec 4
  fpUqNextTailPtr : BitVec 4
  uqWait : BitVec 32
  mqWait : BitVec 32
  fqWait : BitVec 32
  -- integer scheduler
  aluSchedValid : BitVec 4
  aluSchedUops : BitVec 2 → Uop
  aluSrcARdy : BitVec 4
  aluSrcBRdy : BitVec 4
  aluSrcCRdy : BitVec 4
  aluHiloRdy : BitVec 4
  aluFcrRdy : BitVec 4
  schedCnt : BitVec 2
  intUop : Uop
  startInt : Bool
  wbBitvec : BitVec 68
  -- multiplier
  mul0 : MulStage
  mul1 : MulStage
  mul2 : MulStage
  -- memory request queue
  memQ : BitVec 3 → MemReq
  mqHeadPtr : BitVec 4
  mqTailPtr : BitVec 4
  -- completion ports
  completeBundle1 : Complete
  completeValid1 : Bool
  completeBundle2 : Complete
  completeValid2 : Bool

/-- What the execution unit reads in a cycle. -/
structure ExecIn where
  dsDone : Bool := false
  restartComplete : Bool := false
  uqUop : Uop := {}
  uqUopTwo : Uop := {}
  uqPush : Bool := false
  uqPushTwo : Bool := false
  exceptionWrCpr0Val : Bool := false
  exceptionWrCpr0Ptr : BitVec 5 := 0
  exceptionWrCpr0Data : Word := 0
  memReqAck : Bool := false
  memRsp : MemRsp := {}
  monitorRspData : Word := 0
  -- divider
  divReady : Bool := true
  divComplete : Bool := false
  divRobPtr : RobPtr := 0
  divHiloPtr : HiloPtr := 0
  divResult : Word := 0
  -- floating-point unit and its divider
  fpSrcsRdy : Bool := false
  fpWrPrf : Bool := false
  fpMovResult : Word := 0
  fpuResultValid : Bool := false
  fpuFcrValid : Bool := false
  fpuRobPtr : RobPtr := 0
  fpuDstPtr : PrfPtr := 0
  fpuFcrPtr : HiloPtr := 0
  fpuResult : Word := 0

/-- The arrays that reset leaves alone.  The register files are cleared at power-up. -/
structure ExecInit where
  fpPrf : PrfPtr → Word := fun _ => 0
  cpr0 : BitVec 5 → Word := fun _ => 0
  uq : BitVec 3 → Uop := fun _ => {}
  memUq : BitVec 3 → Uop := fun _ => {}
  fpUq : BitVec 3 → Uop := fun _ => {}
  aluSchedUops : BitVec 2 → Uop := fun _ => {}
  intUop : Uop := {}
  memQ : BitVec 3 → MemReq := fun _ => {}
  completeBundle1 : Complete := {}
  completeBundle2 : Complete := {}

/-- The value of the status register after reset. -/
def statusReset : Word := 4194308#64

def Exec.reset (m : ExecInit) : Exec where
  intPrf := fun _ => 0
  fpPrf := m.fpPrf
  hiloPrf := fun _ => 0
  fcrPrf := fun _ => 0
  cpr0 := Function.update m.cpr0 12 statusReset
  cpr0StatusReg := statusReset
  in32bMode := true
  in32fpRegMode := false
  prfInflight := 0
  fpPrfInflight := 0
  hiloInflight := 0
  fcrPrfInflight := 0
  uq := m.uq
  uqHeadPtr := 0
  uqTailPtr := 0
  uqNextTailPtr := 1
  memUq := m.memUq
  memUqHeadPtr := 0
  memUqTailPtr := 0
  memUqNextTailPtr := 1
  fpUq := m.fpUq
  fpUqHeadPtr := 0
  fpUqTailPtr := 0
  fpUqNextTailPtr := 1
  uqWait := 0
  mqWait := 0
  fqWait := 0
  aluSchedValid := 0
  aluSchedUops := m.aluSchedUops
  aluSrcARdy := 0
  aluSrcBRdy := 0
  aluSrcCRdy := 0
  aluHiloRdy := 0
  aluFcrRdy := 0
  schedCnt := 0
  intUop := m.intUop
  startInt := false
  wbBitvec := 0
  mul0 := {}
  mul1 := {}
  mul2 := {}
  memQ := m.memQ
  mqHeadPtr := 0
  mqTailPtr := 0
  completeBundle1 := m.completeBundle1
  completeValid1 := false
  completeBundle2 := m.completeBundle2
  completeValid2 := false

end MipsCore
