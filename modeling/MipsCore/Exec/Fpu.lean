import MipsCore.Exec.Step

/-! # The floating-point unit

The issue of the FP queue's head, the pipeline of `fpu.sv` and the iterative divider
`fp_div.sv`, which serves divisions and square roots.  The arithmetic itself is a
parameter; the parts of the divider's datapath are the operands it has latched.
-/
namespace MipsCore

/-- `fp_cmp_t` -/
inductive FpCmp
  | CMP_LT | CMP_LE | CMP_EQ
  deriving DecidableEq, Repr

/-- The arithmetic of `fp_add`, `fp_mul`, `fp_compare`, `fp_div`, `fp_trunc_to_int32`, `fp_convert`
and of the conversions between the formats. -/
structure FpArith where
  spAdd : Bool → BitVec 32 → BitVec 32 → BitVec 32
  dpAdd : Bool → Word → Word → Word
  spMul : BitVec 32 → BitVec 32 → BitVec 32
  dpMul : Word → Word → Word
  spCmp : FpCmp → BitVec 32 → BitVec 32 → Bool
  dpCmp : FpCmp → Word → Word → Bool
  spDiv : Bool → BitVec 32 → BitVec 32 → BitVec 32
  dpDiv : Bool → Word → Word → Word
  /-- The quotient of the mantissas is below one and is shifted once more. -/
  spShifts : BitVec 32 → BitVec 32 → Bool
  dpShifts : Word → Word → Bool
  spTrunc : BitVec 32 → BitVec 32
  dpTrunc : Word → Word
  wSpCvt : BitVec 32 → BitVec 32
  wDpCvt : Word → Word
  cvtSpDp : BitVec 32 → Word
  cvtDpSp : Word → BitVec 32

/-! ## Pipeline -/

/-- A stage of the pipeline of `fpu.sv`. -/
structure FpuStage where
  val : Bool := false
  opcode : Opcode := .II
  robPtr : RobPtr := 0
  dstPtr : PrfPtr := 0
  fcrPtr : HiloPtr := 0
  fcrSel : BitVec 3 := 0
  fcrReg : BitVec 8 := 0
  srcA : Word := 0
  srcB : Word := 0
  deriving DecidableEq, Repr, Inhabited

namespace FpuStage
variable (ar : FpArith) (st : FpuStage)

/-- `handle_fcr` -/
def handleFcr (b : Bool) (sel : BitVec 3) (fcrReg : BitVec 8) : Word :=
  (BitMask.setBit fcrReg sel.toNat b).setWidth 64

/-- The operation writes a floating-point register. -/
def isArith : Opcode → Bool
  | .SP_ADD | .SP_SUB | .DP_ADD | .DP_SUB | .SP_MUL | .DP_MUL => true
  | _ => false
/-- The operation writes a condition code. -/
def isCmp : Opcode → Bool
  | .SP_CMP_LT | .SP_CMP_LE | .SP_CMP_EQ | .DP_CMP_LT | .DP_CMP_LE | .DP_CMP_EQ => true
  | _ => false

def spCmp (c : FpCmp) : Word :=
  handleFcr (ar.spCmp c (lo32 st.srcA) (lo32 st.srcB)) st.fcrSel st.fcrReg
def dpCmp (c : FpCmp) : Word := handleFcr (ar.dpCmp c st.srcA st.srcB) st.fcrSel st.fcrReg

/-- The result of a stage that leaves the pipeline. -/
def y : Word :=
  match st.opcode with
  | .SP_ADD => (ar.spAdd false (lo32 st.srcA) (lo32 st.srcB)).setWidth 64
  | .SP_SUB => (ar.spAdd true (lo32 st.srcA) (lo32 st.srcB)).setWidth 64
  | .DP_ADD => ar.dpAdd false st.srcA st.srcB
  | .DP_SUB => ar.dpAdd true st.srcA st.srcB
  | .SP_MUL => (ar.spMul (lo32 st.srcA) (lo32 st.srcB)).setWidth 64
  | .DP_MUL => ar.dpMul st.srcA st.srcB
  | .SP_CMP_LT => spCmp ar st .CMP_LT
  | .SP_CMP_LE => spCmp ar st .CMP_LE
  | .SP_CMP_EQ => spCmp ar st .CMP_EQ
  | .DP_CMP_LT => dpCmp ar st .CMP_LT
  | .DP_CMP_LE => dpCmp ar st .CMP_LE
  | .DP_CMP_EQ => dpCmp ar st .CMP_EQ
  | _ => 0

/-- `val` and `cmp_val` -/
def resultValid : Bool := st.val && isArith st.opcode
def fcrValid : Bool := st.val && isCmp st.opcode

end FpuStage

/-! ## Divider -/

inductive FpDivFsm
  | IDLE | COMPUTE_EXP | WAIT_FOR_DIVIDE | NORMALIZE | ROUND | DONE
  deriving DecidableEq, Repr

/-- `unsigned_divider`; `DIVIDE` counts the bits that remain. -/
inductive UdivFsm
  | IDLE | DIVIDE (idx : ℕ) | PACK_OUTPUT | DONE
  deriving DecidableEq, Repr

/-- `fp_div`, without the registers of its datapath: it holds the operands. -/
structure FpDiv where
  state : FpDivFsm := .IDLE
  udiv : UdivFsm := .IDLE
  active : Bool := false
  valid : Bool := false
  robPtr : RobPtr := 0
  dstPtr : PrfPtr := 0
  isSqrt : Bool := false
  a : Word := 0
  b : Word := 0
  deriving DecidableEq, Repr, Inhabited

namespace FpDiv

/-- The mantissa divider with `w` bits. -/
def udivStep (w : ℕ) (start : Bool) : UdivFsm → UdivFsm
  | .IDLE => if start then .DIVIDE (w - 1) else .IDLE
  | .DIVIDE 0 => .PACK_OUTPUT
  | .DIVIDE (idx + 1) => .DIVIDE idx
  | .PACK_OUTPUT => .DONE
  | .DONE => .IDLE

/-- One cycle of a divider for `w`-bit mantissas; `shifts` asks for the normalising shift. -/
def step (w : ℕ) (shifts : Word → Word → Bool) (start isSqrt : Bool) (robPtr : RobPtr)
    (dstPtr : PrfPtr) (a b : Word) (d : FpDiv) : FpDiv :=
  let d' := { d with udiv := udivStep w (d.state == .IDLE && start) d.udiv, valid := false }
  match d.state with
  | .IDLE =>
    if start then
      { d' with
        state := .COMPUTE_EXP, active := true, robPtr := robPtr, dstPtr := dstPtr, isSqrt := isSqrt,
        a := a, b := b }
    else d'
  | .COMPUTE_EXP => { d' with state := .WAIT_FOR_DIVIDE }
  | .WAIT_FOR_DIVIDE =>
    if d.udiv = .DONE then { d' with state := if shifts d.a d.b then .NORMALIZE else .ROUND } else d'
  | .NORMALIZE => { d' with state := .ROUND }
  | .ROUND => { d' with state := .DONE, valid := true }
  | .DONE => { d' with state := .IDLE, active := false }

end FpDiv

/-! ## Issue -/

structure Fpu where
  st0 : FpuStage := {}
  st1 : FpuStage := {}
  st2 : FpuStage := {}
  st3 : FpuStage := {}
  fpWbBitvec : BitVec 9 := 0
  spDiv : FpDiv := {}
  dpDiv : FpDiv := {}

/-- What the case of an FP operation drives. -/
structure FpIssue where
  srcsRdy : Bool := false
  wrPrf : Bool := false
  startFpu : Bool := false
  startSpDiv : Bool := false
  startDpDiv : Bool := false
  isSqrt : Bool := false
  result : Word := 0

/-- The mantissa bits that the dividers compute, `2 * (FW + 1) - 1`. -/
def spDivBits : ℕ := 47
def dpDivBits : ℕ := 105

namespace Fpu
variable (ar : FpArith) (f : Fpu) (e : Exec) (i : ExecIn)

def divActive : Bool := f.spDiv.active || f.dpDiv.active || f.spDiv.valid || f.dpDiv.valid

def fcrBusy (p : HiloPtr) : Bool := e.fcrPrfInflight.getLsbD p.toNat

/-- `t_fpu_srcs_rdy` -/
def fpuSrcsRdy : Bool :=
  let u := e.fpUqHead
  !(u.fpSrcAValid && e.fpBusy u.srcA) && !(u.fpSrcBValid && e.fpBusy u.srcB) &&
    !(u.fpSrcCValid && e.fpBusy u.srcC) && !(u.fcrSrcValid && fcrBusy e u.hiloSrc)

def srcA : Word := e.fpPrf e.fpUqHead.srcA
def srcB : Word := e.fpPrf e.fpUqHead.srcB
/-- The condition code that a conditional move tests. -/
def fcrBit : Bool :=
  (e.fcrPrf e.fpUqHead.hiloSrc).getLsbD (e.fpUqHead.srcC.extractLsb' 0 3).toNat

/-- An operation that writes its result at once. -/
def move (r : Word) : FpIssue :=
  let rdy := fpuSrcsRdy e && !e.tFpUqEmpty && !f.divActive && !f.fpWbBitvec.getLsbD 0
  { srcsRdy := rdy, wrPrf := rdy, result := r }
def arith : FpIssue :=
  { srcsRdy := fpuSrcsRdy e, startFpu := fpuSrcsRdy e && !f.divActive && !e.tFpUqEmpty }
def compare : FpIssue :=
  let rdy := !e.tFpUqEmpty && fpuSrcsRdy e
  { srcsRdy := rdy, startFpu := rdy && !f.divActive }
/-- The dividers start only when the pipeline is empty. -/
def divides (sp sqrt : Bool) : FpIssue :=
  let rdy := fpuSrcsRdy e && f.fpWbBitvec == 0
  let start := rdy && !f.divActive && !e.tFpUqEmpty
  { srcsRdy := rdy, startSpDiv := start && sp, startDpDiv := start && !sp, isSqrt := sqrt }

def issue : FpIssue :=
  match e.fpUqHead.op with
  | .SP_MOV => f.move e ((lo32 (srcA e)).setWidth 64)
  | .DP_MOV => f.move e (srcA e)
  | .FP_MOVT => f.move e (if fcrBit e then srcA e else srcB e)
  | .FP_MOVF => f.move e (if fcrBit e then srcB e else srcA e)
  | .TRUNC_DP_W => f.move e (ar.dpTrunc (srcA e))
  | .TRUNC_SP_W => f.move e ((ar.spTrunc (lo32 (srcA e))).setWidth 64)
  | .CVT_SP_DP => f.move e (ar.cvtSpDp (lo32 (srcA e)))
  | .CVT_DP_SP => f.move e ((ar.cvtDpSp (srcA e)).setWidth 64)
  | .CVT_W_DP => f.move e (ar.wDpCvt ((lo32 (srcA e)).signExtend 64))
  | .CVT_W_SP => f.move e ((ar.wSpCvt (lo32 (srcA e))).setWidth 64)
  | .SP_ADD | .SP_SUB | .SP_MUL | .DP_ADD | .DP_SUB | .DP_MUL => f.arith e
  | .DP_DIV => f.divides e false false
  | .SP_DIV => f.divides e true false
  | .DP_SQRT => f.divides e false true
  | .SP_SQRT => f.divides e true true
  | .DP_CMP_LT | .SP_CMP_LT | .DP_CMP_LE | .SP_CMP_LE | .DP_CMP_EQ | .SP_CMP_EQ => f.compare e
  | _ => {}

/-- `t_pop_fp_uq` -/
def pops : Bool := !(e.tFpUqEmpty || i.dsDone) && (f.issue ar e).srcsRdy && !f.divActive

/-- The stage that the issued operation enters the pipeline with. -/
def newStage : FpuStage where
  val := (f.issue ar e).startFpu && f.pops ar e i
  opcode := e.fpUqHead.op
  robPtr := e.fpUqHead.robPtr
  dstPtr := e.fpUqHead.dst
  fcrPtr := e.fpUqHead.hiloDst
  fcrSel := e.fpUqHead.imm.extractLsb' 0 3
  fcrReg := e.fcrPrf e.fpUqHead.hiloSrc
  srcA := srcA e
  srcB := srcB e

/-- One cycle of the floating-point unit. -/
def step : Fpu where
  st0 := f.st1
  st1 := f.st2
  st2 := f.st3
  st3 := f.newStage ar e i
  fpWbBitvec := BitMask.setBit (f.fpWbBitvec >>> 1) 3 (f.issue ar e).startFpu
  spDiv :=
    f.spDiv.step spDivBits (fun a b => ar.spShifts (lo32 a) (lo32 b)) (f.issue ar e).startSpDiv
      (f.issue ar e).isSqrt e.fpUqHead.robPtr e.fpUqHead.dst (srcA e) (srcB e)
  dpDiv :=
    f.dpDiv.step dpDivBits ar.dpShifts (f.issue ar e).startDpDiv (f.issue ar e).isSqrt
      e.fpUqHead.robPtr e.fpUqHead.dst (srcA e) (srcB e)

/-- What the unit and its dividers drive: the pipeline comes before the single and the double
divider, which never deliver together. -/
def drive : ExecIn :=
  let piped := f.st0.resultValid || f.st0.fcrValid
  { i with
    fpSrcsRdy := (f.issue ar e).srcsRdy && !f.divActive
    fpWrPrf := (f.issue ar e).wrPrf
    fpMovResult := (f.issue ar e).result
    fpuResultValid := f.st0.resultValid || f.spDiv.valid || f.dpDiv.valid
    fpuFcrValid := f.st0.fcrValid
    fpuRobPtr := if piped then f.st0.robPtr else if f.spDiv.valid then f.spDiv.robPtr
      else f.dpDiv.robPtr
    fpuDstPtr := if f.st0.resultValid then f.st0.dstPtr else if f.spDiv.valid then f.spDiv.dstPtr
      else f.dpDiv.dstPtr
    fpuFcrPtr := f.st0.fcrPtr
    fpuResult :=
      if piped then f.st0.y ar
      else if f.spDiv.valid then
        (ar.spDiv f.spDiv.isSqrt (lo32 f.spDiv.a) (lo32 f.spDiv.b)).setWidth 64
      else ar.dpDiv f.dpDiv.isSqrt f.dpDiv.a f.dpDiv.b }

end Fpu
end MipsCore
