import MipsCore.Machine
import Mathlib.Tactic.SplitIfs

/-! # Instruction decoder

`decode_mips32`: one fetched instruction word becomes one micro-operation whose
register fields are architectural numbers.  Arms of the source that assign the
same fields share a builder; every arm keeps its own opcode and registers.
-/
namespace MipsCore
namespace Decode
variable (insn : BitVec 32)

def opcode : BitVec 6 := insn.extractLsb' 26 6
def funct : BitVec 6 := insn.extractLsb' 0 6
def rs : PrfPtr := (insn.extractLsb' 21 5).setWidth 6
def rt : PrfPtr := (insn.extractLsb' 16 5).setWidth 6
def rd : PrfPtr := (insn.extractLsb' 11 5).setWidth 6
def fs : PrfPtr := (insn.extractLsb' 11 5).setWidth 6
def ft : PrfPtr := (insn.extractLsb' 16 5).setWidth 6
def fd : PrfPtr := (insn.extractLsb' 6 5).setWidth 6
def shamt : PrfPtr := (insn.extractLsb' 6 5).setWidth 6
def imm : BitVec 16 := insn.extractLsb' 0 16
/-- The condition code field of FP branches and conditional moves, zero extended. -/
def cc : PrfPtr := (insn.extractLsb' 18 3).setWidth 6
def isNop : Bool := insn == 0
def isEhb : Bool := insn == 192

/-- The even register of the pair of `r`. -/
def evenReg (r : PrfPtr) : PrfPtr := 0#1 ++ r.extractLsb' 1 4 ++ 0#1
/-- The other register of the pair of `r`. -/
def pairReg (r : PrfPtr) : PrfPtr := 0#1 ++ r.extractLsb' 1 4 ++ ~~~(r.extractLsb' 0 1)
/-- A one-bit flag in the low bit of `jmp_imm`. -/
def flagImm (r : PrfPtr) : BitVec 48 := (r.extractLsb' 0 1).setWidth 48
/-- The single-precision flags in the low bits of `jmp_imm`. -/
def spImm (b1 b2 b3 : Bool) : BitVec 48 :=
  (BitVec.ofBool b3 ++ BitVec.ofBool b2 ++ BitVec.ofBool b1 ++ 1#1).setWidth 48

/-- In 32-bit FP register mode a single-precision operand may name the odd half of a pair. -/
def oddHalf (in64bFpregMode : Bool) (r : PrfPtr) : Bool := !in64bFpregMode && r.getLsbD 0

/-! ## Shared arms -/

/-- An operation into `rd` becomes a NOP when `rd` is zero. -/
def rdOp (op : Opcode) (u : Uop) : Uop :=
  { u with
    dst := rd insn, dstValid := rd insn != 0, op := if rd insn = 0 then .NOP else op, isInt := true }

def shiftImm (op : Opcode) (u : Uop) : Uop :=
  rdOp insn op { u with srcA := rt insn, srcAValid := true, srcB := shamt insn }

def twoSrc (op : Opcode) (a b : PrfPtr) (u : Uop) : Uop :=
  rdOp insn op { u with srcA := a, srcAValid := true, srcB := b, srcBValid := true }

def condMove (op : Opcode) (u : Uop) : Uop :=
  twoSrc insn op (rt insn) (rs insn) { u with srcC := rd insn, srcCValid := true }

def hiloOp (op : Opcode) (a b : PrfPtr) (u : Uop) : Uop :=
  { u with
    srcA := a, srcAValid := true, srcB := b, srcBValid := true, hiloDstValid := true, op := op,
    isInt := true }

def moveToHilo (op : Opcode) (u : Uop) : Uop :=
  { u with
    op := op, srcA := rs insn, srcAValid := true, hiloSrcValid := true, hiloDstValid := true,
    isInt := true }

/-- An operation into `rt` with a 16-bit immediate becomes a NOP when `rt` is zero. -/
def rtImm (op : Opcode) (u : Uop) : Uop :=
  { u with
    op := if rt insn = 0 then .NOP else op, dstValid := rt insn != 0, isInt := true, dst := rt insn,
    imm := imm insn }

def aluImm (op : Opcode) (u : Uop) : Uop :=
  rtImm insn op { u with srcAValid := true, srcA := rs insn }

def indirect (op : Opcode) (predTarget : Word) (u : Uop) : Uop :=
  { u with
    srcA := rs insn, srcAValid := true, hasDelaySlot := true, op := op,
    imm := predTarget.extractLsb' 0 16, jmpImm := predTarget.extractLsb' 16 48, isBr := true,
    isInt := true }

def branchOne (op : Opcode) (likely pred : Bool) (u : Uop) : Uop :=
  { u with
    op := op, srcA := rs insn, srcAValid := true, hasDelaySlot := true,
    hasNullifyingDelaySlot := likely, imm := imm insn, brPred := pred, isBr := true, isInt := true }

def branchTwo (op : Opcode) (likely pred : Bool) (u : Uop) : Uop :=
  branchOne insn op likely pred { u with srcB := rt insn, srcBValid := true }

def load (op : Opcode) (u : Uop) : Uop :=
  { u with
    op := op, srcA := rs insn, srcAValid := true, dst := rt insn, dstValid := rt insn != 0,
    imm := imm insn, isMem := true }

def loadMerge (op : Opcode) (u : Uop) : Uop :=
  load insn op { u with srcB := rt insn, srcBValid := true }

def store (op : Opcode) (u : Uop) : Uop :=
  { u with
    op := op, srcA := rs insn, srcAValid := true, srcB := rt insn, srcBValid := true,
    imm := imm insn, isMem := true, isStore := true }

def serializing (op : Opcode) (u : Uop) : Uop :=
  { u with op := op, isInt := true, serializingOp := true, mustRestart := true }

/-! ## Major opcode 0 -/

def rtype (predTarget : Word) (u : Uop) : Uop :=
  match (funct insn).toNat with
  | 0 => -- only the NOP and EHB encodings are folded here
    { u with
      srcA := rt insn, srcAValid := true, srcB := shamt insn, dst := rd insn,
      dstValid := rd insn != 0, op := if isNop insn || isEhb insn then .NOP else .SLL,
      isInt := true }
  | 1 =>
    if rd insn = 0 then { u with op := .NOP, dstValid := false, isInt := true }
    else { u with
      dst := rd insn, srcA := rs insn, srcAValid := true, srcB := rd insn, srcBValid := true,
      srcC := cc insn, fcrSrcValid := true, op := if insn.getLsbD 16 then .MOVT else .MOVF,
      dstValid := true, isInt := true }
  | 2 => shiftImm insn .SRL u
  | 3 => shiftImm insn .SRA u
  | 4 => twoSrc insn .SLLV (rt insn) (rs insn) u
  | 5 => { u with
      op := .MONITOR, serializingOp := true, hasDelaySlot := false, mustRestart := true, dst := 2,
      dstValid := true, srcA := 31, srcAValid := true, imm := 0#1 ++ insn.extractLsb' 7 15,
      isInt := true }
  | 6 => twoSrc insn .SRLV (rt insn) (rs insn) u
  | 7 => twoSrc insn .SRAV (rt insn) (rs insn) u
  | 8 => indirect insn .JR predTarget u
  | 9 => { indirect insn .JALR predTarget u with dstValid := rd insn != 0, dst := rd insn }
  | 10 => condMove insn .MOVZ u
  | 11 => condMove insn .MOVN u
  | 12 => { u with
      op := .SYSCALL, srcA := 7, srcAValid := true, srcB := 2, srcBValid := true, dst := 2,
      dstValid := true, mustRestart := true, serializingOp := true, isInt := true }
  | 13 => { u with op := .BREAK, serializingOp := true, isInt := true }
  | 15 => { u with op := .SYNC, isMem := true, isInt := true }
  | 16 => rdOp insn .MFHI { u with hiloSrcValid := true }
  | 17 => moveToHilo insn .MTHI u
  | 18 => rdOp insn .MFLO { u with hiloSrcValid := true }
  | 19 => moveToHilo insn .MTLO u
  | 20 => twoSrc insn .DSLLV (rt insn) (rs insn) u
  | 22 => twoSrc insn .DSRLV (rt insn) (rs insn) u
  | 23 => twoSrc insn .DSRAV (rt insn) (rs insn) u
  | 24 => hiloOp .MULT (rs insn) (rt insn) u
  | 25 => hiloOp .MULTU (rs insn) (rt insn) u
  | 26 => hiloOp .DIV (rs insn) (rt insn) u
  | 27 => hiloOp .DIVU (rs insn) (rt insn) u
  | 33 => twoSrc insn .ADDU (rt insn) (rs insn) u
  | 35 => twoSrc insn .SUBU (rs insn) (rt insn) u
  | 36 => twoSrc insn .AND (rt insn) (rs insn) u
  | 37 =>
    if rs insn = 0 then rdOp insn .MOV { u with srcA := rt insn, srcAValid := true }
    else twoSrc insn .OR (rt insn) (rs insn) u
  | 38 => twoSrc insn .XOR (rt insn) (rs insn) u
  | 39 => twoSrc insn .NOR (rt insn) (rs insn) u
  | 42 => twoSrc insn .SLT (rt insn) (rs insn) u
  | 43 => twoSrc insn .SLTU (rt insn) (rs insn) u
  | 45 => twoSrc insn .DADDU (rt insn) (rs insn) u
  | 47 => twoSrc insn .DSUBU (rt insn) (rs insn) u
  | 52 => { u with op := .NOP, isInt := true }
  | 56 => shiftImm insn .DSLL u
  | 58 => shiftImm insn .DSRL u
  | 59 => shiftImm insn .DSRA u
  | 60 => shiftImm insn .DSLL32 u
  | 62 => shiftImm insn .DSRL32 u
  | 63 => shiftImm insn .DSRA32 u
  | _ => u

/-! ## Major opcode 1 -/

def regimm (pred : Bool) (u : Uop) : Uop :=
  match (insn.extractLsb' 16 5).toNat with
  | 0 => branchOne insn .BLTZ false pred u
  | 1 => branchOne insn .BGEZ false pred u
  | 2 => branchOne insn .BLTZL true pred u
  | 3 => branchOne insn .BGEZL true pred u
  | 17 => { branchOne insn (if rs insn = 0 then .BAL else .BGEZAL) false pred u with
      dstValid := true, dst := 31, srcB := 31, srcBValid := rs insn != 0 }
  | _ => branchOne insn .II false pred u

/-! ## Coprocessor 0 -/

def coproc0 (u : Uop) : Uop :=
  if insn.getLsbD 25 && funct insn == 24 then serializing .ERET u
  else if insn.getLsbD 25 && funct insn == 32 then serializing .WAIT u
  else if insn.extractLsb' 21 5 == 0b01011#5 && imm insn == 0b0110000000000000#16 then
    { serializing .DI u with dst := rt insn, dstValid := rt insn != 0, srcA := 12 }
  else if insn.extractLsb' 21 5 == 0b01011#5 && imm insn == 0b0110000000100000#16 then
    { serializing .EI u with dst := rt insn, dstValid := rt insn != 0, srcA := 12 }
  else match (insn.extractLsb' 21 5).toNat with
    | 0 => { serializing .MFC0 u with dst := rt insn, dstValid := true, srcA := rd insn }
    | 4 => { serializing .MTC0 u with
        dst := rd insn, srcA := rt insn, srcAValid := true, hasDelaySlot := false }
    | _ => u

/-! ## Coprocessor 1 -/

/-- The format field selects the single or the double operation. -/
def fmtOp (fmt : BitVec 5) (sp dp : Opcode) : Opcode :=
  match fmt.toNat with
  | 16 => sp
  | 17 => dp
  | _ => .II

def fpOne (u : Uop) : Uop :=
  { u with
    srcA := fs insn, fpSrcAValid := true, dst := fd insn, fpDstValid := true, isFp := true }

def fpArith (in64bFpregMode : Bool) (sp dp : Opcode) (u : Uop) : Uop :=
  let u := { fpOne insn u with
    srcB := ft insn, fpSrcBValid := true, op := fmtOp (insn.extractLsb' 21 5) sp dp }
  if insn.extractLsb' 21 5 = 16#5 then
    { u with
      jmpImm := spImm (oddHalf in64bFpregMode (fs insn)) (oddHalf in64bFpregMode (ft insn))
        (oddHalf in64bFpregMode (fd insn)) }
  else u

def fpCompare (in64bFpregMode : Bool) (sp dp : Opcode) (u : Uop) : Uop :=
  let u := { u with
    op := fmtOp (insn.extractLsb' 21 5) sp dp, srcA := fs insn, fpSrcAValid := true, srcB := ft insn,
    fpSrcBValid := true, isFp := true, fcrDstValid := true, fcrSrcValid := true,
    imm := (insn.extractLsb' 8 3).setWidth 16 }
  if insn.extractLsb' 21 5 = 16#5 then
    { u with
      jmpImm := spImm (oddHalf in64bFpregMode (fs insn)) (oddHalf in64bFpregMode (ft insn)) false }
  else u

def fpOps (in64bFpregMode : Bool) (u : Uop) : Uop :=
  match (funct insn).toNat with
  | 0 => fpArith insn in64bFpregMode .SP_ADD .DP_ADD u
  | 1 => fpArith insn in64bFpregMode .SP_SUB .DP_SUB u
  | 2 => fpArith insn in64bFpregMode .SP_MUL .DP_MUL u
  | 3 => fpArith insn in64bFpregMode .SP_DIV .DP_DIV u
  | 4 =>
    let u := { fpOne insn u with op := fmtOp (insn.extractLsb' 21 5) .SP_SQRT .DP_SQRT }
    if insn.extractLsb' 21 5 = 16#5 then
      { u with
        jmpImm := spImm (oddHalf in64bFpregMode (fs insn)) false (oddHalf in64bFpregMode (fd insn)) }
    else u
  | 6 => { fpOne insn u with op := fmtOp (insn.extractLsb' 21 5) .SP_MOV .DP_MOV }
  | 13 =>
    let u := { u with
      srcA := fs insn, fpSrcAValid := true, fpDstValid := true, isFp := true,
      op := fmtOp (insn.extractLsb' 21 5) .TRUNC_SP_W .TRUNC_DP_W }
    if in64bFpregMode then { u with dst := fd insn }
    else { u with
      dst := evenReg (fd insn), srcB := pairReg (fd insn),
      srcC := ((fd insn).extractLsb' 0 1).setWidth 6, fpSrcBValid := true }
  | 17 => { u with
      dst := fd insn,
      op := if (fd insn).getLsbD 0 then .II else if insn.getLsbD 16 then .FP_MOVT else .FP_MOVF,
      fpDstValid := true, srcA := fs insn, fpSrcAValid := true, srcB := fd insn, fpSrcBValid := true,
      srcC := cc insn, fcrSrcValid := true, isFp := true }
  | 32 =>
    let u := { fpOne insn u with
      op := if insn.extractLsb' 21 5 = 17#5 then .CVT_DP_SP
        else if insn.extractLsb' 21 5 = 20#5 then .CVT_W_SP else .II }
    if in64bFpregMode then u
    else { u with
      dst := evenReg (fd insn), srcA := evenReg (fs insn), srcB := pairReg (fd insn),
      srcC := 0#4 ++ (fs insn).extractLsb' 0 1 ++ (fd insn).extractLsb' 0 1, fpSrcBValid := true }
  | 33 => { fpOne insn u with
      op := if insn.extractLsb' 21 5 = 16#5 then .CVT_SP_DP
        else if insn.extractLsb' 21 5 = 20#5 then .CVT_W_DP else .II }
  | 50 => fpCompare insn in64bFpregMode .SP_CMP_EQ .DP_CMP_EQ u
  | 60 => fpCompare insn in64bFpregMode .SP_CMP_LT .DP_CMP_LT u
  | 62 => fpCompare insn in64bFpregMode .SP_CMP_LE .DP_CMP_LE u
  | _ => u

def fpBranch (pred : Bool) (u : Uop) : Uop :=
  { u with
    fcrSrcValid := true, hasDelaySlot := true, imm := imm insn, brPred := pred, isBr := true,
    isInt := true, srcC := cc insn,
    op := match insn.getLsbD 17, insn.getLsbD 16 with
      | false, false => .BC1F
      | false, true => .BC1T
      | true, false => .BC1FL
      | true, true => .BC1TL
    hasNullifyingDelaySlot := insn.getLsbD 17 }

def coproc1 (in64bFpregMode pred : Bool) (u : Uop) : Uop :=
  if insn.extractLsb' 21 5 = 8#5 then fpBranch insn pred u
  else if insn.extractLsb' 21 5 = 0#5 ∧ insn.extractLsb' 0 11 = 0#11 then
    let u := { u with dst := rt insn, dstValid := true, fpSrcBValid := true, isMem := true }
    if in64bFpregMode then { u with op := .MFC1, srcB := rd insn }
    else { u with op := .MFC1_MERGE, srcB := evenReg (rd insn), jmpImm := flagImm (rd insn) }
  else if insn.extractLsb' 21 5 = 4#5 ∧ insn.extractLsb' 0 11 = 0#11 then
    let u := { u with
      srcA := rt insn, srcAValid := true, fpDstValid := true, imm := imm insn, isMem := true }
    if in64bFpregMode then { u with op := .MTC1, dst := rd insn }
    else { u with
      op := .MTC1_MERGE, dst := evenReg (rd insn), srcB := evenReg (rd insn),
      jmpImm := flagImm (rd insn), fpSrcBValid := true }
  else fpOps insn in64bFpregMode u

/-! ## Major opcodes 28 and 31 -/

def special2 (u : Uop) : Uop :=
  match (funct insn).toNat with
  | 0 => { hiloOp .MADD (rt insn) (rs insn) u with hiloSrcValid := true }
  | 2 => twoSrc insn .MUL (rt insn) (rs insn) u
  | 4 => { hiloOp .MSUB (rt insn) (rs insn) u with hiloSrcValid := true }
  | 32 => rdOp insn .CLZ { u with srcA := rs insn, srcAValid := true }
  | _ => u

def special3 (u : Uop) : Uop :=
  match (funct insn).toNat with
  | 0 => { u with
      op := .EXT, srcA := rs insn, srcAValid := true, dst := rt insn, dstValid := true,
      imm := imm insn, isInt := true }
  | 4 => { u with
      op := .INS, srcA := rt insn, srcAValid := true, srcB := rs insn, srcBValid := true,
      dst := rt insn, dstValid := true, imm := imm insn, isInt := true }
  | 32 => { u with
      op := if insn.extractLsb' 6 5 = 16#5 then .SEB else .SEH, dst := rd insn, dstValid := true,
      srcA := rt insn, srcAValid := true, isInt := true }
  | 59 => { u with op := .RDHWR, dst := rt insn, dstValid := true, srcA := rd insn, isInt := true }
  | _ => u

/-! ## Major opcodes -/

def majorOp (in64bFpregMode pred : Bool) (predTarget : Word) (u : Uop) : Uop :=
  match (opcode insn).toNat with
  | 0 => rtype insn predTarget u
  | 1 => regimm insn pred u
  | 2 => { u with op := .J, isBr := true, isInt := true, hasDelaySlot := true }
  | 3 => { u with
      op := .JAL, hasDelaySlot := true, imm := imm insn, jmpImm := (insn.extractLsb' 16 10).setWidth 48,
      dstValid := true, dst := 31, brPred := true, isBr := true, isInt := true }
  | 4 => branchTwo insn .BEQ false pred u
  | 5 => branchTwo insn .BNE false pred u
  | 6 => branchOne insn .BLEZ false pred u
  | 7 => branchOne insn .BGTZ false pred u
  | 9 => if rs insn = 0 then rtImm insn .MOVI u else aluImm insn .ADDIU u
  | 10 => aluImm insn .SLTI u
  | 11 => aluImm insn .SLTIU u
  | 12 => aluImm insn .ANDI u
  | 13 => aluImm insn .ORI u
  | 14 => aluImm insn .XORI u
  | 15 => rtImm insn .LUI u
  | 16 => coproc0 insn u
  | 17 => coproc1 insn in64bFpregMode pred u
  | 20 => branchTwo insn .BEQL true pred u
  | 21 => branchTwo insn .BNEL true pred u
  | 22 => branchOne insn .BLEZL true pred u
  | 23 => branchOne insn .BGTZL true pred u
  | 25 => aluImm insn .DADDIU u
  | 26 => { loadMerge insn .LDL u with dstValid := true }
  | 27 => { loadMerge insn .LDR u with dstValid := true }
  | 28 => special2 insn u
  | 31 => special3 insn u
  | 32 => load insn .LB u
  | 33 => load insn .LH u
  | 34 => loadMerge insn .LWL u
  | 35 => load insn .LW u
  | 36 => load insn .LBU u
  | 37 => load insn .LHU u
  | 38 => loadMerge insn .LWR u
  | 40 => store insn .SB u
  | 41 => store insn .SH u
  | 42 => store insn .SWL u
  | 43 => store insn .SW u
  | 44 => store insn .SDL u
  | 45 => store insn .SDR u
  | 46 => store insn .SWR u
  | 48 => load insn .LW u -- load-linked is treated as a normal load
  | 49 =>
    let u := { u with
      srcA := rs insn, srcAValid := true, fpDstValid := true, imm := imm insn, isMem := true }
    if in64bFpregMode then { u with op := .LWC1, dst := rt insn }
    else { u with
      op := .LWC1_MERGE, dst := evenReg (rt insn), srcB := evenReg (rt insn), fpSrcBValid := true,
      jmpImm := flagImm (rt insn) }
  | 51 => { u with op := .NOP, isInt := true }
  | 53 => { u with
      op := .LDC1, srcA := rs insn, srcAValid := true, dst := rt insn, fpDstValid := true,
      imm := imm insn, isMem := true }
  | 55 => load insn .LD u
  | 57 =>
    let u := { u with
      srcA := rs insn, srcAValid := true, fpSrcBValid := true, imm := imm insn, isMem := true,
      isStore := true }
    if in64bFpregMode then { u with op := .SWC1, srcB := rt insn }
    else { u with op := .SWC1_MERGE, srcB := evenReg (rt insn), jmpImm := flagImm (rt insn) }
  | 61 => { u with
      op := .SDC1, srcA := rs insn, srcAValid := true, srcB := rt insn, fpSrcBValid := true,
      imm := imm insn, isMem := true, isStore := true }
  | 63 => store insn .SD u
  | _ => u

end Decode

/-- `decode_mips32` -/
def decodeMips32 (in64bFpregMode : Bool) (f : InsnFetch) : Uop :=
  Decode.majorOp f.data in64bFpregMode f.pred f.predTarget { pc := f.pc, phtIdx := f.phtIdx }

/-! ## Destinations -/

/-- The register number names an architectural register. -/
def IsArch (r : PrfPtr) : Prop := r.getLsbD 5 = false

instance (r : PrfPtr) : Decidable (IsArch r) := inferInstanceAs (Decidable (_ = _))

namespace Decode
theorem isArch_setWidth (r : BitVec 5) : IsArch (r.setWidth 6) := by simp [IsArch]
@[simp] theorem isArch_rt (insn : BitVec 32) : IsArch (rt insn) := isArch_setWidth _
@[simp] theorem isArch_rd (insn : BitVec 32) : IsArch (rd insn) := isArch_setWidth _
@[simp] theorem isArch_fd (insn : BitVec 32) : IsArch (fd insn) := isArch_setWidth _
@[simp] theorem isArch_evenReg (r : PrfPtr) : IsArch (evenReg r) := by
  unfold IsArch evenReg
  rw [BitVec.getLsbD_append, BitVec.getLsbD_append]
  rfl
@[simp] theorem isArch_zero : IsArch 0#6 := by decide
@[simp] theorem isArch_two : IsArch 2#6 := by decide
@[simp] theorem isArch_link : IsArch 31#6 := by decide

variable (insn : BitVec 32) {u : Uop}

theorem rtype_isArch (t : Word) (h : IsArch u.dst) : IsArch (rtype insn t u).dst := by
  unfold rtype
  split <;> (try split) <;>
    simp [shiftImm, rdOp, twoSrc, condMove, hiloOp, moveToHilo, indirect, h]

theorem regimm_isArch (p : Bool) (h : IsArch u.dst) : IsArch (regimm insn p u).dst := by
  unfold regimm
  split <;> simp [branchOne, h]

theorem coproc0_isArch (h : IsArch u.dst) : IsArch (coproc0 insn u).dst := by
  unfold coproc0
  split_ifs <;> (try split) <;> simp [serializing, h]

theorem fpOps_isArch (m : Bool) (h : IsArch u.dst) : IsArch (fpOps insn m u).dst := by
  unfold fpOps
  split <;> (try simp only [fpArith, fpCompare, fpOne]) <;> (try split_ifs) <;> simp [h]

theorem coproc1_isArch (m p : Bool) (h : IsArch u.dst) : IsArch (coproc1 insn m p u).dst := by
  unfold coproc1
  split_ifs <;> first | simp [fpBranch, h] | exact fpOps_isArch insn _ h

theorem special2_isArch (h : IsArch u.dst) : IsArch (special2 insn u).dst := by
  unfold special2
  split <;> simp [rdOp, twoSrc, hiloOp, h]

theorem special3_isArch (h : IsArch u.dst) : IsArch (special3 insn u).dst := by
  unfold special3
  split <;> simp [h]

theorem majorOp_isArch (m p : Bool) (t : Word) (h : IsArch u.dst) :
    IsArch (majorOp insn m p t u).dst := by
  unfold majorOp
  split
  case h_1 => exact rtype_isArch _ _ h
  case h_2 => exact regimm_isArch _ _ h
  case h_16 => exact coproc0_isArch _ h
  case h_17 => exact coproc1_isArch _ _ _ h
  case h_25 => exact special2_isArch _ h
  case h_26 => exact special3_isArch _ h
  all_goals
    (try split_ifs) <;> simp [branchTwo, branchOne, rtImm, aluImm, load, loadMerge, store, h]

end Decode

/-- Every decoded destination is an architectural register. -/
theorem decode_isArch (m : Bool) (f : InsnFetch) : IsArch (decodeMips32 m f).dst :=
  Decode.majorOp_isArch _ _ _ _ Decode.isArch_zero

/-! ## Sources of DI and EI -/

/-- DI and EI name the status register as their source, and it is not renamed. -/
def ReadsStatus (u : Uop) : Prop :=
  u.op = .DI ∨ u.op = .EI → u.srcA = 12 ∧ u.srcAValid = false ∧ u.fpSrcAValid = false

namespace Decode
variable (insn : BitVec 32) {u : Uop}

theorem readsStatus_of_op (h : (u.op == .DI || u.op == .EI) = false) : ReadsStatus u := by
  simp only [Bool.or_eq_false_iff, beq_eq_false_iff_ne] at h
  exact fun hop => absurd hop (not_or.mpr h)

theorem rdOp_readsStatus {op : Opcode} (h : (op == .DI || op == .EI) = false) :
    ReadsStatus (rdOp insn op u) := by
  apply readsStatus_of_op
  unfold rdOp
  split_ifs
  · rfl
  · exact h

theorem rtImm_readsStatus {op : Opcode} (h : (op == .DI || op == .EI) = false) :
    ReadsStatus (rtImm insn op u) := by
  apply readsStatus_of_op
  unfold rtImm
  split_ifs
  · rfl
  · exact h

theorem rtype_readsStatus (t : Word) (h : ReadsStatus u) : ReadsStatus (rtype insn t u) := by
  unfold rtype
  split <;> first
    | exact readsStatus_of_op rfl
    | exact rdOp_readsStatus insn rfl
    | exact h
    | split_ifs <;> first | exact readsStatus_of_op rfl | exact rdOp_readsStatus insn rfl

theorem regimm_readsStatus (p : Bool) : ReadsStatus (regimm insn p u) := by
  unfold regimm
  split <;> first
    | exact readsStatus_of_op rfl
    | split_ifs <;> exact readsStatus_of_op rfl

theorem coproc0_readsStatus (h : ReadsStatus u) (ha : u.srcAValid = false)
    (hf : u.fpSrcAValid = false) : ReadsStatus (coproc0 insn u) := by
  unfold coproc0
  split_ifs <;> first
    | exact readsStatus_of_op rfl
    | exact fun _ => ⟨rfl, ha, hf⟩
    | split <;> first | exact readsStatus_of_op rfl | exact h

theorem fmtOp_ne (fmt : BitVec 5) {sp dp op : Opcode} (h1 : sp ≠ op) (h2 : dp ≠ op)
    (h3 : op ≠ .II) : fmtOp fmt sp dp ≠ op := by
  unfold fmtOp
  split
  · exact h1
  · exact h2
  · exact h3.symm

theorem fpOps_readsStatus (m : Bool) (h : ReadsStatus u) : ReadsStatus (fpOps insn m u) := by
  unfold fpOps
  split <;> (try simp only [fpArith, fpCompare, fpOne]) <;> (try split_ifs) <;> first
    | exact readsStatus_of_op rfl
    | exact h
    | exact fun hop => absurd hop (by simp [fmtOp_ne])

theorem coproc1_readsStatus (m p : Bool) (h : ReadsStatus u) : ReadsStatus (coproc1 insn m p u) := by
  unfold coproc1
  split_ifs <;> first
    | exact fpOps_readsStatus insn _ h
    | exact readsStatus_of_op rfl
    | unfold fpBranch; split <;> exact readsStatus_of_op rfl

theorem special2_readsStatus (h : ReadsStatus u) : ReadsStatus (special2 insn u) := by
  unfold special2
  split <;> first
    | exact readsStatus_of_op rfl
    | exact rdOp_readsStatus insn rfl
    | exact h

theorem special3_readsStatus (h : ReadsStatus u) : ReadsStatus (special3 insn u) := by
  unfold special3
  split <;> first
    | exact readsStatus_of_op rfl
    | exact h
    | split_ifs <;> exact readsStatus_of_op rfl

theorem majorOp_readsStatus (m p : Bool) (t : Word) (h : ReadsStatus u) (ha : u.srcAValid = false)
    (hf : u.fpSrcAValid = false) : ReadsStatus (majorOp insn m p t u) := by
  unfold majorOp
  split
  case h_1 => exact rtype_readsStatus _ _ h
  case h_2 => exact regimm_readsStatus _ _
  case h_16 => exact coproc0_readsStatus _ h ha hf
  case h_17 => exact coproc1_readsStatus _ _ _ h
  case h_25 => exact special2_readsStatus _ h
  case h_26 => exact special3_readsStatus _ h
  all_goals first
    | exact readsStatus_of_op rfl
    | exact rtImm_readsStatus insn rfl
    | exact h
    | split_ifs <;> first | exact readsStatus_of_op rfl | exact rtImm_readsStatus insn rfl

end Decode

theorem decode_readsStatus (m : Bool) (f : InsnFetch) : ReadsStatus (decodeMips32 m f) :=
  Decode.majorOp_readsStatus _ _ _ _ (by simp [ReadsStatus]) rfl rfl

/-! ## Operations that write an integer register -/

/-- The operations whose execution writes an integer register whatever `dst_valid` says. -/
def writesGpr : Opcode → Bool
  | .SLL | .SRL | .SRA | .SLLV | .SRLV | .SRAV | .JALR | .SYSCALL | .MFHI | .ADDU | .SUBU | .AND
  | .OR | .XOR | .NOR | .SLT | .SLTU | .MFLO | .ADDIU | .SLTI | .SLTIU | .ANDI | .ORI | .XORI
  | .LUI | .JAL | .MFC0 | .LW | .LB | .LBU | .LH | .LHU | .MOVN | .MOVZ | .EXT | .MUL | .CLZ
  | .LWL | .LWR | .SEB | .SEH | .DADDU | .DADDIU | .DSUBU | .BAL | .BGEZAL | .RDHWR | .SC | .MOVF
  | .MOVT | .MFC1_MERGE | .MOVI | .MOV | .MONITOR => true
  | _ => false

/-- An operation that writes an integer register has no floating-point destination. -/
def GprOnly (u : Uop) : Prop := writesGpr u.op = true → u.fpDstValid = false

namespace Decode
variable (insn : BitVec 32) {u : Uop}

theorem rtype_gprOnly (t : Word) (h : u.fpDstValid = false) : GprOnly (rtype insn t u) := by
  intro _
  unfold rtype
  split <;> (try split_ifs) <;>
    simp [shiftImm, rdOp, twoSrc, condMove, hiloOp, moveToHilo, indirect, h]

theorem regimm_gprOnly (p : Bool) (h : u.fpDstValid = false) : GprOnly (regimm insn p u) := by
  intro _
  unfold regimm
  split <;> simp [branchOne, h]

theorem coproc0_gprOnly (h : u.fpDstValid = false) : GprOnly (coproc0 insn u) := by
  intro _
  unfold coproc0
  split_ifs <;> (try split) <;> simp [serializing, h]

theorem writesGpr_fmtOp (fmt : BitVec 5) {sp dp : Opcode} (h1 : writesGpr sp = false)
    (h2 : writesGpr dp = false) : writesGpr (fmtOp fmt sp dp) = false := by
  unfold fmtOp
  split
  · exact h1
  · exact h2
  · rfl

theorem fpOps_gprOnly (m : Bool) (h : u.fpDstValid = false) : GprOnly (fpOps insn m u) := by
  have hfmt : ∀ fmt sp dp, writesGpr sp = false → writesGpr dp = false →
      writesGpr (fmtOp fmt sp dp) ≠ true := fun fmt sp dp h1 h2 => by
    simp [writesGpr_fmtOp fmt h1 h2]
  unfold fpOps GprOnly
  split <;> (try simp only [fpArith, fpCompare, fpOne]) <;> (try split_ifs) <;> intro hw <;> first
    | exact absurd hw (hfmt _ _ _ rfl rfl)
    | exact h
    | cases hw

theorem coproc1_gprOnly (m p : Bool) (h : u.fpDstValid = false) :
    GprOnly (coproc1 insn m p u) := by
  unfold coproc1
  split_ifs <;> first
    | exact fpOps_gprOnly insn _ h
    | exact fun _ => h
    | exact fun hw => absurd hw Bool.false_ne_true

theorem special2_gprOnly (h : u.fpDstValid = false) : GprOnly (special2 insn u) := by
  intro _
  unfold special2
  split <;> simp [rdOp, twoSrc, hiloOp, h]

theorem special3_gprOnly (h : u.fpDstValid = false) : GprOnly (special3 insn u) := by
  intro _
  unfold special3
  split <;> simp [h]

theorem majorOp_gprOnly (m p : Bool) (t : Word) (h : u.fpDstValid = false) :
    GprOnly (majorOp insn m p t u) := by
  unfold majorOp
  split
  case h_1 => exact rtype_gprOnly _ _ h
  case h_2 => exact regimm_gprOnly _ _ h
  case h_16 => exact coproc0_gprOnly _ h
  case h_17 => exact coproc1_gprOnly _ _ _ h
  case h_25 => exact special2_gprOnly _ h
  case h_26 => exact special3_gprOnly _ h
  -- the loads into the floating-point file write no integer register
  all_goals first
    | exact fun _ => h
    | exact fun hw => absurd hw Bool.false_ne_true
    | split_ifs <;> first | exact fun _ => h | exact fun hw => absurd hw Bool.false_ne_true

end Decode

theorem decode_gprOnly (m : Bool) (f : InsnFetch) : GprOnly (decodeMips32 m f) :=
  Decode.majorOp_gprOnly _ _ _ _ rfl

/-! ## Destination classes -/

/-- A uop names at most one class of destination, and a serializing one names no HI/LO, FCR or FP
register. -/
structure OneDest (u : Uop) : Prop where
  gpr : u.dstValid = true → u.hiloDstValid = false ∧ u.fcrDstValid = false ∧ u.fpDstValid = false
  hilo : u.hiloDstValid = true → u.fcrDstValid = false ∧ u.fpDstValid = false
  fcr : u.fcrDstValid = true → u.fpDstValid = false
  serial : u.serializingOp = true →
    u.hiloDstValid = false ∧ u.fcrDstValid = false ∧ u.fpDstValid = false

theorem oneDest_iff (u : Uop) :
    OneDest u ↔
      (u.dstValid = true → u.hiloDstValid = false ∧ u.fcrDstValid = false ∧ u.fpDstValid = false) ∧
        (u.hiloDstValid = true → u.fcrDstValid = false ∧ u.fpDstValid = false) ∧
          (u.fcrDstValid = true → u.fpDstValid = false) ∧
            (u.serializingOp = true →
              u.hiloDstValid = false ∧ u.fcrDstValid = false ∧ u.fpDstValid = false) :=
  ⟨fun h => ⟨h.gpr, h.hilo, h.fcr, h.serial⟩, fun h => ⟨h.1, h.2.1, h.2.2.1, h.2.2.2⟩⟩

namespace Decode
variable (insn : BitVec 32) {u : Uop}

/-- The uop that every arm of the decoder starts from. -/
def Bare (u : Uop) : Prop :=
  u.dstValid = false ∧ u.hiloDstValid = false ∧ u.fcrDstValid = false ∧ u.fpDstValid = false ∧
    u.serializingOp = false

theorem rtype_oneDest (t : Word) (h : Bare u) : OneDest (rtype insn t u) := by
  obtain ⟨h1, h2, h3, h4, h5⟩ := h
  unfold rtype
  split <;> (try split_ifs) <;>
    simp [oneDest_iff, shiftImm, rdOp, twoSrc, condMove, hiloOp, moveToHilo, indirect, h1, h2, h3, h4, h5]

theorem regimm_oneDest (p : Bool) (h : Bare u) : OneDest (regimm insn p u) := by
  obtain ⟨h1, h2, h3, h4, h5⟩ := h
  unfold regimm
  split <;> simp [oneDest_iff, branchOne, h1, h2, h3, h4, h5]

theorem coproc0_oneDest (h : Bare u) : OneDest (coproc0 insn u) := by
  obtain ⟨h1, h2, h3, h4, h5⟩ := h
  unfold coproc0
  split_ifs <;> (try split) <;> simp [oneDest_iff, serializing, h1, h2, h3, h4, h5]

theorem fpOps_oneDest (m : Bool) (h : Bare u) : OneDest (fpOps insn m u) := by
  obtain ⟨h1, h2, h3, h4, h5⟩ := h
  unfold fpOps
  split <;> (try simp only [fpArith, fpCompare, fpOne]) <;> (try split_ifs) <;>
    simp [oneDest_iff, h1, h2, h3, h4, h5]

theorem coproc1_oneDest (m p : Bool) (h : Bare u) : OneDest (coproc1 insn m p u) := by
  have hf := fpOps_oneDest insn m h
  obtain ⟨h1, h2, h3, h4, h5⟩ := h
  unfold coproc1
  split_ifs <;> first | exact hf | simp [oneDest_iff, fpBranch, h1, h2, h3, h4, h5]

theorem special2_oneDest (h : Bare u) : OneDest (special2 insn u) := by
  obtain ⟨h1, h2, h3, h4, h5⟩ := h
  unfold special2
  split <;> simp [oneDest_iff, rdOp, twoSrc, hiloOp, h1, h2, h3, h4, h5]

theorem special3_oneDest (h : Bare u) : OneDest (special3 insn u) := by
  obtain ⟨h1, h2, h3, h4, h5⟩ := h
  unfold special3
  split <;> simp [oneDest_iff, h1, h2, h3, h4, h5]

theorem majorOp_oneDest (m p : Bool) (t : Word) (h : Bare u) : OneDest (majorOp insn m p t u) := by
  have hr := rtype_oneDest insn t h
  have hb := regimm_oneDest insn p h
  have h0 := coproc0_oneDest insn h
  have hf := coproc1_oneDest insn m p h
  have hs2 := special2_oneDest insn h
  have hs3 := special3_oneDest insn h
  obtain ⟨h1, h2, h3, h4, h5⟩ := h
  unfold majorOp
  split
  case h_1 => exact hr
  case h_2 => exact hb
  case h_16 => exact h0
  case h_17 => exact hf
  case h_25 => exact hs2
  case h_26 => exact hs3
  all_goals
    (try split_ifs) <;>
      simp [oneDest_iff, branchTwo, branchOne, rtImm, aluImm, load, loadMerge, store, h1, h2, h3, h4,
        h5]

end Decode

theorem decode_oneDest (m : Bool) (f : InsnFetch) : OneDest (decodeMips32 m f) :=
  Decode.majorOp_oneDest _ _ _ _ ⟨rfl, rfl, rfl, rfl, rfl⟩

/-! ## The pc of a uop -/

namespace Decode
variable (insn : BitVec 32) {u : Uop}

theorem rtype_pc (t : Word) : (rtype insn t u).pc = u.pc := by
  unfold rtype
  split <;> (try split_ifs) <;> rfl

theorem regimm_pc (p : Bool) : (regimm insn p u).pc = u.pc := by
  unfold regimm
  split <;> rfl

theorem coproc0_pc : (coproc0 insn u).pc = u.pc := by
  unfold coproc0
  split_ifs <;> (try split) <;> rfl

theorem fpOps_pc (m : Bool) : (fpOps insn m u).pc = u.pc := by
  unfold fpOps
  split <;> (try simp only [fpArith, fpCompare, fpOne]) <;> (try split_ifs) <;> rfl

theorem coproc1_pc (m p : Bool) : (coproc1 insn m p u).pc = u.pc := by
  unfold coproc1
  split_ifs <;> first | exact fpOps_pc insn _ | rfl

theorem special2_pc : (special2 insn u).pc = u.pc := by
  unfold special2
  split <;> rfl

theorem special3_pc : (special3 insn u).pc = u.pc := by
  unfold special3
  split <;> rfl

theorem majorOp_pc (m p : Bool) (t : Word) : (majorOp insn m p t u).pc = u.pc := by
  unfold majorOp
  split
  case h_1 => exact rtype_pc _ _
  case h_2 => exact regimm_pc _ _
  case h_16 => exact coproc0_pc _
  case h_17 => exact coproc1_pc _ _ _
  case h_25 => exact special2_pc _
  case h_26 => exact special3_pc _
  all_goals (try split_ifs) <;> rfl

end Decode

/-- A uop carries the pc of its instruction. -/
theorem decode_pc (m : Bool) (f : InsnFetch) : (decodeMips32 m f).pc = f.pc :=
  Decode.majorOp_pc _ _ _ _

end MipsCore
