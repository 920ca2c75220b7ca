import Mathlib.Data.BitVec

/-! # Machine parameters and the records of the core

The widths of `machine.vh` with the Verilator configuration (64-bit integer
registers, floating point), the micro-operation of `uop.vh` and the reorder
buffer, completion, fetch and memory records of `rob.vh`.  Cycle accounting
fields are left out: nothing in the core reads them.
-/
namespace MipsCore

abbrev Word := BitVec 64
/-- `LG_PRF_ENTRIES` -/
abbrev PrfPtr := BitVec 6
/-- `LG_ROB_ENTRIES` -/
abbrev RobPtr := BitVec 5
/-- `LG_HILO_PRF_ENTRIES` and `LG_FCR_PRF_ENTRIES` -/
abbrev HiloPtr := BitVec 2
abbrev ArchReg := BitVec 5

inductive MemOp
  | LB | LBU | LH | LHU | LW | SB | SH | SW | SWR | SWL | LWR | LWL | LL | SC | SDC1 | LDC1
  | SWC1 | LWC1 | MFC1 | LWC1_MERGE | SWC1_MERGE | MTC1_MERGE | MFC1_MERGE
  | DEAD_LD | DEAD_ST | DEAD_SC | NOP
  deriving DecidableEq, Repr

def bswap64 (x : BitVec 64) : BitVec 64 :=
  x.extractLsb' 0 8 ++ x.extractLsb' 8 8 ++ x.extractLsb' 16 8 ++ x.extractLsb' 24 8 ++
    x.extractLsb' 32 8 ++ x.extractLsb' 40 8 ++ x.extractLsb' 48 8 ++ x.extractLsb' 56 8
def bswap32 (x : BitVec 32) : BitVec 32 :=
  x.extractLsb' 0 8 ++ x.extractLsb' 8 8 ++ x.extractLsb' 16 8 ++ x.extractLsb' 24 8
def bswap16 (x : BitVec 16) : BitVec 16 := x.extractLsb' 0 8 ++ x.extractLsb' 8 8
def sext16 (x : BitVec 16) : Bool := x.getLsbD 7

inductive Opcode
  | SLL | SRL | SRA | SLLV | SRLV | SRAV | JR | JALR | SYSCALL | MFHI | MTHI | MULT | MULTU
  | DIV | DIVU | ADD | ADDU | SUB | SUBU | AND | OR | XOR | NOR | SLT | SLTU | MFLO | MTLO
  | BEQ | BNE | BLEZ | BGTZ | ADDI | ADDIU | SLTI | SLTIU | ANDI | ORI | XORI | LUI | J | JAL
  | MFC0 | MTC0 | MFC1 | MTC1 | LW | LB | LBU | LH | LHU | SB | SH | SW | BEQL | BNEL | BLTZ
  | BGEZ | BLTZL | BGEZL | BGTZL | BLEZL | MOVN | MOVZ | TEQ | EXT | INS | MADD | MADDU | MUL
  | MSUB | CLZ | LWL | LWR | SWL | SWR | SEB | SEH | DADDU | DADDIU | DSUBU | DSLL | DSRL
  | DSRA | DSLL32 | DSRL32 | DSRA32 | DSLLV | DSRLV | DSRAV | LD | SD | LDL | LDR | SDL | SDR
  | BAL | BGEZAL | BGEZALL | RDHWR | SC | SYNC | BREAK | SDC1 | LDC1 | SWC1 | LWC1
  | LWC1_MERGE | SWC1_MERGE | SP_ABS | DP_ABS | SP_NEG | DP_NEG | SP_SQRT | DP_SQRT
  | SP_RSQRT | DP_RSQRT | SP_RECIP | DP_RECIP | SP_ADD | DP_ADD | SP_SUB | DP_SUB | SP_MUL
  | DP_MUL | SP_DIV | DP_DIV | SP_MOV | DP_MOV | BC1TL | BC1T | BC1FL | BC1F | SP_CMP_LT
  | DP_CMP_LT | SP_CMP_EQ | DP_CMP_EQ | SP_CMP_LE | DP_CMP_LE | TRUNC_DP_W | TRUNC_SP_W
  | CVT_W_DP | CVT_W_SP | CVT_SP_DP | CVT_DP_SP | MOVF | MOVT | FP_MOVN | FP_MOVZ | FP_MOVF
  | FP_MOVT | ERET | MTC1_MERGE | MFC1_MERGE | MOVI | MOV | MONITOR | NOP | DI | EI | WAIT
  | II
  deriving DecidableEq, Repr

def isMult : Opcode → Bool
  | .MUL | .MADD | .MSUB | .MULT | .MULTU => true
  | _ => false
def isDiv : Opcode → Bool
  | .DIV | .DIVU => true
  | _ => false

/-- A micro-operation: register fields hold architectural numbers before rename and
physical ones after it. -/
structure Uop where
  op : Opcode := .II
  srcA : PrfPtr := 0
  srcAValid : Bool := false
  fpSrcAValid : Bool := false
  srcB : PrfPtr := 0
  srcBValid : Bool := false
  fpSrcBValid : Bool := false
  srcC : PrfPtr := 0
  srcCValid : Bool := false
  fpSrcCValid : Bool := false
  dst : PrfPtr := 0
  dstValid : Bool := false
  fpDstValid : Bool := false
  fcrDstValid : Bool := false
  hiloDstValid : Bool := false
  hiloDst : HiloPtr := 0
  fcrSrcValid : Bool := false
  hiloSrcValid : Bool := false
  hiloSrc : HiloPtr := 0
  hasDelaySlot : Bool := false
  hasNullifyingDelaySlot : Bool := false
  imm : BitVec 16 := 0
  jmpImm : BitVec 48 := 0
  pc : Word := 0
  robPtr : RobPtr := 0
  serializingOp : Bool := false
  mustRestart : Bool := false
  brPred : Bool := false
  isInt : Bool := false
  isBr : Bool := false
  isMem : Bool := false
  isFp : Bool := false
  isStore : Bool := false
  phtIdx : BitVec 16 := 0
  deriving DecidableEq, Repr, Inhabited

structure RobEntry where
  faulted : Bool := false
  isIi : Bool := false
  takeTrap : Bool := false
  exceptionTlbRefill : Bool := false
  exceptionTlbModified : Bool := false
  exceptionTlbInvalid : Bool := false
  isStore : Bool := false
  isRet : Bool := false
  isCall : Bool := false
  isEret : Bool := false
  isWait : Bool := false
  validDst : Bool := false
  validHiloDst : Bool := false
  validFcrDst : Bool := false
  validFpDst : Bool := false
  hasDelaySlot : Bool := false
  hasNullifyingDelaySlot : Bool := false
  inDelaySlot : Bool := false
  ldst : ArchReg := 0
  pdst : PrfPtr := 0
  oldPdst : PrfPtr := 0
  pc : Word := 0
  targetPc : Word := 0
  isBr : Bool := false
  isIndirect : Bool := false
  takeBr : Bool := false
  isBreak : Bool := false
  isSyscall : Bool := false
  data : Word := 0
  phtIdx : BitVec 16 := 0
  deriving DecidableEq, Repr, Inhabited

/-- A completion reported by the execution units. -/
structure Complete where
  robPtr : RobPtr := 0
  complete : Bool := false
  faulted : Bool := false
  restartPc : Word := 0
  takeBr : Bool := false
  isIi : Bool := false
  takeTrap : Bool := false
  data : Word := 0
  deriving DecidableEq, Repr, Inhabited

structure InsnFetch where
  data : BitVec 32 := 0
  pc : Word := 0
  predTarget : Word := 0
  pred : Bool := false
  phtIdx : BitVec 16 := 0
  deriving DecidableEq, Repr, Inhabited

structure MemReq where
  addr : Word := 0
  isStore : Bool := false
  isFp : Bool := false
  lwc1Lo : Bool := false
  op : MemOp := .NOP
  data : Word := 0
  robPtr : RobPtr := 0
  dstPtr : PrfPtr := 0
  dstValid : Bool := false
  fpDstValid : Bool := false
  pc : Word := 0
  deriving DecidableEq, Repr, Inhabited

structure MemRsp where
  op : MemOp := .NOP
  data : Word := 0
  robPtr : RobPtr := 0
  dstPtr : PrfPtr := 0
  dstValid : Bool := false
  fpDstValid : Bool := false
  faulted : Bool := false
  exceptionTlbRefill : Bool := false
  exceptionTlbModified : Bool := false
  exceptionTlbInvalid : Bool := false
  pc : Word := 0
  deriving DecidableEq, Repr, Inhabited

instance : Inhabited Opcode := ⟨.II⟩
instance : Inhabited MemOp := ⟨.NOP⟩

end MipsCore
