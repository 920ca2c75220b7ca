import MipsCore.Exec.State

/-! # The integer unit of the execution unit

The combinational block of `exec.sv` that executes the latched integer uop, with
the shifter, the leading-zero counter and the field mask it instantiates.
-/
namespace MipsCore

/-- `count_leading_zeros #(k + 2)` -/
def countLeadingZeros : (k : ℕ) → BitVec (2 ^ (k + 2)) → BitVec (k + 3)
  | 0, x =>
    if x = 0 then 4#3 else if x.getLsbD 3 then 0#3 else if x.getLsbD 2 then 1#3
    else if x.getLsbD 1 then 2#3 else 3#3
  | k + 1, x =>
    if hiHalf x = 0 then BitVec.ofNat _ (2 ^ (k + 2)) + (countLeadingZeros k (loHalf x)).setWidth _
    else (countLeadingZeros k (hiHalf x)).setWidth _

/-- `count_leading_zeros` counts the zeros above the highest set bit. -/
theorem countLeadingZeros_spec (k : ℕ) (x : BitVec (2 ^ (k + 2))) :
    (countLeadingZeros k x).toNat ≤ 2 ^ (k + 2) ∧
      x.toNat < 2 ^ (2 ^ (k + 2) - (countLeadingZeros k x).toNat) ∧
      (x ≠ 0 → 2 ^ (2 ^ (k + 2) - (countLeadingZeros k x).toNat) ≤ 2 * x.toNat) := by
  induction k with
  | zero =>
    revert x
    decide
  | succ k ih =>
    have hw := two_pow_halves k
    have hw3 : 2 ^ (k + 3) = 2 * 2 ^ (k + 2) := pow_succ' _ _
    have hw4 : 2 ^ (k + 1 + 3) = 2 * 2 ^ (k + 3) := pow_succ' _ _
    have hx := toNat_halves x
    rw [countLeadingZeros]
    split
    · next hhi =>
      obtain ⟨hle, hlt, hmax⟩ := ih (loHalf x)
      have hval : (BitVec.ofNat (k + 1 + 3) (2 ^ (k + 2)) +
          (countLeadingZeros k (loHalf x)).setWidth _).toNat =
            2 ^ (k + 2) + (countLeadingZeros k (loHalf x)).toNat := by
        simp only [BitVec.toNat_add, BitVec.toNat_ofNat, BitVec.toNat_setWidth]
        rw [Nat.mod_eq_of_lt (a := 2 ^ (k + 2)) (by omega),
          Nat.mod_eq_of_lt (a := (countLeadingZeros k _).toNat) (by omega), Nat.mod_eq_of_lt (by omega)]
      have hlo : x.toNat = (loHalf x).toNat := by rw [hx, hhi]; simp
      have hexp : 2 ^ (k + 1 + 2) - (2 ^ (k + 2) + (countLeadingZeros k (loHalf x)).toNat) =
          2 ^ (k + 2) - (countLeadingZeros k (loHalf x)).toNat := by omega
      rw [hval, hexp, hlo]
      refine ⟨by omega, hlt, fun hne => hmax fun h => hne (eq_zero_of_halves h hhi)⟩
    · next hhi =>
      obtain ⟨hle, hlt, hmax⟩ := ih (hiHalf x)
      have hval : ((countLeadingZeros k (hiHalf x)).setWidth (k + 1 + 3)).toNat =
          (countLeadingZeros k (hiHalf x)).toNat := by
        rw [BitVec.toNat_setWidth, Nat.mod_eq_of_lt (by omega)]
      have hlo := (loHalf x).isLt
      have hexp : 2 ^ (k + 1 + 2) - (countLeadingZeros k (hiHalf x)).toNat =
          2 ^ (k + 2) + (2 ^ (k + 2) - (countLeadingZeros k (hiHalf x)).toNat) := by omega
      have hhalf := hmax hhi
      rw [hval, hexp]
      generalize 2 ^ (k + 2) - (countLeadingZeros k (hiHalf x)).toNat = n at hlt hhalf
      have h1 := Nat.mul_le_mul_right (2 ^ 2 ^ (k + 2)) (Nat.succ_le_of_lt hlt)
      have h2 := Nat.mul_le_mul_right (2 ^ 2 ^ (k + 2)) hhalf
      have hpow : 2 ^ (2 ^ (k + 2) + n) = 2 ^ n * 2 ^ 2 ^ (k + 2) := by rw [pow_add, Nat.mul_comm]
      rw [Nat.succ_mul] at h1
      rw [Nat.mul_assoc] at h2
      refine ⟨by omega, ?_, fun _ => ?_⟩ <;> rw [hpow] <;> omega

/-- The zeros above the highest set bit are what `BitVec.clz` counts. -/
theorem countLeadingZeros_eq_clz (x : BitVec 32) :
    (countLeadingZeros 3 x).toNat = x.clz.toNat := by
  obtain ⟨hle, hlt, hmax⟩ := countLeadingZeros_spec 3 x
  by_cases hx : x = 0
  · subst hx
    decide
  · have h1 := BitVec.two_pow_sub_clz_le_toNat_of_ne_zero (by decide) hx
    have h2 := BitVec.toNat_lt_two_pow_sub_clz (x := x)
    have h3 := hmax hx
    have h4 := BitVec.clz_lt_iff_ne_zero.mpr hx
    have h5 : 32 - 1 - x.clz.toNat < 32 - (countLeadingZeros 3 x).toNat :=
      (Nat.pow_lt_pow_iff_right (a := 2) (by decide)).mp (lt_of_le_of_lt h1 hlt)
    have h6 : 32 - (countLeadingZeros 3 x).toNat < 32 - x.clz.toNat + 1 := by
      refine (Nat.pow_lt_pow_iff_right (a := 2) (by decide)).mp (lt_of_le_of_lt h3 ?_)
      have hpow : 2 ^ (32 - x.clz.toNat + 1) = 2 * 2 ^ (32 - x.clz.toNat) := pow_succ' _ _
      omega
    have h7 : x.clz.toNat < 32 := h4
    change (countLeadingZeros 3 x).toNat ≤ 32 at hle
    omega

/-- `shift_right` -/
def shiftRight (isSigned : Bool) (data : BitVec 32) (distance : BitVec 5) : BitVec 32 :=
  if isSigned then data.sshiftRight distance.toNat else data >>> distance.toNat

/-- `ext_mask`: the low `sz + 1` bits. -/
def extMask (x : BitVec 32) (sz : BitVec 5) : BitVec 32 :=
  x &&& BitVec.ofNat 32 (2 ^ (sz.toNat + 1) - 1)

def lo32 (x : Word) : BitVec 32 := x.extractLsb' 0 32
/-- The value that 32-bit mode sees of a register or writes to it. -/
def narrow (in32b : Bool) (x : Word) : Word := if in32b then (lo32 x).setWidth 64 else x
/-- A condition as a register value. -/
def flag (b : Bool) : Word := if b then 1 else 0

/-- The signals that the execution of the integer uop drives. -/
structure AluOut where
  nIn32bMode : Bool
  nIn32fpRegMode : Bool
  pc : Word
  result : Word := 0
  cpr0Result : Word := 0
  setThreadArea : Bool := false
  unimpOp : Bool := false
  fault : Bool := false
  wrIntPrf : Bool := false
  wrCpr0 : Bool := false
  dstCpr0 : BitVec 5
  takeBr : Bool := false
  mispredBr : Bool := false
  aluValid : Bool := false
  hiloResult : Word := 0
  wrHilo : Bool := false
  gotSyscall : Bool := false
  startMul : Bool := false
  startDiv32 : Bool := false
  deriving DecidableEq, Repr

/-- What the block reads: the uop, its operands, and the mode. -/
structure AluIn where
  uop : Uop
  srcA : Word
  srcB : Word
  srcC : Word
  hilo : Word
  fcr : BitVec 8
  cpr0SrcA : Word
  monitorRspData : Word
  in32bMode : Bool
  in32fpRegMode : Bool
  /-- `r_start_int & !ds_done` -/
  starts : Bool

namespace Alu
variable (a : AluIn)

def pc4 : Word := a.uop.pc + 4
def pc8 : Word := a.uop.pc + 8
def simm : Word := a.uop.imm.signExtend 64
def zimm : Word := a.uop.imm.setWidth 64
/-- The condition code that FP branches and conditional moves select. -/
def fcrBit : Bool := a.fcr.getLsbD (a.uop.srcC.extractLsb' 0 3).toNat

/-- The defaults of the block. -/
def default : AluOut where
  nIn32bMode := a.in32bMode
  nIn32fpRegMode := a.in32fpRegMode
  pc := a.uop.pc
  dstCpr0 := a.uop.dst.setWidth 5

def done : AluOut := { default a with aluValid := true }
/-- An operation that writes its result to the register file. -/
def writes (r : Word) : AluOut := { done a with result := r, wrIntPrf := true }
/-- A doubleword operation, unimplemented in 32-bit mode. -/
def doubleword (r : Word) : AluOut := { writes a r with unimpOp := a.in32bMode }
def writesHilo (r : Word) : AluOut := { done a with hiloResult := r, wrHilo := true }
def multiply : AluOut := { default a with startMul := a.starts }
def divide : AluOut := { default a with startDiv32 := a.starts }

/-- Where a conditional branch goes: to its target, or past its delay slot. -/
def branchPc (take : Bool) : Word := if take then pc4 a + simm a <<< 2 else pc8 a
def branch (take : Bool) : AluOut :=
  { done a with takeBr := take, mispredBr := a.uop.brPred != take, pc := branchPc a take }
/-- A likely branch that is not taken restarts, so that its delay slot is nullified. -/
def branchLikely (take : Bool) : AluOut :=
  { branch a take with mispredBr := a.uop.brPred != take || !take }
/-- An indirect jump compares its target with the predicted one. -/
def jumpReg : AluOut :=
  { done a with
    takeBr := true, mispredBr := a.srcA != a.uop.jmpImm ++ a.uop.imm, pc := a.srcA }

def ltZero : Bool := if a.in32bMode then (lo32 a.srcA).slt 0 else a.srcA.slt 0
def leZero : Bool := if a.in32bMode then (lo32 a.srcA).sle 0 else a.srcA.sle 0
/-- The sign test of BGEZ and BGEZAL looks at the sign bit. -/
def signClear : Bool := if a.in32bMode then !a.srcA.getLsbD 31 else !a.srcA.getLsbD 63
def slt (x y : Word) : Bool := if a.in32bMode then (lo32 x).slt (lo32 y) else x.slt y
def ult (x y : Word) : Bool := if a.in32bMode then (lo32 x).ult (lo32 y) else x.ult y

/-- EI and DI write the status register and return its old value. -/
def setInterrupts (on : Bool) : AluOut :=
  { writes a a.cpr0SrcA with
    wrIntPrf := a.uop.dstValid, pc := pc4 a, wrCpr0 := true, dstCpr0 := 12,
    cpr0Result := a.cpr0SrcA.extractLsb' 1 63 ++ BitVec.ofBool on }

def moveToCpr0 : AluOut :=
  let o := { done a with wrCpr0 := true, cpr0Result := a.srcA, pc := pc4 a }
  if a.uop.dst.setWidth 5 = 12#5 then
    { o with nIn32bMode := !a.srcA.getLsbD 5, nIn32fpRegMode := a.srcA.getLsbD 26 }
  else o

def syscall : AluOut :=
  let o := { writes a a.monitorRspData with gotSyscall := true, mispredBr := true, pc := pc4 a }
  if a.srcB = 4283 then
    { o with result := 0, setThreadArea := true, cpr0Result := a.monitorRspData }
  else o

def run : AluOut :=
  match a.uop.op with
  | .NOP => done a
  | .BREAK => { done a with fault := true }
  | .SYSCALL => syscall a
  | .SLL => writes a (a.srcA <<< a.uop.srcB.toNat)
  | .MOVT => writes a (if fcrBit a then a.srcA else a.srcB)
  | .MOVF => writes a (if fcrBit a then a.srcB else a.srcA)
  | .SRA => writes a ((shiftRight true (lo32 a.srcA) (a.uop.srcB.setWidth 5)).signExtend 64)
  | .SRAV => writes a ((shiftRight true (lo32 a.srcA) (a.srcB.setWidth 5)).signExtend 64)
  | .SRL => writes a (a.srcA >>> a.uop.srcB.toNat)
  | .SLLV => writes a (a.srcA <<< (a.srcB.setWidth 5).toNat)
  | .SRLV => writes a (a.srcA >>> (a.srcB.setWidth 5).toNat)
  | .MTLO => writesHilo a (a.hilo.extractLsb' 32 32 ++ lo32 a.srcA)
  | .MTHI => writesHilo a (lo32 a.srcA ++ lo32 a.hilo)
  | .MFLO => writes a ((lo32 a.hilo).setWidth 64)
  | .MFHI => writes a ((a.hilo.extractLsb' 32 32).setWidth 64)
  | .ADDU => writes a (a.srcA + a.srcB)
  | .DADDU => doubleword a (a.srcA + a.srcB)
  | .CLZ => writes a ((countLeadingZeros 3 (lo32 a.srcA)).setWidth 64)
  | .MOVN => writes a (if a.srcA ≠ 0 then a.srcB else a.srcC)
  | .MOVZ => writes a (if a.srcA = 0 then a.srcB else a.srcC)
  | .MUL | .MADD | .MSUB | .MULT | .MULTU => multiply a
  | .DIV | .DIVU => divide a
  | .EXT =>
    writes a ((extMask (shiftRight false (lo32 a.srcA) (a.uop.imm.extractLsb' 6 5))
      (a.uop.imm.extractLsb' 11 5)).signExtend 64)
  | .SEB => writes a ((a.srcA.extractLsb' 0 8).signExtend 64)
  | .SEH => writes a ((a.srcA.extractLsb' 0 16).signExtend 64)
  | .SUBU => writes a (a.srcA - a.srcB)
  | .DSUBU => doubleword a (a.srcA + a.srcB) -- the source adds here
  | .AND => writes a (a.srcA &&& a.srcB)
  | .MOV => writes a a.srcA
  | .OR => writes a (a.srcA ||| a.srcB)
  | .XOR => writes a (a.srcA ^^^ a.srcB)
  | .NOR => writes a (~~~(a.srcA ||| a.srcB))
  | .SLT => writes a (flag (slt a a.srcB a.srcA))
  | .SLTU => writes a (flag (a.srcB.ult a.srcA))
  | .BEQ => branch a (a.srcA == a.srcB)
  | .BEQL => branchLikely a (a.srcA == a.srcB)
  | .BNE => branch a (a.srcA != a.srcB)
  | .BGEZ => branch a (signClear a)
  | .BGEZAL =>
    { branch a (signClear a) with
      result := if signClear a then pc8 a else a.srcB, wrIntPrf := true }
  | .BAL => { branch a true with result := pc8 a, wrIntPrf := true }
  | .BLTZ => branch a (ltZero a)
  | .BLEZ => branch a (leZero a)
  | .BLEZL => branchLikely a (leZero a)
  | .BGTZ => branch a (!leZero a)
  | .BNEL => branch a (a.srcA != a.srcB) -- the one likely branch without the extra restart
  | .BLTZL => branchLikely a (ltZero a)
  | .BGTZL => branchLikely a (!leZero a)
  | .BGEZL => branchLikely a (!ltZero a)
  | .JAL =>
    { branch a true with
      pc := (pc4 a).extractLsb' 28 36 ++ a.uop.jmpImm.extractLsb' 0 10 ++ a.uop.imm ++ 0#2
      result := pc8 a, wrIntPrf := true }
  | .JR => jumpReg a
  | .JALR => { jumpReg a with result := pc8 a, wrIntPrf := true }
  | .MONITOR =>
    { writes a a.monitorRspData with takeBr := true, mispredBr := true, pc := a.srcA }
  | .ANDI => writes a (a.srcA &&& zimm a)
  | .ORI => writes a (a.srcA ||| zimm a)
  | .XORI => writes a (a.srcA ^^^ zimm a)
  | .LUI => writes a ((a.uop.imm ++ 0#16 : BitVec 32).signExtend 64)
  | .ADDIU => writes a ((lo32 a.srcA + lo32 (simm a)).signExtend 64)
  | .MOVI => writes a ((lo32 (simm a)).signExtend 64)
  | .DADDIU => doubleword a (a.srcA + simm a)
  | .SLTI => writes a (flag (slt a a.srcA (simm a)))
  | .SLTIU => writes a (flag (ult a a.srcA (simm a)))
  | .MFC0 => { writes a a.cpr0SrcA with pc := pc4 a }
  | .DI => setInterrupts a false
  | .EI => setInterrupts a true
  | .WAIT => { done a with unimpOp := true, fault := true, pc := pc4 a }
  | .RDHWR => writes a a.cpr0SrcA
  | .MTC0 => moveToCpr0 a
  | .BC1TL | .BC1T => branch a (fcrBit a)
  | .BC1FL | .BC1F => branch a (!fcrBit a)
  | _ => { done a with unimpOp := true }

end Alu
end MipsCore
