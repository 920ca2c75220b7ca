import MipsCore.Machine
import Mathlib.Logic.Function.Basic

/-! # Reference interpreter

The registers of `state_t` and the instructions of `interpret.cc` that neither
transfer control nor touch memory: one function for each of the interpreter's own
tables.  `none` stands for an instruction that ends the program, or that is not of
this kind.
-/
namespace MipsCore

structure Iss where
  pc : BitVec 32
  gpr : ArchReg → BitVec 32
  lo : BitVec 32
  hi : BitVec 32
  cpr0 : ArchReg → BitVec 32
  /-- `fcr1[CP1_CR25]`, the condition codes -/
  fcr25 : BitVec 32

namespace Iss
section Fields
variable (inst : BitVec 32)

def opcode : BitVec 6 := inst.extractLsb' 26 6
def funct : BitVec 6 := inst.extractLsb' 0 6
def rs : ArchReg := inst.extractLsb' 21 5
def rt : ArchReg := inst.extractLsb' 16 5
def rd : ArchReg := inst.extractLsb' 11 5
def sa : BitVec 5 := inst.extractLsb' 6 5
def uimm32 : BitVec 32 := (inst.extractLsb' 0 16).setWidth 32
def simm32 : BitVec 32 := (inst.extractLsb' 0 16).signExtend 32

end Fields

/-- A C++ condition as an integer. -/
def ofBool (b : Bool) : BitVec 32 := if b then 1 else 0
/-- The value `(1 << size) - 1` of a 32-bit shift. -/
def lowMask (size : BitVec 32) : BitVec 32 := 1#32 <<< size.toNat - 1

variable (s : Iss) (inst : BitVec 32)

def set (r : ArchReg) (v : BitVec 32) : Iss := { s with gpr := Function.update s.gpr r v }
def next : Iss := { s with pc := s.pc + 4 }
/-- A register write followed by the next instruction. -/
def write (r : ArchReg) (v : BitVec 32) : Option Iss := some (s.set r v).next
/-- Both halves of a 64-bit result. -/
def setHilo (y : Word) : Iss := { s with lo := y.extractLsb' 0 32, hi := y.extractLsb' 32 32 }

def getConditionCode (cc : BitVec 3) : BitVec 32 :=
  ((s.fcr25 &&& 1#32 <<< cc.toNat) >>> cc.toNat) &&& 1

/-- `_movci` -/
def movci : Option Iss :=
  let cc := s.getConditionCode (inst.extractLsb' 18 3)
  s.write (rd inst) <|
    if inst.getLsbD 16 then if cc ≠ 0 then s.gpr (rs inst) else s.gpr (rd inst)
    else if cc ≠ 0 then s.gpr (rd inst) else s.gpr (rs inst)

/-! ## Products and the accumulator -/

/-- The signed product of two registers. -/
def product : Word := (s.gpr (rs inst)).signExtend 64 * (s.gpr (rt inst)).signExtend 64
def unsignedProduct : Word := (s.gpr (rs inst)).setWidth 64 * (s.gpr (rt inst)).setWidth 64
/-- `acc`: the low half is sign-extended before it is merged. -/
def acc : Word := s.hi.signExtend 64 <<< 32 ||| s.lo.signExtend 64

/-! ## Instruction tables -/

/-- The arms of major opcode 0. -/
def rtype : Option Iss :=
  match (funct inst).toNat with
  | 0x00 => s.write (rd inst) (s.gpr (rt inst) <<< (sa inst).toNat)
  | 0x01 => s.movci inst
  | 0x02 => s.write (rd inst) (s.gpr (rt inst) >>> (sa inst).toNat)
  | 0x03 => s.write (rd inst) ((s.gpr (rt inst)).sshiftRight (sa inst).toNat)
  | 0x04 => s.write (rd inst) (s.gpr (rt inst) <<< (s.gpr (rs inst) &&& 0x1f).toNat)
  | 0x06 => s.write (rd inst) (s.gpr (rt inst) >>> (s.gpr (rs inst) &&& 0x1f).toNat)
  | 0x07 => s.write (rd inst) ((s.gpr (rt inst)).sshiftRight (s.gpr (rs inst) &&& 0x1f).toNat)
  | 0x0a => s.write (rd inst) (if s.gpr (rt inst) = 0 then s.gpr (rs inst) else s.gpr (rd inst))
  | 0x0b => s.write (rd inst) (if s.gpr (rt inst) ≠ 0 then s.gpr (rs inst) else s.gpr (rd inst))
  | 0x0f => some s.next
  | 0x10 => s.write (rd inst) s.hi
  | 0x11 => some { s with hi := s.gpr (rs inst) }.next
  | 0x12 => s.write (rd inst) s.lo
  | 0x13 => some { s with lo := s.gpr (rs inst) }.next
  | 0x18 => some (s.setHilo (s.product inst)).next
  | 0x19 => some (s.setHilo (s.unsignedProduct inst)).next
  | 0x1a =>
    if s.gpr (rt inst) ≠ 0 then
      some { s with
        lo := (s.gpr (rs inst)).sdiv (s.gpr (rt inst))
        hi := (s.gpr (rs inst)).srem (s.gpr (rt inst)) }.next
    else some s.next
  | 0x1b =>
    if s.gpr (rt inst) ≠ 0 then
      some { s with
        lo := s.gpr (rs inst) / s.gpr (rt inst), hi := s.gpr (rs inst) % s.gpr (rt inst) }.next
    else some s.next
  | 0x20 => s.write (rd inst) (s.gpr (rs inst) + s.gpr (rt inst))
  | 0x21 => s.write (rd inst) (s.gpr (rs inst) + s.gpr (rt inst))
  | 0x22 => none
  | 0x23 => s.write (rd inst) (s.gpr (rs inst) - s.gpr (rt inst))
  | 0x24 => s.write (rd inst) (s.gpr (rs inst) &&& s.gpr (rt inst))
  | 0x25 =>
    if rd inst ≠ 0 then s.write (rd inst) (s.gpr (rs inst) ||| s.gpr (rt inst)) else some s.next
  | 0x26 => s.write (rd inst) (s.gpr (rs inst) ^^^ s.gpr (rt inst))
  | 0x27 => s.write (rd inst) (~~~(s.gpr (rs inst) ||| s.gpr (rt inst)))
  | 0x2a => s.write (rd inst) (ofBool ((s.gpr (rs inst)).slt (s.gpr (rt inst))))
  | 0x2b => s.write (rd inst) (ofBool ((s.gpr (rs inst)).ult (s.gpr (rt inst))))
  | 0x34 => if s.gpr (rs inst) = s.gpr (rt inst) then none else some s.next
  | _ => none

/-- `execSpecial2` -/
def execSpecial2 : Option Iss :=
  match (funct inst).toNat with
  | 0x0 => some (s.setHilo (s.product inst + s.acc)).next
  | 0x1 => some (s.setHilo (s.unsignedProduct inst + s.acc)).next
  | 0x2 => s.write (rd inst) ((s.product inst).setWidth 32)
  | 0x4 => some (s.setHilo (s.acc - s.product inst)).next
  | 0x20 => s.write (rd inst) (s.gpr (rs inst)).clz
  | _ => none

/-- `execSpecial3` -/
def execSpecial3 : Option Iss :=
  match (funct inst).toNat with
  | 32 =>
    match (sa inst).toNat with
    | 0x10 => s.write (rd inst) (((s.gpr (rt inst)).setWidth 8).signExtend 32)
    | 0x18 => s.write (rd inst) (((s.gpr (rt inst)).setWidth 16).signExtend 32)
    | _ => none
  | 0 =>
    s.write (rt inst)
      ((s.gpr (rs inst)).sshiftRight (sa inst).toNat &&& lowMask ((rd inst).setWidth 32 + 1))
  | 4 =>
    let mask := lowMask ((rd inst).setWidth 32 - (sa inst).setWidth 32 + 1)
    s.write (rt inst) (s.gpr (rt inst) &&& ~~~(mask <<< (sa inst).toNat) |||
      (s.gpr (rs inst) &&& mask) <<< (sa inst).toNat)
  | 0x3b => if rd inst = 29 then s.write (rt inst) (s.cpr0 29) else none
  | _ => none

/-- The immediate arms. -/
def itype : Option Iss :=
  match (opcode inst).toNat with
  | 0x08 => s.write (rt inst) (s.gpr (rs inst) + simm32 inst)
  | 0x09 => s.write (rt inst) (s.gpr (rs inst) + simm32 inst)
  | 0x0a => s.write (rt inst) (ofBool ((s.gpr (rs inst)).slt (simm32 inst)))
  | 0x0b => s.write (rt inst) (ofBool ((s.gpr (rs inst)).ult (simm32 inst)))
  | 0x0c => s.write (rt inst) (s.gpr (rs inst) &&& uimm32 inst)
  | 0x0d => s.write (rt inst) (s.gpr (rs inst) ||| uimm32 inst)
  | 0x0e => s.write (rt inst) (s.gpr (rs inst) ^^^ uimm32 inst)
  | 0x0f => s.write (rt inst) (uimm32 inst <<< 16)
  | _ => none

/-- `execMips` on an instruction that neither transfers control nor touches memory. -/
def execMips : Option Iss :=
  match (opcode inst).toNat with
  | 0 => s.rtype inst
  | 0x1c => s.execSpecial2 inst
  | 0x1f => s.execSpecial3 inst
  | _ => s.itype inst

end Iss
end MipsCore
