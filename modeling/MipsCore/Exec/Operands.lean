import MipsCore.Core.Step
import MipsCore.Exec.Step

/-! # Operands of an executed uop

What renaming hands to the integer unit: the uop keeps the fields that decode set,
and the operands it reads are those of its architectural registers.
-/
namespace MipsCore

/-- The registers that an instruction sees: raw contents of the physical registers that hold them. -/
structure RegView where
  gpr : ArchReg → Word
  hilo : Word
  fcr : BitVec 8

/-- The integer unit executes the decoded uop `u` on the registers `v`. -/
structure Executes (v : RegView) (u : Uop) (a : AluIn) : Prop where
  op : a.uop.op = u.op
  imm : a.uop.imm = u.imm
  jmpImm : a.uop.jmpImm = u.jmpImm
  pc : a.uop.pc = u.pc
  brPred : a.uop.brPred = u.brPred
  srcA : u.srcAValid = true → u.fpSrcAValid = false →
    a.srcA = narrow a.in32bMode (v.gpr (u.srcA.setWidth 5))
  srcB : u.srcBValid = true → u.fpSrcBValid = false →
    a.srcB = narrow a.in32bMode (v.gpr (u.srcB.setWidth 5))
  srcC : u.srcCValid = true → u.fpSrcCValid = false →
    a.srcC = narrow a.in32bMode (v.gpr (u.srcC.setWidth 5))
  rawB : u.srcBValid = false → u.fpSrcBValid = false → a.uop.srcB = u.srcB
  rawC : u.srcCValid = false → u.fpSrcCValid = false → a.uop.srcC = u.srcC
  hilo : u.hiloSrcValid = true → a.hilo = v.hilo
  fcr : u.hiloSrcValid = false → u.fcrSrcValid = true → a.fcr = v.fcr

namespace Core
variable (s : Core) (c : Comb) (e : Exec) (i : ExecIn)

/-- The registers that the first uop of an allocation sees. -/
def view : RegView where
  gpr r := e.intPrf (s.allocRat r)
  hilo := e.hiloPrf s.hiloAllocRat
  fcr := e.fcrPrf s.fcrAllocRat

/-- The registers that the second uop sees, after the first one's destination. -/
def view2 : RegView where
  gpr r := e.intPrf <|
    if s.tUop.dstValid && r == s.tUop.dst.setWidth 5 then s.nPrfEntry else s.allocRat r
  hilo := e.hiloPrf (if s.tUop.hiloDstValid then s.nHiloPrfEntry else s.hiloAllocRat)
  fcr := e.fcrPrf (if s.tUop.fcrDstValid then s.nFcrPrfEntry else s.fcrAllocRat)

theorem renameSrc_gpr (r : PrfPtr) : s.renameSrc true false r = s.allocRat (r.setWidth 5) := rfl
theorem renameSrc_raw (r : PrfPtr) : s.renameSrc false false r = r := rfl
theorem renameSrc2_gpr (r : PrfPtr) :
    s.renameSrc2 true false r =
      if s.tUop.dstValid && r.setWidth 5 == s.tUop.dst.setWidth 5 then s.nPrfEntry
      else s.allocRat (r.setWidth 5) := rfl
theorem renameSrc2_raw (r : PrfPtr) : s.renameSrc2 false false r = r := rfl

/-- The source of an operand in the HI/LO or condition-code file. -/
def hiloSrcOf (u : Uop) (hilo fcr : HiloPtr) : HiloPtr :=
  if u.hiloSrcValid then hilo else if u.fcrSrcValid then fcr else u.hiloSrc

/-- Allocation changes only the registers of a uop. -/
theorem tAllocUop_eq : ∃ p h d, s.tAllocUop c = { s.tUop with
    srcA := s.renameSrc s.tUop.srcAValid s.tUop.fpSrcAValid s.tUop.srcA
    srcB := s.renameSrc s.tUop.srcBValid s.tUop.fpSrcBValid s.tUop.srcB
    srcC := s.renameSrc s.tUop.srcCValid s.tUop.fpSrcCValid s.tUop.srcC
    hiloSrc := hiloSrcOf s.tUop s.hiloAllocRat s.fcrAllocRat
    robPtr := p, hiloDst := h, dst := d } := by
  unfold tAllocUop hiloSrcOf
  dsimp only
  cases c.tAlloc with
  | false => exact ⟨_, _, _, rfl⟩
  | true =>
    cases s.tUop.dstValid <;> cases s.tUop.hiloDstValid <;> cases s.tUop.fcrDstValid <;>
      cases s.tUop.fpDstValid <;> exact ⟨_, _, _, rfl⟩

theorem tAllocUop2_eq : ∃ p h d, s.tAllocUop2 c = { s.tUop2 with
    srcA := s.renameSrc2 s.tUop2.srcAValid s.tUop2.fpSrcAValid s.tUop2.srcA
    srcB := s.renameSrc2 s.tUop2.srcBValid s.tUop2.fpSrcBValid s.tUop2.srcB
    srcC := s.renameSrc2 s.tUop2.srcCValid s.tUop2.fpSrcCValid s.tUop2.srcC
    hiloSrc := hiloSrcOf s.tUop2 (if s.tUop.hiloDstValid then s.nHiloPrfEntry else s.hiloAllocRat)
      (if s.tUop.fcrDstValid then s.nFcrPrfEntry else s.fcrAllocRat)
    robPtr := p, hiloDst := h, dst := d } := by
  unfold tAllocUop2 hiloSrcOf
  dsimp only
  cases c.tAllocTwo with
  | false => exact ⟨_, _, _, rfl⟩
  | true =>
    cases s.tUop2.dstValid <;> cases s.tUop2.hiloDstValid <;> cases s.tUop2.fcrDstValid <;>
      cases s.tUop2.fpDstValid <;> exact ⟨_, _, _, rfl⟩

/-- The unit executes the first uop of an allocation on the registers it was renamed to. -/
theorem executes_tAllocUop (hu : e.intUop = s.tAllocUop c) :
    Executes (s.view e) s.tUop (e.aluIn i) := by
  obtain ⟨p, h, d, heq⟩ := tAllocUop_eq s c
  replace heq := hu.trans heq
  constructor <;> simp only [Exec.aluIn, Exec.tSrc, heq, view, hiloSrcOf]
  case srcA => intro h1 h2; rw [h1, h2, renameSrc_gpr]
  case srcB => intro h1 h2; rw [h1, h2, renameSrc_gpr]
  case srcC => intro h1 h2; rw [h1, h2, renameSrc_gpr]
  case rawB => intro h1 h2; rw [h1, h2, renameSrc_raw]
  case rawC => intro h1 h2; rw [h1, h2, renameSrc_raw]
  case hilo => intro h; rw [if_pos h]
  case fcr => intro h1 h2; rw [h1, if_neg Bool.false_ne_true, if_pos h2]

/-- The unit executes the second uop of an allocation on the registers after the first one. -/
theorem executes_tAllocUop2 (hu : e.intUop = s.tAllocUop2 c) :
    Executes (s.view2 e) s.tUop2 (e.aluIn i) := by
  obtain ⟨p, h, d, heq⟩ := tAllocUop2_eq s c
  replace heq := hu.trans heq
  constructor <;> simp only [Exec.aluIn, Exec.tSrc, heq, view2, hiloSrcOf]
  case srcA => intro h1 h2; rw [h1, h2, renameSrc2_gpr]
  case srcB => intro h1 h2; rw [h1, h2, renameSrc2_gpr]
  case srcC => intro h1 h2; rw [h1, h2, renameSrc2_gpr]
  case rawB => intro h1 h2; rw [h1, h2, renameSrc2_raw]
  case rawC => intro h1 h2; rw [h1, h2, renameSrc2_raw]
  case hilo => intro h; rw [if_pos h]
  case fcr => intro h1 h2; rw [h1, if_neg Bool.false_ne_true, if_pos h2]

end Core
end MipsCore
