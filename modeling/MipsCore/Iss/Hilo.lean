import MipsCore.Iss.Integer
import MipsCore.Lib.Clocked
import Mathlib.Data.List.Infix

/-! # HI/LO arithmetic

The accumulator instructions on three machines: what they are for (one 64-bit
accumulator), the multiplier and integer unit on renamed registers, and the
interpreter with its two signed halves.
-/
namespace MipsCore

/-! ## The accumulator machine -/

/-- The general registers and the accumulator. -/
structure Hilo where
  gpr : ArchReg → BitVec 32
  acc : Word

/-- The instruction words of the group. -/
def Iss.HiloWord (w : BitVec 32) : Prop :=
  (opcode w).toNat = 0 ∧ (funct w).toNat ∈ [0x10, 0x11, 0x12, 0x13, 0x18, 0x19] ∨
    (opcode w).toNat = 0x1c ∧ (funct w).toNat ∈ [0x0, 0x4]

namespace Hilo
variable (s : Hilo) (w : BitVec 32)

def hi : BitVec 32 := s.acc.extractLsb' 32 32
def lo : BitVec 32 := lo32 s.acc
/-- Register 0 is not written. -/
def write (r : ArchReg) (x : BitVec 32) : Hilo :=
  if r = 0 then s else { s with gpr := Function.update s.gpr r x }
def product : Word := (s.gpr (Iss.rs w)).signExtend 64 * (s.gpr (Iss.rt w)).signExtend 64
def unsignedProduct : Word := (s.gpr (Iss.rs w)).setWidth 64 * (s.gpr (Iss.rt w)).setWidth 64

/-- What the instructions of the group are for. -/
def step : Hilo :=
  match (Iss.opcode w).toNat, (Iss.funct w).toNat with
  | 0, 0x10 => s.write (Iss.rd w) s.hi
  | 0, 0x11 => { s with acc := s.gpr (Iss.rs w) ++ s.lo }
  | 0, 0x12 => s.write (Iss.rd w) s.lo
  | 0, 0x13 => { s with acc := s.hi ++ s.gpr (Iss.rs w) }
  | 0, 0x18 => { s with acc := s.product w }
  | 0, 0x19 => { s with acc := s.unsignedProduct w }
  | 0x1c, 0x0 => { s with acc := s.acc + s.product w }
  | 0x1c, 0x4 => { s with acc := s.acc - s.product w }
  | _, _ => s

end Hilo

/-! ## The multiplier -/

namespace AluIn
variable (a : AluIn)

/-- The product that enters the multiplier's pipeline. -/
def product : Word :=
  if a.uop.op = .MULTU then (lo32 a.srcA).setWidth 64 * (lo32 a.srcB).setWidth 64
  else (lo32 a.srcA).signExtend 64 * (lo32 a.srcB).signExtend 64

/-- The product with the accumulator, as the end of the pipeline combines them. -/
def mulResult : Word :=
  if a.uop.op = .MADD then a.product + a.hilo
  else if a.uop.op = .MSUB then a.product - a.hilo
  else a.product

end AluIn

/-- Three edges after it starts, a product leaves the multiplier for its own register. -/
theorem Exec.mul_pipeline (e : Exec) (i₀ i₁ i₂ : ExecIn) (hgo : e.mulGo i₀ = true)
    (hop : e.intUop.op ≠ .MUL) :
    (((e.step i₀).step i₁).step i₂).mul2.hiloVal = true ∧
      (((e.step i₀).step i₁).step i₂).mul2.hiloPtr = e.intUop.hiloDst ∧
      (((e.step i₀).step i₁).step i₂).tMulResult = (e.aluIn i₀).mulResult := by
  have hmul : (((e.step i₀).step i₁).step i₂).mul2 = e.nMul0 i₀ := rfl
  refine ⟨?_, ?_, ?_⟩
  · simp [hmul, nMul0, hgo, hop]
  · rw [hmul]
    rfl
  · simp only [tMulResult, hmul, nMul0, hgo, Bool.true_and, beq_iff_eq]
    rfl

/-- The accumulator value of a uop with a HI/LO destination: a move's, or a product's. -/
def hiloValue (a : AluIn) : Word :=
  if (Alu.run a).wrHilo then (Alu.run a).hiloResult else a.mulResult

namespace RegView

/-- The registers after a uop, in program order. -/
def retire (v : RegView) (u : Uop) (a : AluIn) : RegView where
  gpr := match aluWrite u a with
    | some (r, x) => Function.update v.gpr r x
    | none => v.gpr
  hilo := if u.hiloDstValid then hiloValue a else v.hilo
  fcr := v.fcr

/-- The physical registers hold the values of the accumulator machine. -/
structure Holds (v : RegView) (s : Hilo) : Prop where
  gpr : ∀ r, lo32 (v.gpr r) = s.gpr r
  acc : v.hilo = s.acc

end RegView

/-- The integer unit executes a sequence of instructions in program order. -/
inductive RtlRun (m : Bool) : RegView → List InsnFetch → RegView → Prop
  | nil (v : RegView) : RtlRun m v [] v
  | cons {v v' : RegView} {f : InsnFetch} {fs : List InsnFetch} (a : AluIn)
      (hx : Executes v (decodeMips32 m f) a)
      (hrun : RtlRun m (v.retire (decodeMips32 m f) a) fs v') : RtlRun m v (f :: fs) v'

namespace Iss

/-- The interpreter executes a sequence of instructions. -/
def execAll : Iss → List InsnFetch → Option Iss
  | s, [] => some s
  | s, f :: fs => (s.execMips f.data).bind fun s' => s'.execAll fs

/-- The interpreter's registers hold the values of the accumulator machine. -/
structure Holds (i : Iss) (s : Hilo) : Prop where
  gpr : i.gpr = s.gpr
  acc : i.hi ++ i.lo = s.acc

end Iss

/-! ## One instruction in the integer unit -/

/-- The multiplier subtracts the accumulator from the product, so MSUB needs a difference that is
its own negative. -/
def Hilo.RtlExact (s : Hilo) (w : BitVec 32) : Prop :=
  (Iss.opcode w).toNat = 0x1c ∧ (Iss.funct w).toNat = 0x4 →
    s.acc - s.product w = 0 ∨ s.acc - s.product w = BitVec.intMin 64

theorem neg_eq_self_iff {x : Word} : -x = x ↔ x = 0 ∨ x = BitVec.intMin 64 := by
  have hx := x.isLt
  have hzero : (0 : Word).toNat = 0 := rfl
  rw [← BitVec.toNat_inj, ← BitVec.toNat_inj, ← BitVec.toNat_inj, BitVec.toNat_neg, hzero,
    BitVec.toNat_intMin]
  omega

section Rtl
variable {m : Bool} {f : InsnFetch} {v : RegView} {a : AluIn} {s : Hilo} {u : Uop}
  (hx : Executes v (decodeMips32 m f) a) (hv : v.Holds s) (hdec : decodeMips32 m f = u)
include hx hv hdec

theorem lo32_srcA {r : ArchReg} (h : u.srcA = r.setWidth 6) (hval : u.srcAValid = true)
    (hf : u.fpSrcAValid = false) : lo32 a.srcA = s.gpr r := by
  rw [hdec] at hx
  rw [hx.srcA hval hf, h, lo32_narrow, setWidth_setWidth_archReg, hv.gpr]

theorem lo32_srcB {r : ArchReg} (h : u.srcB = r.setWidth 6) (hval : u.srcBValid = true)
    (hf : u.fpSrcBValid = false) : lo32 a.srcB = s.gpr r := by
  rw [hdec] at hx
  rw [hx.srcB hval hf, h, lo32_narrow, setWidth_setWidth_archReg, hv.gpr]

omit hx in
/-- A uop with only a HI/LO destination. -/
theorem holds_acc_iff {x : Word} (hd : u.dstValid = false) (hh : u.hiloDstValid = true) :
    (v.retire (decodeMips32 m f) a).Holds { s with acc := x } ↔ hiloValue a = x := by
  have hnone : aluWrite u a = none := by simp [aluWrite, hd]
  simp only [hdec, RegView.retire, hnone, hh, if_true]
  exact ⟨fun h => h.acc, fun h => ⟨hv.gpr, h⟩⟩

/-- A uop that moves `x` out of the accumulator. -/
theorem holds_move {op : Opcode} {x : Word}
    (hu : u = Decode.rdOp f.data op { startUop f with hiloSrcValid := true })
    (hop : Core.folds { op := op } = false)
    (hrun : a.uop.op = op → Alu.run a = Alu.writes a x) :
    (v.retire (decodeMips32 m f) a).Holds (s.write (Iss.rd f.data) (lo32 x)) := by
  have hh : u.hiloDstValid = false := by rw [hu]; rfl
  by_cases hrd : Decode.rd f.data = 0
  · have hnone : aluWrite u a = none := by
      simp [aluWrite, hu, Decode.rdOp, hrd, Core.folds]
    have hzero : Iss.rd f.data = 0 := setWidth_eq_zero.mp hrd
    simp only [hdec, RegView.retire, hnone, hh, Bool.false_eq_true, if_false, Hilo.write, if_pos hzero]
    exact hv
  · have hzero : Iss.rd f.data ≠ 0 := fun h => hrd (setWidth_eq_zero.mpr h)
    have hsome : u.op = op := by
      rw [hu]
      simp only [Decode.rdOp, if_neg hrd]
    have ha : a.uop.op = op := by
      rw [hdec] at hx
      exact hx.op.trans hsome
    have hfold : Core.folds u = false := by
      rw [Core.folds, hsome]
      exact hop
    have hwr : aluWrite u a = some (Iss.rd f.data, narrow a.in32bMode x) := by
      have hval : u.dstValid = true := by simpa [hu, Decode.rdOp] using hrd
      have hdst : u.dst = (Iss.rd f.data).setWidth 6 := by rw [hu]; rfl
      simp [aluWrite, hfold, hval, hdst, hrun ha, Alu.writes, Alu.done]
    simp only [hdec, RegView.retire, hwr, hh, Bool.false_eq_true, if_false, Hilo.write, if_neg hzero]
    refine ⟨fun r => ?_, hv.acc⟩
    dsimp only
    by_cases hr : r = Iss.rd f.data
    · rw [hr, Function.update_self, Function.update_self, lo32_narrow]
    · rw [Function.update_of_ne hr, Function.update_of_ne hr, hv.gpr]

end Rtl

/-- One instruction of the group in the integer unit. -/
theorem holds_retire_iff {m : Bool} {f : InsnFetch} {v : RegView} {a : AluIn} {s : Hilo}
    (hx : Executes v (decodeMips32 m f) a) (hv : v.Holds s) (hw : Iss.HiloWord f.data) :
    (v.retire (decodeMips32 m f) a).Holds (s.step f.data) ↔ s.RtlExact f.data := by
  have hdec := decode_start m f
  simp only [Iss.HiloWord, List.mem_cons, List.not_mem_nil, or_false] at hw
  rcases hw with ⟨hop, hfn | hfn | hfn | hfn | hfn | hfn⟩ | ⟨hop, hfn | hfn⟩ <;>
    have hop' : (Decode.opcode f.data).toNat = _ := hop <;>
    have hfn' : (Decode.funct f.data).toNat = _ := hfn <;>
    simp only [Decode.majorOp, hop', Decode.rtype, Decode.special2, hfn'] at hdec <;>
    simp only [Hilo.step, hop, hfn]
  case inl.inl =>
    have hacc : a.hilo = s.acc := ((hdec ▸ hx).hilo rfl).trans hv.acc
    have hrun : a.uop.op = .MFHI →
        Alu.run a = Alu.writes a ((a.hilo.extractLsb' 32 32).setWidth 64) := by
      intro hsome
      simp only [Alu.run, hsome]
    have h := holds_move hx hv hdec rfl rfl hrun
    rw [hacc, lo32_setWidth] at h
    exact iff_of_true h fun h => by omega
  case inl.inr.inr.inl =>
    have hacc : a.hilo = s.acc := ((hdec ▸ hx).hilo rfl).trans hv.acc
    have hrun : a.uop.op = .MFLO → Alu.run a = Alu.writes a ((lo32 a.hilo).setWidth 64) := by
      intro hsome
      simp only [Alu.run, hsome]
    have h := holds_move hx hv hdec rfl rfl hrun
    rw [hacc, lo32_setWidth] at h
    exact iff_of_true h fun h => by omega
  case inl.inr.inl =>
    have hacc : a.hilo = s.acc := ((hdec ▸ hx).hilo rfl).trans hv.acc
    have hA := lo32_srcA hx hv hdec (r := Iss.rs f.data) rfl rfl rfl
    have hsome : a.uop.op = .MTHI := (hdec ▸ hx).op
    refine iff_of_true ((holds_acc_iff hv hdec rfl rfl).mpr ?_) fun h => by omega
    simp only [hiloValue, Alu.run, hsome, Alu.writesHilo, if_true, hA, hacc, Hilo.lo]
  case inl.inr.inr.inr.inl =>
    have hacc : a.hilo = s.acc := ((hdec ▸ hx).hilo rfl).trans hv.acc
    have hA := lo32_srcA hx hv hdec (r := Iss.rs f.data) rfl rfl rfl
    have hsome : a.uop.op = .MTLO := (hdec ▸ hx).op
    refine iff_of_true ((holds_acc_iff hv hdec rfl rfl).mpr ?_) fun h => by omega
    simp only [hiloValue, Alu.run, hsome, Alu.writesHilo, if_true, hA, hacc, Hilo.hi]
  case inl.inr.inr.inr.inr.inl =>
    have hA := lo32_srcA hx hv hdec (r := Iss.rs f.data) rfl rfl rfl
    have hB := lo32_srcB hx hv hdec (r := Iss.rt f.data) rfl rfl rfl
    have hsome : a.uop.op = .MULT := (hdec ▸ hx).op
    refine iff_of_true ((holds_acc_iff hv hdec rfl rfl).mpr ?_) fun h => by omega
    simp [hiloValue, Alu.run, hsome, Alu.multiply, Alu.default, AluIn.mulResult, AluIn.product,
      Hilo.product, hA, hB]
  case inl.inr.inr.inr.inr.inr =>
    have hA := lo32_srcA hx hv hdec (r := Iss.rs f.data) rfl rfl rfl
    have hB := lo32_srcB hx hv hdec (r := Iss.rt f.data) rfl rfl rfl
    have hsome : a.uop.op = .MULTU := (hdec ▸ hx).op
    refine iff_of_true ((holds_acc_iff hv hdec rfl rfl).mpr ?_) fun h => by omega
    simp [hiloValue, Alu.run, hsome, Alu.multiply, Alu.default, AluIn.mulResult, AluIn.product,
      Hilo.unsignedProduct, hA, hB]
  case inr.inl =>
    have hacc : a.hilo = s.acc := ((hdec ▸ hx).hilo rfl).trans hv.acc
    have hA := lo32_srcA hx hv hdec (r := Iss.rt f.data) rfl rfl rfl
    have hB := lo32_srcB hx hv hdec (r := Iss.rs f.data) rfl rfl rfl
    have hsome : a.uop.op = .MADD := (hdec ▸ hx).op
    refine iff_of_true ((holds_acc_iff hv hdec rfl rfl).mpr ?_) fun h => by omega
    simp [hiloValue, Alu.run, hsome, Alu.multiply, Alu.default, AluIn.mulResult, AluIn.product,
      Hilo.product, hA, hB, hacc, BitVec.add_comm, BitVec.mul_comm]
  case inr.inr =>
    have hacc : a.hilo = s.acc := ((hdec ▸ hx).hilo rfl).trans hv.acc
    have hA := lo32_srcA hx hv hdec (r := Iss.rt f.data) rfl rfl rfl
    have hB := lo32_srcB hx hv hdec (r := Iss.rs f.data) rfl rfl rfl
    have hsome : a.uop.op = .MSUB := (hdec ▸ hx).op
    have hval : hiloValue a = -(s.acc - s.product f.data) := by
      simp [hiloValue, Alu.run, hsome, Alu.multiply, Alu.default, AluIn.mulResult, AluIn.product,
        Hilo.product, hA, hB, hacc, BitVec.mul_comm]
    rw [holds_acc_iff hv hdec rfl rfl, hval, neg_eq_self_iff]
    exact ⟨fun h _ => h, fun h => h ⟨hop, hfn⟩⟩

/-! ## One instruction in the interpreter -/

/-- The interpreter builds its accumulator from a sign-extended low half, and writes register 0. -/
def Hilo.IssExact (s : Hilo) (w : BitVec 32) : Prop :=
  ((Iss.opcode w).toNat = 0x1c → s.lo.msb = false ∨ s.hi = BitVec.allOnes 32) ∧
    ((Iss.opcode w).toNat = 0 ∧ (Iss.funct w).toNat = 0x10 ∧ Iss.rd w = 0 → s.hi = s.gpr 0) ∧
    ((Iss.opcode w).toNat = 0 ∧ (Iss.funct w).toNat = 0x12 ∧ Iss.rd w = 0 → s.lo = s.gpr 0)

theorem append_halves (x : Word) : x.extractLsb' 32 32 ++ x.extractLsb' 0 32 = x := by
  ext k hk
  simp only [BitVec.getElem_append, BitVec.getElem_extractLsb']
  grind

theorem getLsbD_halves (x y : BitVec 32) (k : ℕ) :
    (x ++ y : Word).getLsbD k = if k < 32 then y.getLsbD k else x.getLsbD (k - 32) := by
  have h := BitVec.getLsbD_append (x := x) (y := y) (i := k)
  exact h.trans (by grind)

@[simp] theorem hi_append (x y : BitVec 32) : (x ++ y : Word).extractLsb' 32 32 = x := by
  refine BitVec.eq_of_getLsbD_eq fun k hk => ?_
  simp [getLsbD_halves, hk]

@[simp] theorem lo32_append (x y : BitVec 32) : lo32 (x ++ y : Word) = y := by
  refine BitVec.eq_of_getLsbD_eq fun k hk => ?_
  simp [lo32_eq, getLsbD_halves, hk]

namespace Iss
variable {i : Iss} {s : Hilo} {w : BitVec 32}

theorem Holds.hi (h : i.Holds s) : i.hi = s.hi := by rw [Hilo.hi, ← h.acc, hi_append]
theorem Holds.lo (h : i.Holds s) : i.lo = s.lo := by rw [Hilo.lo, ← h.acc, lo32_append]

/-- The sign bit of the low half covers the high half. -/
theorem acc_eq (i : Iss) : i.acc = (if i.lo.msb then BitVec.allOnes 32 else i.hi) ++ i.lo := by
  refine BitVec.eq_of_getLsbD_eq fun k hk => ?_
  rw [getLsbD_halves, Iss.acc, BitVec.getLsbD_or, BitVec.getLsbD_shiftLeft,
    BitVec.getLsbD_signExtend, BitVec.getLsbD_signExtend]
  rcases Nat.lt_or_ge k 32 with hlt | hge
  · simp [hlt, hk]
  · have hk32 : k - 32 < 32 := by omega
    have hk64 : k - 32 < 64 := by omega
    cases hm : i.lo.msb with
    | false => simp [hk, hk32, hk64, Nat.not_lt.mpr hge]
    | true =>
      rw [if_neg (Nat.not_lt.mpr hge), if_pos rfl, BitVec.getLsbD_allOnes]
      simp [hk, hk32, Nat.not_lt.mpr hge]

theorem acc_eq_iff (h : i.Holds s) :
    i.acc = s.acc ↔ s.lo.msb = false ∨ s.hi = BitVec.allOnes 32 := by
  rw [acc_eq, ← h.acc, ← h.lo, ← h.hi]
  cases hm : i.lo.msb with
  | false => simp
  | true =>
    simp only [if_true, Bool.true_eq_false, false_or]
    refine ⟨fun he => ?_, fun he => by rw [he]⟩
    have hx := congrArg (fun x : Word => x.extractLsb' 32 32) he
    simpa using hx.symm

theorem holds_setHilo_iff (h : i.Holds s) {x y : Word} :
    (i.setHilo x).next.Holds { s with acc := y } ↔ x = y := by
  constructor
  · intro hh
    have hacc := hh.acc
    simpa [Iss.setHilo, Iss.next, append_halves] using hacc
  · intro hxy
    exact ⟨h.gpr, by simp [Iss.setHilo, Iss.next, append_halves, hxy]⟩

theorem holds_write_iff (h : i.Holds s) {r : ArchReg} {x : BitVec 32} :
    ((i.set r x).next).Holds (s.write r x) ↔ (r = 0 → x = s.gpr 0) := by
  by_cases hr : r = 0
  · rw [Hilo.write, if_pos hr]
    rw [← h.gpr]
    constructor
    · intro hh _
      have hg := congrFun hh.gpr r
      rw [← h.gpr, hr] at hg
      simpa [Iss.set, Iss.next] using hg
    · intro hx
      refine ⟨?_, h.acc⟩
      rw [← h.gpr, hr, hx hr]
      exact Function.update_eq_self 0 i.gpr
  · rw [Hilo.write, if_neg hr]
    refine iff_of_true ⟨?_, h.acc⟩ fun h0 => absurd h0 hr
    simp [Iss.set, Iss.next, h.gpr]

/-- One instruction of the group in the interpreter. -/
theorem holds_execMips_iff (h : i.Holds s) (hw : HiloWord w) :
    (∃ i', i.execMips w = some i' ∧ i'.Holds (s.step w)) ↔ s.IssExact w := by
  have hprod : i.product w = s.product w := by rw [product, Hilo.product, h.gpr]
  have huprod : i.unsignedProduct w = s.unsignedProduct w := by
    rw [unsignedProduct, Hilo.unsignedProduct, h.gpr]
  simp only [HiloWord, List.mem_cons, List.not_mem_nil, or_false] at hw
  rcases hw with ⟨hop, hfn | hfn | hfn | hfn | hfn | hfn⟩ | ⟨hop, hfn | hfn⟩ <;>
    simp only [execMips, hop, rtype, execSpecial2, hfn, Hilo.step, write, Option.some.injEq,
      exists_eq_left', Hilo.IssExact]
  case inl.inl =>
    rw [h.hi, holds_write_iff h]
    simp
  case inl.inr.inr.inl =>
    rw [h.lo, holds_write_iff h]
    simp
  case inl.inr.inl =>
    refine iff_of_true ⟨h.gpr, ?_⟩ (by simp)
    rw [← h.gpr, ← h.lo]
    rfl
  case inl.inr.inr.inr.inl =>
    refine iff_of_true ⟨h.gpr, ?_⟩ (by simp)
    rw [← h.gpr, ← h.hi]
    rfl
  case inl.inr.inr.inr.inr.inl =>
    exact iff_of_true ((holds_setHilo_iff h).mpr hprod) (by simp)
  case inl.inr.inr.inr.inr.inr =>
    exact iff_of_true ((holds_setHilo_iff h).mpr huprod) (by simp)
  case inr.inl =>
    rw [holds_setHilo_iff h, hprod, BitVec.add_comm, BitVec.add_left_inj, acc_eq_iff h]
    simp
  case inr.inr =>
    rw [holds_setHilo_iff h, hprod, BitVec.sub_left_inj, acc_eq_iff h]
    simp

end Iss

/-! ## Sequences -/

/-- The state before an instruction in which all three machines do the same. -/
def Hilo.Exact (s : Hilo) (f : InsnFetch) : Prop := s.RtlExact f.data ∧ s.IssExact f.data

/-- One instruction of the accumulator machine. -/
def Hilo.next (s : Hilo) (f : InsnFetch) : Hilo := s.step f.data

/-- After every prefix of the sequence the integer unit and the interpreter hold the values of the
accumulator machine. -/
def HiloAgree (m : Bool) (v : RegView) (i : Iss) (s : Hilo) (fs : List InsnFetch) : Prop :=
  ∀ pre, pre <+: fs →
    (∀ v', RtlRun m v pre v' → v'.Holds (Clocked.run Hilo.next s pre)) ∧
      ∃ i', i.execAll pre = some i' ∧ i'.Holds (Clocked.run Hilo.next s pre)

/-- Agreement over a sequence is agreement over what follows its first instruction. -/
theorem hiloAgree_cons {m : Bool} {v : RegView} {i : Iss} {s : Hilo} {f : InsnFetch}
    {fs : List InsnFetch} (hv : v.Holds s) (hi : i.Holds s) :
    HiloAgree m v i s (f :: fs) ↔
      ∃ i', i.execMips f.data = some i' ∧ ∀ a, Executes v (decodeMips32 m f) a →
        HiloAgree m (v.retire (decodeMips32 m f) a) i' (s.next f) fs := by
  constructor
  · intro h
    obtain ⟨i₁, hi₁, -⟩ := (h [f] ⟨fs, rfl⟩).2
    obtain ⟨i', hexec, -⟩ := Option.bind_eq_some_iff.mp hi₁
    refine ⟨i', hexec, fun a hx pre hpre => ?_⟩
    obtain ⟨hrtl, i₂, hi₂, hholds⟩ := h (f :: pre) (List.cons_prefix_cons.mpr ⟨rfl, hpre⟩)
    refine ⟨fun v' hrun => hrtl v' (.cons a hx hrun), i₂, ?_, hholds⟩
    rwa [Iss.execAll, hexec] at hi₂
  · rintro ⟨i', hexec, h⟩ pre hpre
    cases pre with
    | nil =>
      refine ⟨fun v' hrun => ?_, i, rfl, hi⟩
      cases hrun
      exact hv
    | cons g pre =>
      obtain ⟨rfl, htail⟩ := List.cons_prefix_cons.mp hpre
      constructor
      · intro v' hrun
        cases hrun with
        | cons a hx hrun => exact (h a hx pre htail).1 v' hrun
      · obtain ⟨i₂, hi₂, hholds⟩ := (h _ (executes_issue v _) pre htail).2
        exact ⟨i₂, by rw [Iss.execAll, hexec, Option.bind_some, hi₂], hholds⟩

/-- The three machines agree over a sequence exactly when each of its instructions starts from a
state in which they do. -/
theorem hiloAgree_iff (m : Bool) {v : RegView} {i : Iss} {s : Hilo} {fs : List InsnFetch}
    (hv : v.Holds s) (hi : i.Holds s) (hw : ∀ f ∈ fs, Iss.HiloWord f.data) :
    HiloAgree m v i s fs ↔ Clocked.Guarded Hilo.next Hilo.Exact s fs := by
  induction fs generalizing v i s with
  | nil =>
    refine iff_of_true (fun pre hpre => ?_) trivial
    obtain rfl := List.prefix_nil.mp hpre
    refine ⟨fun v' hrun => ?_, i, rfl, hi⟩
    cases hrun
    exact hv
  | cons f fs ih =>
    have hf := hw f List.mem_cons_self
    have hfs : ∀ g ∈ fs, Iss.HiloWord g.data := fun g hg => hw g (List.mem_cons_of_mem f hg)
    rw [hiloAgree_cons hv hi, Clocked.guarded_cons]
    constructor
    · rintro ⟨i', hexec, h⟩
      have hx := executes_issue v (decodeMips32 m f)
      have hagree := h _ hx
      obtain ⟨hrtl, i₁, hi₁, hholds⟩ := hagree [] List.nil_prefix
      obtain rfl := Option.some.inj hi₁
      have hv' := hrtl _ (.nil _)
      have hexact : s.Exact f := ⟨(holds_retire_iff hx hv hf).mp hv',
        (Iss.holds_execMips_iff hi hf).mp ⟨_, hexec, hholds⟩⟩
      exact ⟨hexact, (ih hv' hholds hfs).mp hagree⟩
    · rintro ⟨⟨hrtl, hiss⟩, hguard⟩
      obtain ⟨i', hexec, hi'⟩ := (Iss.holds_execMips_iff hi hf).mpr hiss
      refine ⟨i', hexec, fun a hx => ?_⟩
      exact (ih ((holds_retire_iff hx hv hf).mpr hrtl) hi' hfs).mpr hguard

/-- Registers and accumulator hold the value one. -/
def Hilo.ones : Hilo := { gpr := fun _ => 1, acc := 1 }

/-- The registers of the integer unit and of the interpreter at the values of an accumulator machine. -/
def Hilo.view (s : Hilo) : RegView where
  gpr r := (s.gpr r).setWidth 64
  hilo := s.acc
  fcr := 0

def Hilo.iss (s : Hilo) : Iss where
  pc := 0
  gpr := s.gpr
  lo := s.lo
  hi := s.hi
  cpr0 := fun _ => 0
  fcr25 := 0

theorem Hilo.holds_view (s : Hilo) : s.view.Holds s := ⟨fun r => lo32_setWidth (s.gpr r), rfl⟩
theorem Hilo.holds_iss (s : Hilo) : s.iss.Holds s := ⟨rfl, append_halves s.acc⟩

/-- `madd $1, $2`, then `mflo $3` -/
theorem hiloAgree_madd :
    HiloAgree false Hilo.ones.view Hilo.ones.iss Hilo.ones
      [{ data := 0x70220000#32 }, { data := 0x00001812#32 }] := by
  refine (hiloAgree_iff false (Hilo.holds_view _) (Hilo.holds_iss _) ?_).mpr ?_
  · intro f hf
    simp only [List.mem_cons, List.not_mem_nil, or_false] at hf
    rcases hf with rfl | rfl
    · exact .inr ⟨rfl, by decide⟩
    · exact .inl ⟨rfl, by decide⟩
  · refine ⟨⟨fun h => ?_, fun _ => .inl (by decide), fun h => ?_, fun h => ?_⟩,
      ⟨fun h => ?_, fun h => ?_, fun h => ?_, fun h => ?_⟩, trivial⟩
    · exact absurd h.2 (by decide)
    · exact absurd h.1 (by decide)
    · exact absurd h.1 (by decide)
    · exact absurd h.1 (by decide)
    · exact absurd h (by decide)
    · exact absurd h.2.1 (by decide)
    · exact absurd h.2.2 (by decide)

/-- `msub $1, $2` at accumulator zero: the multiplier leaves the product, not its negative. -/
theorem exists_not_hiloAgree :
    ¬∀ (m : Bool) (v : RegView) (i : Iss) (s : Hilo) (fs : List InsnFetch), v.Holds s → i.Holds s →
      (∀ f ∈ fs, Iss.HiloWord f.data) → HiloAgree m v i s fs := by
  intro h
  have hw : Iss.HiloWord 0x70220004#32 := .inr ⟨rfl, by decide⟩
  have hv := Hilo.holds_view { Hilo.ones with acc := 0 }
  have hx := executes_issue (Hilo.view { Hilo.ones with acc := 0 })
    (decodeMips32 false { data := 0x70220004#32 })
  have hagree := h false _ _ { Hilo.ones with acc := 0 } [{ data := 0x70220004#32 }] hv
    (Hilo.holds_iss _) fun f hf => by rwa [List.mem_singleton.mp hf]
  have hholds := (hagree _ (List.prefix_refl _)).1 _ (.cons _ hx (.nil _))
  rcases (holds_retire_iff hx hv hw).mp hholds ⟨rfl, rfl⟩ with h0 | h0
  · exact absurd h0 (by decide)
  · exact absurd h0 (by decide)

end MipsCore
