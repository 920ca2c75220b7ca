import MipsCore.Exec.Operands
import MipsCore.Iss.State

/-! # Integer instructions

The integer instructions of 32-bit mode, decoded and executed by the integer unit,
against the interpreter.  Both see the same register contents; the unit sees them in
the low halves of its physical registers.
-/
namespace MipsCore

/-! ## Low halves -/

theorem lo32_eq (x : Word) : lo32 x = x.setWidth 32 := rfl

@[simp] theorem lo32_setWidth (x : BitVec 32) : lo32 (x.setWidth 64) = x := by
  rw [lo32_eq, BitVec.setWidth_setWidth_of_le _ (by decide), BitVec.setWidth_eq]

@[simp] theorem lo32_signExtend (x : BitVec 32) : lo32 (x.signExtend 64) = x := by
  ext i hi
  simp [lo32_eq, BitVec.getLsbD_signExtend]
  grind

@[simp] theorem lo32_narrow (b : Bool) (x : Word) : lo32 (narrow b x) = lo32 x := by
  cases b
  · rfl
  · exact lo32_setWidth _

@[simp] theorem narrow_narrow (b : Bool) (x : Word) : narrow b (narrow b x) = narrow b x := by
  cases b
  · rfl
  · rw [narrow, if_pos rfl, lo32_narrow]
    rfl

@[simp] theorem lo32_add (x y : Word) : lo32 (x + y) = lo32 x + lo32 y := by
  simp only [lo32_eq, BitVec.setWidth_add _ _ (show 32 ≤ 64 by decide)]

@[simp] theorem lo32_sub (x y : Word) : lo32 (x - y) = lo32 x - lo32 y := by
  simp only [lo32_eq, BitVec.sub_eq_add_neg, BitVec.setWidth_add _ _ (show 32 ≤ 64 by decide),
    BitVec.setWidth_neg_of_le (show 32 ≤ 64 by decide)]

@[simp] theorem lo32_and (x y : Word) : lo32 (x &&& y) = lo32 x &&& lo32 y := by
  simp only [lo32_eq, BitVec.setWidth_and]

@[simp] theorem lo32_or (x y : Word) : lo32 (x ||| y) = lo32 x ||| lo32 y := by
  simp only [lo32_eq, BitVec.setWidth_or]

@[simp] theorem lo32_xor (x y : Word) : lo32 (x ^^^ y) = lo32 x ^^^ lo32 y := by
  simp only [lo32_eq, BitVec.setWidth_xor]

@[simp] theorem lo32_not (x : Word) : lo32 (~~~x) = ~~~lo32 x := by
  simp only [lo32_eq, BitVec.setWidth_not (show 32 ≤ 64 by decide)]

@[simp] theorem lo32_shiftLeft (x : Word) (n : ℕ) : lo32 (x <<< n) = lo32 x <<< n := by
  ext i hi
  simp [lo32_eq]

@[simp] theorem lo32_setWidth_shiftRight (x : BitVec 32) (n : ℕ) :
    lo32 (x.setWidth 64 >>> n) = x >>> n := by
  ext i hi
  simp only [lo32_eq, BitVec.getElem_setWidth, BitVec.getLsbD_ushiftRight,
    BitVec.getLsbD_setWidth, BitVec.getElem_ushiftRight, Bool.and_eq_right_iff_imp, decide_eq_true_eq]
  intro h
  have := BitVec.lt_of_getLsbD h
  omega

@[simp] theorem lo32_flag (b : Bool) : lo32 (flag b) = Iss.ofBool b := by cases b <;> rfl

theorem setWidth_word_eq_zero {x : BitVec 32} : x.setWidth 64 = 0 ↔ x = 0 := by
  refine ⟨fun h => ?_, fun h => by rw [h]; rfl⟩
  rw [← lo32_setWidth x, h]
  rfl

theorem ult_setWidth (x y : BitVec 32) : (x.setWidth 64).ult (y.setWidth 64) = x.ult y := by
  simp only [BitVec.ult, BitVec.toNat_setWidth]
  rw [Nat.mod_eq_of_lt (by omega), Nat.mod_eq_of_lt (by omega)]

/-- A variable shift looks at the low five bits of its amount. -/
theorem shiftAmount_toNat (x : BitVec 32) :
    (x &&& 0x1f).toNat = ((x.setWidth 64).setWidth 5).toNat := by
  simp [Nat.and_two_pow_sub_one_eq_mod x.toNat 5]

/-- The condition code is one bit of its register. -/
theorem getConditionCode_ne_zero (s : Iss) (cc : BitVec 3) :
    s.getConditionCode cc ≠ 0 ↔ (s.fcr25.setWidth 8).getLsbD cc.toNat = true := by
  have hcc := cc.isLt
  have hbit : s.getConditionCode cc = (BitVec.ofBool (s.fcr25.getLsbD cc.toNat)).setWidth 32 := by
    ext i hi
    rcases Nat.eq_zero_or_pos i with rfl | hpos
    · have h32 : cc.toNat < 32 := by omega
      simp [Iss.getConditionCode, h32]
    · have hne : i ≠ 0 := by omega
      simp [Iss.getConditionCode, hne]
  rw [hbit]
  have h8 : cc.toNat < 8 := hcc
  cases h : s.fcr25.getLsbD cc.toNat <;> simp [h, h8]

theorem extractLsb'_setWidth_cc (cc : BitVec 3) : (cc.setWidth 6).extractLsb' 0 3 = cc := by
  revert cc
  decide

theorem signExtend_of_signExtend (x : BitVec 16) :
    lo32 (x.signExtend 64) = x.signExtend 32 := by
  ext i hi
  simp only [lo32_eq, BitVec.getElem_setWidth, BitVec.getLsbD_signExtend, BitVec.getElem_signExtend]
  grind

/-- The sign extension of a low field looks only at the low half of its register. -/
theorem lo32_signExtend_field {n : ℕ} (hn : n ≤ 32) (x : BitVec 32) :
    lo32 (((x.setWidth 64).extractLsb' 0 n).signExtend 64) = (x.setWidth n).signExtend 32 := by
  have hf : (x.setWidth 64).extractLsb' 0 n = x.setWidth n := by
    ext i hi
    have h64 : i < 64 := by omega
    simp [h64]
  rw [hf]
  ext i hi
  simp only [lo32_eq, BitVec.getElem_setWidth, BitVec.getLsbD_signExtend, BitVec.getElem_signExtend]
  grind

theorem lo32_immediate (x : BitVec 16) : lo32 (x.setWidth 64) = x.setWidth 32 := by
  rw [lo32_eq, BitVec.setWidth_setWidth_of_le _ (by decide)]

theorem append_eq_shiftLeft (x : BitVec 16) : (x ++ 0#16 : BitVec 32) = x.setWidth 32 <<< 16 := by
  ext i hi
  simp
  grind

/-- The fields of EXT lie in the immediate. -/
theorem field_of_immediate (w : BitVec 32) {k : ℕ} (hk : k + 5 ≤ 16) :
    (w.extractLsb' 0 16).extractLsb' k 5 = w.extractLsb' k 5 := by
  ext i hi
  have h16 : k + i < 16 := by omega
  simp [h16]

theorem lowMask_eq {n : BitVec 32} (hn : n.toNat < 32) :
    Iss.lowMask n = BitVec.ofNat 32 (2 ^ n.toNat - 1) := by
  have hlt : 2 ^ n.toNat < 2 ^ 32 := Nat.pow_lt_pow_right (by decide) hn
  have hpos : 0 < 2 ^ n.toNat := Nat.two_pow_pos _
  have hone : BitVec.toNat (1 : BitVec 32) = 1 := rfl
  refine BitVec.eq_of_toNat_eq ?_
  simp only [Iss.lowMask, BitVec.toNat_sub, BitVec.toNat_shiftLeft, BitVec.toNat_ofNat,
    Nat.shiftLeft_eq, hone]
  omega

/-- A field inside the word is the same under a logical and an arithmetic shift. -/
theorem extMask_eq (x : BitVec 32) (sz pos : BitVec 5) (h : pos.toNat + (sz.toNat + 1) ≤ 32)
    (hsz : sz.toNat + 1 < 32) :
    extMask (shiftRight false x pos) sz =
      x.sshiftRight pos.toNat &&& Iss.lowMask (sz.setWidth 32 + 1) := by
  have hs : (sz.setWidth 32 + 1).toNat = sz.toNat + 1 := by simp; omega
  rw [lowMask_eq (by omega), hs, extMask]
  refine BitVec.eq_of_getLsbD_eq fun i hi => ?_
  simp only [BitVec.getLsbD_and, BitVec.getLsbD_ofNat, Nat.testBit_two_pow_sub_one, shiftRight,
    Bool.false_eq_true, if_false]
  rcases Nat.lt_or_ge i (sz.toNat + 1) with hlt | hge
  · have hp : pos.toNat + i < 32 := by omega
    simp [hlt, BitVec.getElem_sshiftRight, hp, hi]
  · simp [Nat.not_lt.mpr hge]

/-! ## The words and their destinations -/

namespace Iss

/-- The function codes of the shifts, sums, logic, comparisons and conditional moves. -/
def integerFuncts : List ℕ :=
  [0x00, 0x01, 0x02, 0x03, 0x04, 0x06, 0x07, 0x0a, 0x0b, 0x20, 0x21, 0x22, 0x23, 0x24, 0x25, 0x26,
    0x27, 0x2a, 0x2b]

/-- The instruction words of the integer groups. -/
def IntegerWord (w : BitVec 32) : Prop :=
  (opcode w).toNat = 0 ∧ (funct w).toNat ∈ integerFuncts ∨
  (opcode w).toNat = 0x1c ∧ (funct w).toNat = 0x20 ∨
  (opcode w).toNat = 0x1f ∧ (funct w).toNat = 32 ∧ ((sa w).toNat = 0x10 ∨ (sa w).toNat = 0x18) ∨
  (opcode w).toNat = 0x1f ∧ (funct w).toNat = 0 ∧
    (sa w).toNat + ((rd w).toNat + 1) ≤ 32 ∧ (rd w).toNat + 1 < 32 ∨
  (opcode w).toNat ∈ [0x08, 0x09, 0x0a, 0x0b, 0x0c, 0x0d, 0x0e, 0x0f]

/-- The destination: `rd`, or `rt` for an immediate and for EXT. -/
def dstReg (w : BitVec 32) : ArchReg :=
  if (opcode w).toNat = 0 ∨ (opcode w).toNat = 0x1c ∨
    (opcode w).toNat = 0x1f ∧ (funct w).toNat = 32 then rd w
  else rt w

/-- The words of the groups that the decoder knows: the trapping sums are not among them. -/
def Decoded (w : BitVec 32) : Prop :=
  ¬((opcode w).toNat = 0 ∧ ((funct w).toNat = 0x20 ∨ (funct w).toNat = 0x22)) ∧
    (opcode w).toNat ≠ 0x08

/-- Where the decoder folds a source register 0 away, its contents make no difference. -/
def ZeroAgrees (s : Iss) (w : BitVec 32) : Prop :=
  ((opcode w).toNat = 0 ∧ (funct w).toNat = 0x25 ∧ rs w = 0 →
    s.gpr 0 ||| s.gpr (rt w) = s.gpr (rt w)) ∧
  ((opcode w).toNat = 0x09 ∧ rs w = 0 → s.gpr 0 = 0)

end Iss

open Iss (dstReg)

/-- The register and the value that the integer unit writes for a decoded uop. -/
def aluWrite (u : Uop) (a : AluIn) : Option (ArchReg × Word) :=
  if !Core.folds u && u.dstValid && (Alu.run a).wrIntPrf then
    some (u.dst.setWidth 5, narrow a.in32bMode (Alu.run a).result)
  else none

/-- The registers of the unit and of the interpreter hold the same values. -/
structure RegsAgree (v : RegView) (s : Iss) : Prop where
  gpr : ∀ r, lo32 (v.gpr r) = s.gpr r
  fcr : v.fcr = s.fcr25.setWidth 8

/-- Both machines write the same 32-bit value to the same register, and nothing else. -/
def Agrees (m : Bool) (f : InsnFetch) (a : AluIn) (s : Iss) : Prop :=
  ∃ x, aluWrite (decodeMips32 m f) a = some (dstReg f.data, x) ∧
    s.execMips f.data = s.write (dstReg f.data) (lo32 x)

theorem Iss.write_inj {s : Iss} {r : ArchReg} {x y : BitVec 32} :
    s.write r x = s.write r y ↔ x = y := by
  refine ⟨fun h => ?_, fun h => by rw [h]⟩
  have hg := congrFun (congrArg Iss.gpr (Option.some.inj h)) r
  simpa [Iss.set, Iss.next] using hg

/-! ## Decoded uops -/

/-- The uop that decode starts from. -/
def startUop (f : InsnFetch) : Uop := { pc := f.pc, phtIdx := f.phtIdx }

@[simp] theorem setWidth_setWidth_archReg (r : ArchReg) : (r.setWidth 6).setWidth 5 = r := by
  rw [BitVec.setWidth_setWidth_of_le _ (by decide), BitVec.setWidth_eq]

theorem toNat_setWidth_archReg (r : ArchReg) : (r.setWidth 6).toNat = r.toNat := by
  rw [BitVec.toNat_setWidth, Nat.mod_eq_of_lt (by omega)]

theorem setWidth_eq_zero {r : ArchReg} : r.setWidth 6 = 0#6 ↔ r = 0 := by
  refine ⟨fun h => ?_, fun h => by rw [h]; rfl⟩
  rw [← setWidth_setWidth_archReg r, h]
  rfl

theorem decode_rs (w : BitVec 32) : Decode.rs w = (Iss.rs w).setWidth 6 := rfl
theorem decode_rt (w : BitVec 32) : Decode.rt w = (Iss.rt w).setWidth 6 := rfl

theorem decode_start (m : Bool) (f : InsnFetch) :
    decodeMips32 m f = Decode.majorOp f.data m f.pred f.predTarget (startUop f) := rfl

section Arms
variable {m : Bool} {f : InsnFetch} {v : RegView} {a : AluIn} {s : Iss}

/-- The unit writes `x` where the interpreter writes `y`. -/
theorem agrees_iff {x : Word} {y : BitVec 32} (h32 : a.in32bMode = true)
    (hfold : Core.folds (decodeMips32 m f) = false) (hval : (decodeMips32 m f).dstValid = true)
    (hdst : (decodeMips32 m f).dst = (dstReg f.data).setWidth 6)
    (hrun : Alu.run a = Alu.writes a x) (hiss : s.execMips f.data = s.write (dstReg f.data) y) :
    Agrees m f a s ↔ lo32 x = y := by
  have hwr : aluWrite (decodeMips32 m f) a = some (dstReg f.data, (lo32 x).setWidth 64) := by
    simp [aluWrite, hfold, hval, hdst, hrun, h32, Alu.writes, Alu.done, narrow]
  simp only [Agrees, hwr, hiss]
  constructor
  · rintro ⟨z, hz, hw⟩
    obtain rfl := (Prod.mk.inj (Option.some.inj hz)).2
    rw [lo32_setWidth] at hw
    exact (Iss.write_inj.mp hw).symm
  · intro h
    exact ⟨_, rfl, by rw [lo32_setWidth, h]⟩

/-- A uop that decode folds writes nothing. -/
theorem not_agrees (hfold : Core.folds (decodeMips32 m f) = true) : ¬Agrees m f a s := by
  rintro ⟨x, hx, -⟩
  simp [aluWrite, hfold] at hx

/-! ## The arms of decode -/

/-- The operand of a renamed source. -/
theorem operand_eq (h32 : a.in32bMode = true) (hr : RegsAgree v s) (r : ArchReg) :
    narrow a.in32bMode (v.gpr ((r.setWidth 6).setWidth 5)) = (s.gpr r).setWidth 64 := by
  rw [h32, setWidth_setWidth_archReg, narrow, if_pos rfl, hr.gpr]

/-- A uop into `rd` keeps its operation and its destination where that is not register 0. -/
theorem rdOp_writes {op : Opcode} {u : Uop} (hdec : decodeMips32 m f = Decode.rdOp f.data op u)
    (hop : Core.folds { op := op } = false) (hdst : dstReg f.data = Iss.rd f.data)
    (hd : dstReg f.data ≠ 0) :
    (decodeMips32 m f).op = op ∧ Core.folds (decodeMips32 m f) = false ∧
      (decodeMips32 m f).dstValid = true ∧
        (decodeMips32 m f).dst = (dstReg f.data).setWidth 6 := by
  have hrd : Decode.rd f.data ≠ 0 := by
    rw [hdst] at hd
    exact fun h => hd (setWidth_eq_zero.mp h)
  have hsome : (decodeMips32 m f).op = op := by
    rw [hdec]
    simp only [Decode.rdOp, if_neg hrd]
  refine ⟨hsome, ?_, ?_, ?_⟩
  · rw [Core.folds, hsome]
    exact hop
  · simpa [hdec, Decode.rdOp] using hrd
  · rw [hdec, hdst]
    rfl

/-- An immediate uop into `rt` keeps its operation and its destination. -/
theorem rtImm_writes {op : Opcode} {u : Uop} (hdec : decodeMips32 m f = Decode.rtImm f.data op u)
    (hop : Core.folds { op := op } = false) (hdst : dstReg f.data = Iss.rt f.data)
    (hd : dstReg f.data ≠ 0) :
    (decodeMips32 m f).op = op ∧ Core.folds (decodeMips32 m f) = false ∧
      (decodeMips32 m f).dstValid = true ∧
        (decodeMips32 m f).dst = (dstReg f.data).setWidth 6 := by
  have hrt : Decode.rt f.data ≠ 0 := by
    rw [hdst] at hd
    exact fun h => hd (setWidth_eq_zero.mp h)
  have hsome : (decodeMips32 m f).op = op := by
    rw [hdec]
    simp only [Decode.rtImm, if_neg hrt]
  refine ⟨hsome, ?_, ?_, ?_⟩
  · rw [Core.folds, hsome]
    exact hop
  · simpa [hdec, Decode.rtImm] using hrt
  · rw [hdec, hdst]
    rfl

variable (hx : Executes v (decodeMips32 m f) a) (h32 : a.in32bMode = true) (hr : RegsAgree v s)
  {u : Uop} (hdec : decodeMips32 m f = u)
include hx h32 hr hdec

theorem srcA_eq {r : ArchReg} (h : u.srcA = r.setWidth 6) (hv : u.srcAValid = true)
    (hf : u.fpSrcAValid = false) : a.srcA = (s.gpr r).setWidth 64 := by
  rw [hdec] at hx
  rw [hx.srcA hv hf, h, operand_eq h32 hr]

theorem srcB_eq {r : ArchReg} (h : u.srcB = r.setWidth 6) (hv : u.srcBValid = true)
    (hf : u.fpSrcBValid = false) : a.srcB = (s.gpr r).setWidth 64 := by
  rw [hdec] at hx
  rw [hx.srcB hv hf, h, operand_eq h32 hr]

theorem srcC_eq {r : ArchReg} (h : u.srcC = r.setWidth 6) (hv : u.srcCValid = true)
    (hf : u.fpSrcCValid = false) : a.srcC = (s.gpr r).setWidth 64 := by
  rw [hdec] at hx
  rw [hx.srcC hv hf, h, operand_eq h32 hr]

omit hr in
/-- A uop into `rd` that the unit executes as `x`. -/
theorem agrees_rd {op : Opcode} {u' : Uop} {x : Word} {y : BitVec 32}
    (hu : u = Decode.rdOp f.data op u') (hop : Core.folds { op := op } = false)
    (hdst : dstReg f.data = Iss.rd f.data) (hd : dstReg f.data ≠ 0)
    (hrun : a.uop.op = op → Alu.run a = Alu.writes a x)
    (hiss : s.execMips f.data = s.write (dstReg f.data) y) : Agrees m f a s ↔ lo32 x = y := by
  rw [hu] at hdec
  obtain ⟨hsome, hfold, hval, hdst'⟩ := rdOp_writes hdec hop hdst hd
  exact agrees_iff h32 hfold hval hdst' (hrun (hx.op.trans hsome)) hiss

omit hr in
/-- An immediate uop into `rt` that the unit executes as `x`. -/
theorem agrees_rt {op : Opcode} {u' : Uop} {x : Word} {y : BitVec 32}
    (hu : u = Decode.rtImm f.data op u') (hop : Core.folds { op := op } = false)
    (hdst : dstReg f.data = Iss.rt f.data) (hd : dstReg f.data ≠ 0)
    (hrun : a.uop.op = op → Alu.run a = Alu.writes a x)
    (hiss : s.execMips f.data = s.write (dstReg f.data) y) : Agrees m f a s ↔ lo32 x = y := by
  rw [hu] at hdec
  obtain ⟨hsome, hfold, hval, hdst'⟩ := rtImm_writes hdec hop hdst hd
  exact agrees_iff h32 hfold hval hdst' (hrun (hx.op.trans hsome)) hiss

/-- Two register sources into `rd`. -/
theorem agrees_twoSrc {op : Opcode} {p q : PrfPtr} {rA rB : ArchReg} {x : Word} {y : BitVec 32}
    (hu : u = Decode.twoSrc f.data op p q (startUop f)) (hp : p = rA.setWidth 6)
    (hq : q = rB.setWidth 6) (hop : Core.folds { op := op } = false)
    (hdst : dstReg f.data = Iss.rd f.data) (hd : dstReg f.data ≠ 0)
    (hrun : a.uop.op = op → Alu.run a = Alu.writes a x)
    (hiss : s.execMips f.data = s.write (dstReg f.data) y)
    (hlo : a.srcA = (s.gpr rA).setWidth 64 → a.srcB = (s.gpr rB).setWidth 64 → lo32 x = y) :
    Agrees m f a s := by
  rw [hu] at hdec
  have hA := srcA_eq hx h32 hr hdec hp rfl rfl
  have hB := srcB_eq hx h32 hr hdec hq rfl rfl
  exact (agrees_rd hx h32 hdec rfl hop hdst hd hrun hiss).mpr (hlo hA hB)

end Arms

section Rtype
variable {m : Bool} {f : InsnFetch} {v : RegView} {a : AluIn} {s : Iss}

theorem decode_rtype (hop : (Iss.opcode f.data).toNat = 0) :
    decodeMips32 m f = Decode.rtype f.data f.predTarget (startUop f) := by
  have h : (Decode.opcode f.data).toNat = 0 := hop
  simp only [decodeMips32, Decode.majorOp, h, startUop]

theorem execMips_rtype (hop : (Iss.opcode f.data).toNat = 0) :
    s.execMips f.data = s.rtype f.data := by
  simp only [Iss.execMips, hop]

theorem dstReg_rtype (hop : (Iss.opcode f.data).toNat = 0) : dstReg f.data = Iss.rd f.data := by
  simp [dstReg, hop]

variable (hx : Executes v (decodeMips32 m f) a) (h32 : a.in32bMode = true) (hr : RegsAgree v s)
  (hd : dstReg f.data ≠ 0) (hop : (Iss.opcode f.data).toNat = 0)
include hx h32 hr hd hop

theorem agrees_shift (hfn : (Iss.funct f.data).toNat ∈ [0x00, 0x02, 0x03]) : Agrees m f a s := by
  have hdst := dstReg_rtype hop
  have hdec := decode_rtype (m := m) hop
  have hiss := execMips_rtype (s := s) hop
  simp only [List.mem_cons, List.not_mem_nil, or_false] at hfn
  rcases hfn with hfn | hfn | hfn <;> have hfn' : (Decode.funct f.data).toNat = _ := hfn <;>
    simp only [Decode.rtype, hfn'] at hdec <;> simp only [Iss.rtype, hfn, ← hdst] at hiss
  case inl =>
    have hrd : Decode.rd f.data ≠ 0 := fun h => hd (hdst.trans (setWidth_eq_zero.mp h))
    have hsll : (Decode.isNop f.data || Decode.isEhb f.data) = false := by
      simp only [Decode.isNop, Decode.isEhb, Bool.or_eq_false_iff, beq_eq_false_iff_ne]
      refine ⟨fun h => ?_, fun h => ?_⟩ <;> exact hrd (by rw [h]; rfl)
    simp only [hsll, Bool.false_eq_true, if_false] at hdec
    have hA := srcA_eq hx h32 hr hdec (r := Iss.rt f.data) rfl rfl rfl
    have hB : a.uop.srcB = (Iss.sa f.data).setWidth 6 := (hdec ▸ hx).rawB rfl rfl
    have hsome : a.uop.op = .SLL := (hdec ▸ hx).op
    have hrun : Alu.run a = Alu.writes a (a.srcA <<< a.uop.srcB.toNat) := by
      simp only [Alu.run, hsome]
    refine (agrees_iff h32 ?_ ?_ ?_ hrun hiss).mpr ?_
    · rw [hdec]
      rfl
    · simpa [hdec] using hrd
    · rw [hdec, hdst]
      rfl
    · rw [hA, hB, toNat_setWidth_archReg, lo32_shiftLeft, lo32_setWidth]
  case inr.inl =>
    have hA := srcA_eq hx h32 hr hdec (r := Iss.rt f.data) rfl rfl rfl
    have hB : a.uop.srcB = (Iss.sa f.data).setWidth 6 := (hdec ▸ hx).rawB rfl rfl
    refine (agrees_rd hx h32 hdec rfl rfl hdst hd (fun h => by simp only [Alu.run, h]; rfl) hiss).mpr ?_
    rw [hA, hB, toNat_setWidth_archReg, lo32_setWidth_shiftRight]
  case inr.inr =>
    have hA := srcA_eq hx h32 hr hdec (r := Iss.rt f.data) rfl rfl rfl
    have hB : a.uop.srcB = (Iss.sa f.data).setWidth 6 := (hdec ▸ hx).rawB rfl rfl
    refine (agrees_rd hx h32 hdec rfl rfl hdst hd (fun h => by simp only [Alu.run, h]; rfl) hiss).mpr ?_
    simp [hA, hB, shiftRight]

theorem agrees_twoSrcs
    (hfn : (Iss.funct f.data).toNat ∈
      [0x04, 0x06, 0x07, 0x21, 0x23, 0x24, 0x26, 0x27, 0x2a, 0x2b]) : Agrees m f a s := by
  have hdst := dstReg_rtype hop
  have hdec := decode_rtype (m := m) hop
  have hiss := execMips_rtype (s := s) hop
  simp only [List.mem_cons, List.not_mem_nil, or_false] at hfn
  rcases hfn with hfn | hfn | hfn | hfn | hfn | hfn | hfn | hfn | hfn | hfn <;>
    have hfn' : (Decode.funct f.data).toNat = _ := hfn <;>
    simp only [Decode.rtype, hfn', decode_rs, decode_rt] at hdec <;>
    simp only [Iss.rtype, hfn, ← hdst] at hiss <;>
    refine agrees_twoSrc hx h32 hr hdec rfl rfl rfl rfl hdst hd
      (fun h => by simp only [Alu.run, h]; rfl) hiss ?_ <;>
    intro hA hB <;> simp only [hA, hB]
  case inl => rw [lo32_shiftLeft, lo32_setWidth, shiftAmount_toNat]
  case inr.inl => rw [lo32_setWidth_shiftRight, shiftAmount_toNat]
  case inr.inr.inl =>
    rw [lo32_signExtend, lo32_setWidth, shiftRight, if_pos rfl, shiftAmount_toNat]
  case inr.inr.inr.inl => rw [lo32_add, lo32_setWidth, lo32_setWidth, BitVec.add_comm]
  case inr.inr.inr.inr.inl => rw [lo32_sub, lo32_setWidth, lo32_setWidth]
  case inr.inr.inr.inr.inr.inl => rw [lo32_and, lo32_setWidth, lo32_setWidth, BitVec.and_comm]
  case inr.inr.inr.inr.inr.inr.inl => rw [lo32_xor, lo32_setWidth, lo32_setWidth, BitVec.xor_comm]
  case inr.inr.inr.inr.inr.inr.inr.inl =>
    rw [lo32_not, lo32_or, lo32_setWidth, lo32_setWidth, BitVec.or_comm]
  case inr.inr.inr.inr.inr.inr.inr.inr.inl =>
    rw [lo32_flag, Alu.slt, h32, if_pos rfl, lo32_setWidth, lo32_setWidth]
  case inr.inr.inr.inr.inr.inr.inr.inr.inr => rw [lo32_flag, ult_setWidth]

theorem agrees_condMove (hfn : (Iss.funct f.data).toNat ∈ [0x0a, 0x0b]) : Agrees m f a s := by
  have hdst := dstReg_rtype hop
  have hdec := decode_rtype (m := m) hop
  have hiss := execMips_rtype (s := s) hop
  simp only [List.mem_cons, List.not_mem_nil, or_false] at hfn
  rcases hfn with hfn | hfn <;> have hfn' : (Decode.funct f.data).toNat = _ := hfn <;>
    simp only [Decode.rtype, hfn'] at hdec <;> simp only [Iss.rtype, hfn, ← hdst] at hiss <;>
    have hA := srcA_eq hx h32 hr hdec (r := Iss.rt f.data) rfl rfl rfl <;>
    have hB := srcB_eq hx h32 hr hdec (r := Iss.rs f.data) rfl rfl rfl <;>
    have hC := srcC_eq hx h32 hr hdec (r := Iss.rd f.data) rfl rfl rfl <;>
    refine (agrees_rd hx h32 hdec rfl rfl hdst hd
      (fun h => by simp only [Alu.run, h]; rfl) hiss).mpr ?_ <;>
    simp only [hA, hB, hC, hdst, setWidth_word_eq_zero, ne_eq] <;> split_ifs <;> rw [lo32_setWidth]

theorem agrees_movci (hfn : (Iss.funct f.data).toNat = 0x01) : Agrees m f a s := by
  have hdst := dstReg_rtype hop
  have hdec := decode_rtype (m := m) hop
  have hiss := execMips_rtype (s := s) hop
  have hfn' : (Decode.funct f.data).toNat = _ := hfn
  have hrd : Decode.rd f.data ≠ 0 := fun h => hd (hdst.trans (setWidth_eq_zero.mp h))
  simp only [Decode.rtype, hfn', if_neg hrd] at hdec
  simp only [Iss.rtype, hfn, Iss.movci, ← hdst] at hiss
  have hA := srcA_eq hx h32 hr hdec (r := Iss.rs f.data) rfl rfl rfl
  have hB := srcB_eq hx h32 hr hdec (r := Iss.rd f.data) rfl rfl rfl
  have hC : a.uop.srcC = (f.data.extractLsb' 18 3).setWidth 6 := (hdec ▸ hx).rawC rfl rfl
  have hfcr : a.fcr = v.fcr := (hdec ▸ hx).fcr rfl rfl
  have hcc : Alu.fcrBit a = true ↔ s.getConditionCode (f.data.extractLsb' 18 3) ≠ 0 := by
    rw [getConditionCode_ne_zero, ← hr.fcr, ← hfcr, Alu.fcrBit, hC, extractLsb'_setWidth_cc]
  have hsome : a.uop.op = if f.data.getLsbD 16 then .MOVT else .MOVF := (hdec ▸ hx).op
  have hrun : Alu.run a = Alu.writes a
      (if f.data.getLsbD 16 = Alu.fcrBit a then a.srcA else a.srcB) := by
    cases h16 : f.data.getLsbD 16 <;> rw [h16] at hsome <;>
      cases hb : Alu.fcrBit a <;> simp [Alu.run, hsome, hb]
  refine (agrees_iff h32 ?_ ?_ ?_ hrun hiss).mpr ?_
  · rw [hdec]
    cases f.data.getLsbD 16 <;> rfl
  · rw [hdec]
  · rw [hdec, hdst]
    rfl
  · cases h16 : f.data.getLsbD 16 <;> cases hb : Alu.fcrBit a <;>
      simp_all

/-- OR agrees unless its first source is register 0 and that register changes the result. -/
theorem agrees_or_iff (hfn : (Iss.funct f.data).toNat = 0x25) :
    Agrees m f a s ↔
      (Iss.rs f.data = 0 → s.gpr 0 ||| s.gpr (Iss.rt f.data) = s.gpr (Iss.rt f.data)) := by
  have hdst := dstReg_rtype hop
  have hdec := decode_rtype (m := m) hop
  have hiss := execMips_rtype (s := s) hop
  have hfn' : (Decode.funct f.data).toNat = _ := hfn
  simp only [Decode.rtype, hfn'] at hdec
  simp only [Iss.rtype, hfn, ← hdst, if_pos hd] at hiss
  by_cases hrs : Iss.rs f.data = 0
  · have hrs' : Decode.rs f.data = 0 := setWidth_eq_zero.mpr hrs
    rw [if_pos hrs'] at hdec
    have hA := srcA_eq hx h32 hr hdec (r := Iss.rt f.data) rfl rfl rfl
    rw [agrees_rd hx h32 hdec rfl rfl hdst hd (fun h => by simp only [Alu.run, h]; rfl) hiss, hA,
      lo32_setWidth, hrs]
    exact ⟨fun h _ => h.symm, fun h => (h rfl).symm⟩
  · have hrs' : Decode.rs f.data ≠ 0 := fun h => hrs (setWidth_eq_zero.mp h)
    rw [if_neg hrs', decode_rs, decode_rt] at hdec
    refine iff_of_true ?_ fun h => absurd h hrs
    refine agrees_twoSrc hx h32 hr hdec rfl rfl rfl rfl hdst hd
      (fun h => by simp only [Alu.run, h]; rfl) hiss fun hA hB => ?_
    rw [hA, hB, lo32_or, lo32_setWidth, lo32_setWidth, BitVec.or_comm]

omit hx h32 hr hd in
/-- The trapping sum and difference reach the decoder's default. -/
theorem not_agrees_trapping (hfn : (Iss.funct f.data).toNat = 0x20 ∨ (Iss.funct f.data).toNat = 0x22) :
    ¬Agrees m f a s := by
  have hdec := decode_rtype (m := m) hop
  refine not_agrees ?_
  rcases hfn with hfn | hfn <;> have hfn' : (Decode.funct f.data).toNat = _ := hfn <;>
    simp only [Decode.rtype, hfn'] at hdec <;> rw [hdec] <;> rfl

end Rtype

section Immediate
variable {m : Bool} {f : InsnFetch} {v : RegView} {a : AluIn} {s : Iss}
  (hx : Executes v (decodeMips32 m f) a) (h32 : a.in32bMode = true) (hr : RegsAgree v s)
  (hd : dstReg f.data ≠ 0)
include hx h32 hr hd

theorem agrees_immediate (hop : (Iss.opcode f.data).toNat ∈ [0x0a, 0x0b, 0x0c, 0x0d, 0x0e]) :
    Agrees m f a s := by
  have hdec := decode_start m f
  simp only [List.mem_cons, List.not_mem_nil, or_false] at hop
  have hdst : dstReg f.data = Iss.rt f.data := by rw [dstReg, if_neg (by omega)]
  rcases hop with hop | hop | hop | hop | hop <;>
    have hop' : (Decode.opcode f.data).toNat = _ := hop <;>
    have hiss : s.execMips f.data = s.itype f.data := (by simp only [Iss.execMips, hop]) <;>
    simp only [Decode.majorOp, hop'] at hdec <;> simp only [hop, Iss.itype, ← hdst] at hiss <;>
    have hA := srcA_eq hx h32 hr hdec (r := Iss.rs f.data) rfl rfl rfl <;>
    have hI : a.uop.imm = f.data.extractLsb' 0 16 := (hdec ▸ hx).imm <;>
    refine (agrees_rt hx h32 hdec rfl rfl hdst hd
      (fun h => by simp only [Alu.run, h]; rfl) hiss).mpr ?_ <;>
    simp only [Alu.slt, Alu.ult, Alu.simm, Alu.zimm, h32, if_true, hA, hI, lo32_flag, lo32_setWidth,
      lo32_and, lo32_or, lo32_xor, signExtend_of_signExtend, lo32_immediate, Iss.simm32, Iss.uimm32]

omit hr in
theorem agrees_lui (hop : (Iss.opcode f.data).toNat = 0x0f) : Agrees m f a s := by
  have hdec := decode_start m f
  have hdst : dstReg f.data = Iss.rt f.data := by rw [dstReg, if_neg (by omega)]
  have hop' : (Decode.opcode f.data).toNat = _ := hop
  have hiss : s.execMips f.data = s.itype f.data := by simp only [Iss.execMips, hop]
  simp only [Decode.majorOp, hop'] at hdec
  simp only [hop, Iss.itype, ← hdst] at hiss
  have hI : a.uop.imm = f.data.extractLsb' 0 16 := (hdec ▸ hx).imm
  refine (agrees_rt hx h32 hdec rfl rfl hdst hd (fun h => by simp only [Alu.run, h]; rfl) hiss).mpr ?_
  rw [hI, lo32_signExtend, append_eq_shiftLeft, Iss.uimm32]

/-- ADDIU agrees unless its source is register 0 and that register is not zero. -/
theorem agrees_addiu_iff (hop : (Iss.opcode f.data).toNat = 0x09) :
    Agrees m f a s ↔ (Iss.rs f.data = 0 → s.gpr 0 = 0) := by
  have hdec := decode_start m f
  have hdst : dstReg f.data = Iss.rt f.data := by rw [dstReg, if_neg (by omega)]
  have hop' : (Decode.opcode f.data).toNat = _ := hop
  have hiss : s.execMips f.data = s.itype f.data := by simp only [Iss.execMips, hop]
  simp only [Decode.majorOp, hop'] at hdec
  simp only [hop, Iss.itype, ← hdst] at hiss
  by_cases hrs : Iss.rs f.data = 0
  · have hrs' : Decode.rs f.data = 0 := setWidth_eq_zero.mpr hrs
    rw [if_pos hrs'] at hdec
    have hI : a.uop.imm = f.data.extractLsb' 0 16 := (hdec ▸ hx).imm
    rw [agrees_rt hx h32 hdec rfl rfl hdst hd (fun h => by simp only [Alu.run, h]; rfl) hiss, Alu.simm,
      hI, lo32_signExtend, signExtend_of_signExtend, hrs, Iss.simm32]
    simp
  · have hrs' : Decode.rs f.data ≠ 0 := fun h => hrs (setWidth_eq_zero.mp h)
    rw [if_neg hrs'] at hdec
    have hA := srcA_eq hx h32 hr hdec (r := Iss.rs f.data) rfl rfl rfl
    have hI : a.uop.imm = f.data.extractLsb' 0 16 := (hdec ▸ hx).imm
    refine iff_of_true ?_ fun h => absurd h hrs
    refine (agrees_rt hx h32 hdec rfl rfl hdst hd
      (fun h => by simp only [Alu.run, h]; rfl) hiss).mpr ?_
    rw [lo32_signExtend, Alu.simm, hA, hI, lo32_setWidth, signExtend_of_signExtend, Iss.simm32]

omit hx h32 hr hd in
theorem not_agrees_addi (hop : (Iss.opcode f.data).toNat = 0x08) : ¬Agrees m f a s := by
  have hdec := decode_start m f
  have hop' : (Decode.opcode f.data).toNat = _ := hop
  simp only [Decode.majorOp, hop'] at hdec
  exact not_agrees (by rw [hdec]; rfl)

end Immediate

section Special
variable {m : Bool} {f : InsnFetch} {v : RegView} {a : AluIn} {s : Iss}
  (hx : Executes v (decodeMips32 m f) a) (h32 : a.in32bMode = true) (hr : RegsAgree v s)
  (hd : dstReg f.data ≠ 0)
include hx h32 hr hd

theorem agrees_clz (hop : (Iss.opcode f.data).toNat = 0x1c) (hfn : (Iss.funct f.data).toNat = 0x20) :
    Agrees m f a s := by
  have hdec := decode_start m f
  have hdst : dstReg f.data = Iss.rd f.data := by simp [dstReg, hop]
  have hop' : (Decode.opcode f.data).toNat = _ := hop
  have hfn' : (Decode.funct f.data).toNat = _ := hfn
  have hiss : s.execMips f.data = s.execSpecial2 f.data := by simp only [Iss.execMips, hop]
  simp only [Decode.majorOp, hop', Decode.special2, hfn'] at hdec
  simp only [Iss.execSpecial2, hfn, ← hdst] at hiss
  have hA := srcA_eq hx h32 hr hdec (r := Iss.rs f.data) rfl rfl rfl
  refine (agrees_rd hx h32 hdec rfl rfl hdst hd (fun h => by simp only [Alu.run, h]; rfl) hiss).mpr ?_
  refine BitVec.eq_of_toNat_eq ?_
  have hlt := (countLeadingZeros 3 (s.gpr (Iss.rs f.data))).isLt
  rw [hA, lo32_setWidth, ← countLeadingZeros_eq_clz, lo32_eq, BitVec.toNat_setWidth,
    BitVec.toNat_setWidth, Nat.mod_eq_of_lt (a := (countLeadingZeros 3 _).toNat) (by omega),
    Nat.mod_eq_of_lt (by omega)]

theorem agrees_signExtend (hop : (Iss.opcode f.data).toNat = 0x1f)
    (hfn : (Iss.funct f.data).toNat = 32)
    (hsa : (Iss.sa f.data).toNat = 0x10 ∨ (Iss.sa f.data).toNat = 0x18) : Agrees m f a s := by
  have hdec := decode_start m f
  have hdst : dstReg f.data = Iss.rd f.data := by simp [dstReg, hop, hfn]
  have hop' : (Decode.opcode f.data).toNat = _ := hop
  have hfn' : (Decode.funct f.data).toNat = _ := hfn
  have hiss : s.execMips f.data = s.execSpecial3 f.data := by simp only [Iss.execMips, hop]
  simp only [Decode.majorOp, hop', Decode.special3, hfn'] at hdec
  have hA := srcA_eq hx h32 hr hdec (r := Iss.rt f.data) rfl rfl rfl
  have hrd : Decode.rd f.data ≠ 0 := fun h => hd (hdst.trans (setWidth_eq_zero.mp h))
  rcases hsa with hsa | hsa <;> simp only [Iss.execSpecial3, hfn, hsa, ← hdst] at hiss
  case inl =>
    have h16 : f.data.extractLsb' 6 5 = 16#5 := BitVec.eq_of_toNat_eq hsa
    simp only [h16, if_true] at hdec
    have hsome : a.uop.op = .SEB := (hdec ▸ hx).op
    have hrun : Alu.run a = Alu.writes a ((a.srcA.extractLsb' 0 8).signExtend 64) := by
      simp only [Alu.run, hsome]
    refine (agrees_iff h32 (by rw [hdec]; rfl) (by rw [hdec]) (by rw [hdec, hdst]; rfl) hrun hiss).mpr ?_
    rw [hA, lo32_signExtend_field (by decide)]
  case inr =>
    have h16 : f.data.extractLsb' 6 5 ≠ 16#5 := by
      intro h
      rw [Iss.sa, h] at hsa
      exact absurd hsa (by decide)
    simp only [h16, if_false] at hdec
    have hsome : a.uop.op = .SEH := (hdec ▸ hx).op
    have hrun : Alu.run a = Alu.writes a ((a.srcA.extractLsb' 0 16).signExtend 64) := by
      simp only [Alu.run, hsome]
    refine (agrees_iff h32 (by rw [hdec]; rfl) (by rw [hdec]) (by rw [hdec, hdst]; rfl) hrun hiss).mpr ?_
    rw [hA, lo32_signExtend_field (by decide)]

omit hd in
theorem agrees_ext (hop : (Iss.opcode f.data).toNat = 0x1f) (hfn : (Iss.funct f.data).toNat = 0)
    (hpos : (Iss.sa f.data).toNat + ((Iss.rd f.data).toNat + 1) ≤ 32)
    (hsz : (Iss.rd f.data).toNat + 1 < 32) : Agrees m f a s := by
  have hdec := decode_start m f
  have hdst : dstReg f.data = Iss.rt f.data := by simp [dstReg, hop, hfn]
  have hop' : (Decode.opcode f.data).toNat = _ := hop
  have hfn' : (Decode.funct f.data).toNat = _ := hfn
  have hiss : s.execMips f.data = s.execSpecial3 f.data := by simp only [Iss.execMips, hop]
  simp only [Decode.majorOp, hop', Decode.special3, hfn'] at hdec
  simp only [Iss.execSpecial3, hfn, ← hdst] at hiss
  have hA := srcA_eq hx h32 hr hdec (r := Iss.rs f.data) rfl rfl rfl
  have hI : a.uop.imm = f.data.extractLsb' 0 16 := (hdec ▸ hx).imm
  have hsome : a.uop.op = .EXT := (hdec ▸ hx).op
  have hrun : Alu.run a = Alu.writes a
      ((extMask (shiftRight false (lo32 a.srcA) (Iss.sa f.data)) (Iss.rd f.data)).signExtend 64) := by
    simp only [Alu.run, hsome, hI, field_of_immediate f.data (show 6 + 5 ≤ 16 by decide),
      field_of_immediate f.data (show 11 + 5 ≤ 16 by decide)]
    rfl
  refine (agrees_iff h32 (by rw [hdec]; rfl) (by rw [hdec]) (by rw [hdec, hdst]; rfl) hrun hiss).mpr ?_
  rw [hA, lo32_signExtend, lo32_setWidth, extMask_eq _ _ _ hpos hsz]

end Special

/-! ## All groups -/

/-- The integer unit and the interpreter write the same 32-bit value to the same register exactly
for the words that decode knows, where a folded register 0 makes no difference. -/
theorem integer_agrees_iff {m : Bool} {f : InsnFetch} {v : RegView} {a : AluIn} {s : Iss}
    (hx : Executes v (decodeMips32 m f) a) (h32 : a.in32bMode = true) (hr : RegsAgree v s)
    (hw : Iss.IntegerWord f.data) (hd : dstReg f.data ≠ 0) :
    Agrees m f a s ↔ Iss.Decoded f.data ∧ s.ZeroAgrees f.data := by
  rcases hw with ⟨hop, hfn⟩ | ⟨hop, hfn⟩ | ⟨hop, hfn, hsa⟩ | ⟨hop, hfn, hpos, hsz⟩ | hop
  · by_cases htrap : (Iss.funct f.data).toNat = 0x20 ∨ (Iss.funct f.data).toNat = 0x22
    · refine iff_of_false (not_agrees_trapping hop htrap) fun h => h.1.1 ⟨hop, htrap⟩
    · have hdec : Iss.Decoded f.data := ⟨fun h => htrap h.2, by omega⟩
      by_cases hor : (Iss.funct f.data).toNat = 0x25
      · rw [agrees_or_iff hx h32 hr hd hop hor]
        refine ⟨fun h => ⟨hdec, fun hz => ?_, fun hz => by omega⟩, fun h hz => h.2.1 ⟨hop, hor, hz⟩⟩
        exact h hz.2.2
      · have hzero : s.ZeroAgrees f.data := ⟨fun hz => absurd hz.2.1 hor, fun hz => by omega⟩
        refine iff_of_true ?_ ⟨hdec, hzero⟩
        simp only [Iss.integerFuncts, List.mem_cons, List.not_mem_nil, or_false] at hfn
        by_cases h1 : (Iss.funct f.data).toNat = 0x01
        · exact agrees_movci hx h32 hr hd hop h1
        · by_cases hs : (Iss.funct f.data).toNat ∈ [0x00, 0x02, 0x03]
          · exact agrees_shift hx h32 hr hd hop hs
          · by_cases hc : (Iss.funct f.data).toNat ∈ [0x0a, 0x0b]
            · exact agrees_condMove hx h32 hr hd hop hc
            · refine agrees_twoSrcs hx h32 hr hd hop ?_
              simp only [List.mem_cons, List.not_mem_nil, or_false] at hs hc ⊢
              omega
  · refine iff_of_true (agrees_clz hx h32 hr hd hop hfn) ⟨⟨?_, ?_⟩, ⟨?_, ?_⟩⟩ <;> omega
  · refine iff_of_true (agrees_signExtend hx h32 hr hd hop hfn hsa) ⟨⟨?_, ?_⟩, ⟨?_, ?_⟩⟩ <;> omega
  · refine iff_of_true (agrees_ext hx h32 hr hop hfn hpos hsz) ⟨⟨?_, ?_⟩, ⟨?_, ?_⟩⟩ <;> omega
  · simp only [List.mem_cons, List.not_mem_nil, or_false] at hop
    by_cases h8 : (Iss.opcode f.data).toNat = 0x08
    · exact iff_of_false (not_agrees_addi h8) fun h => h.1.2 h8
    · by_cases h9 : (Iss.opcode f.data).toNat = 0x09
      · rw [agrees_addiu_iff hx h32 hr hd h9]
        refine ⟨fun h => ⟨⟨by omega, h8⟩, fun hz => by omega, fun hz => h hz.2⟩, fun h hz => ?_⟩
        exact h.2.2 ⟨h9, hz⟩
      · refine iff_of_true ?_ ⟨⟨by omega, h8⟩, fun hz => by omega, fun hz => by omega⟩
        by_cases hlui : (Iss.opcode f.data).toNat = 0x0f
        · exact agrees_lui hx h32 hd hlui
        · refine agrees_immediate hx h32 hr hd ?_
          simp only [List.mem_cons, List.not_mem_nil, or_false]
          omega

/-! ## Executions at fixed registers -/

/-- The unit reads the operands of `u` straight from `v`, in 32-bit mode. -/
def RegView.issue (v : RegView) (u : Uop) : AluIn where
  uop := u
  srcA := narrow true (v.gpr (u.srcA.setWidth 5))
  srcB := narrow true (v.gpr (u.srcB.setWidth 5))
  srcC := narrow true (v.gpr (u.srcC.setWidth 5))
  hilo := v.hilo
  fcr := v.fcr
  cpr0SrcA := 0
  monitorRspData := 0
  in32bMode := true
  in32fpRegMode := false
  starts := true

theorem executes_issue (v : RegView) (u : Uop) : Executes v u (v.issue u) := by
  constructor <;> intros <;> rfl

/-- The physical registers that hold the interpreter's registers. -/
def Iss.view (s : Iss) : RegView where
  gpr r := (s.gpr r).setWidth 64
  hilo := s.hi ++ s.lo
  fcr := s.fcr25.setWidth 8

theorem regsAgree_view (s : Iss) : RegsAgree s.view s :=
  ⟨fun r => lo32_setWidth (s.gpr r), rfl⟩

/-- Every register holds its own number. -/
def Iss.numbered : Iss where
  pc := 0
  gpr r := r.setWidth 32
  lo := 0
  hi := 0
  cpr0 := fun _ => 0
  fcr25 := 0

/-- `addu $1, $2, $3` -/
theorem integer_agrees_addu :
    Agrees false { data := 0x00430821#32 }
      (Iss.numbered.view.issue (decodeMips32 false { data := 0x00430821#32 })) Iss.numbered := by
  refine (integer_agrees_iff (executes_issue _ _) rfl (regsAgree_view _) (.inl ⟨rfl, by decide⟩)
    (by decide)).mpr ⟨⟨by decide, by decide⟩, fun h => ?_, fun h => ?_⟩
  · exact absurd h.2.1 (by decide)
  · exact absurd h.1 (by decide)

/-- `add $1, $2, $3`: the interpreter writes the sum, the decoder does not know the word. -/
theorem exists_integer_disagrees :
    ¬∀ (m : Bool) (f : InsnFetch) (v : RegView) (a : AluIn) (s : Iss),
      Executes v (decodeMips32 m f) a → a.in32bMode = true → RegsAgree v s →
        Iss.IntegerWord f.data → dstReg f.data ≠ 0 → Agrees m f a s := by
  intro h
  have hadd := h false { data := 0x00430820#32 } _ _ Iss.numbered (executes_issue _ _) rfl
    (regsAgree_view _) (.inl ⟨rfl, by decide⟩) (by decide)
  exact not_agrees rfl hadd

end MipsCore
