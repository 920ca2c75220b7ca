import MipsCore.Core.Signals
import MipsCore.Iss.Integer

/-! # Link registers

JAL, JALR, BAL and BGEZAL with their delay slots, in the integer unit and in the
interpreter.  The interpreter runs the delay slot in the middle of the branch, the
unit executes the two uops in program order.
-/
namespace MipsCore
open Function (update)
open Iss (dstReg)

/-! ## The interpreter -/

namespace Iss

/-- JAL, JALR, and the branch of class REGIMM that links. -/
def LinkWord (w : BitVec 32) : Prop :=
  (opcode w).toNat = 3 ∨ (opcode w).toNat = 0 ∧ (funct w).toNat = 9 ∨
    (opcode w).toNat = 1 ∧ (rt w).toNat = 17

variable (slot : Iss → Option Iss) (s : Iss) (inst : BitVec 32)

/-- The JAL arm: `slot` is the recursive call of `execMips`. -/
def jal : Option Iss :=
  let t := (s.set 31 (s.pc + 8)).next
  let jaddr := (inst.extractLsb' 0 26).setWidth 32 <<< 2 ||| t.pc &&& 0xf0000000
  (slot t).map fun t => { t with pc := jaddr }

/-- The JALR arm, which links in register 31 whatever `rd` says. -/
def jalr : Option Iss :=
  let jaddr := s.gpr (rs inst)
  (slot (s.set 31 (s.pc + 8)).next).map fun t => { t with pc := jaddr }

/-- `branch<EL, branch_type::bgezal>`, which links after the delay slot. -/
def bgezal : Option Iss :=
  let imm := simm32 inst <<< 2
  let npc := s.pc + 4
  let takeBranch := !(s.gpr (rs inst)).msb
  (slot s.next).map fun t => if takeBranch then { t.set 31 (npc + 4) with pc := imm + npc } else t

/-- `execMips` on a word that links. -/
def execLink : Option Iss :=
  match (opcode inst).toNat with
  | 3 => s.jal slot inst
  | 0 => s.jalr slot inst
  | _ => s.bgezal slot inst

/-- The state on which the delay slot runs. -/
def enterSlot : Iss :=
  if (opcode inst).toNat = 3 ∨ (opcode inst).toNat = 0 then (s.set 31 (s.pc + 8)).next else s.next

/-- The registers that the delay slot leaves to the end of the branch. -/
def leaveSlot (g : ArchReg → BitVec 32) : ArchReg → BitVec 32 :=
  if (opcode inst).toNat = 3 ∨ (opcode inst).toNat = 0 ∨ (s.gpr (rs inst)).msb then g
  else update g 31 (s.pc + 8)

/-- A branch runs its delay slot once, between what it does before and what it does after. -/
theorem execLink_gpr : (s.execLink slot inst).map Iss.gpr =
    (slot (s.enterSlot inst)).map fun t => s.leaveSlot inst t.gpr := by
  have hpc : s.pc + 4#32 + 4#32 = s.pc + 8#32 := by rw [BitVec.add_assoc]; rfl
  unfold execLink enterSlot leaveSlot
  split
  case h_1 h =>
    rw [jal, Option.map_map, if_pos (Or.inl h)]
    refine congrArg (Option.map · _) (funext fun t => ?_)
    simp [h]
  case h_2 h =>
    rw [jalr, Option.map_map, if_pos (Or.inr h)]
    refine congrArg (Option.map · _) (funext fun t => ?_)
    simp [h]
  case h_3 h1 h2 =>
    have hne : ¬((opcode inst).toNat = 3 ∨ (opcode inst).toNat = 0) := fun h => h.elim h1 h2
    rw [bgezal, Option.map_map, if_neg hne]
    refine congrArg (Option.map · _) (funext fun t => ?_)
    simp only [← or_assoc, or_iff_right hne]
    cases hm : (s.gpr (rs inst)).msb <;> simp [set, hpc]

/-- The register that the instruction names. -/
def linkReg : ArchReg := if (opcode inst).toNat = 0 then rd inst else 31

/-- The registers after the link: each of the instructions links whether it branches or not,
and register 0 stays as it is. -/
def linked : ArchReg → BitVec 32 :=
  if linkReg inst = 0 then s.gpr else update s.gpr (linkReg inst) (s.pc + 8)

end Iss

/-! ## The integer unit -/

/-- The integer registers after a uop, in program order.  The unit writes whatever `dst_valid`
says: a destination that is not renamed keeps the number 0, the physical register to which reset
maps register 0. -/
def unitWrites (u : Uop) (a : AluIn) (g : ArchReg → Word) : ArchReg → Word :=
  if !Core.folds u && (Alu.run a).wrIntPrf then
    update g (u.dst.setWidth 5) (narrow a.in32bMode (Alu.run a).result)
  else g

theorem unitWrites_eq {u : Uop} {a : AluIn} {g : ArchReg → Word} {r : ArchReg} {x : Word}
    (hf : Core.folds u = false) (hr : u.dst.setWidth 5 = r)
    (hrun : (Alu.run a).wrIntPrf = true ∧ (Alu.run a).result = x) :
    unitWrites u a g = update g r (narrow a.in32bMode x) := by
  rw [unitWrites, hf, hrun.1, hrun.2, hr]
  rfl

section Renamed
variable {s : Core} {e e' : Exec} {a : AluIn} (hf : Core.folds s.tUop = false)
  (hd : s.tUop.dstValid = true) (hwr : (Alu.run a).wrIntPrf = true)
  (hres : e'.intPrf s.nPrfEntry = narrow a.in32bMode (Alu.run a).result)
  (hkeep : ∀ r, e'.intPrf (s.allocRat r) = e.intPrf (s.allocRat r))
include hf hd hwr hres hkeep

/-- The slot in the second port of the branch's allocation sees what the branch writes. -/
theorem view2_unitWrites : (s.view2 e').gpr = unitWrites s.tUop a (s.view e).gpr := by
  rw [unitWrites_eq hf rfl ⟨hwr, rfl⟩]
  funext r
  change e'.intPrf (if s.tUop.dstValid && r == s.tUop.dst.setWidth 5 then s.nPrfEntry
    else s.allocRat r) = _
  by_cases h : r = s.tUop.dst.setWidth 5
  · subst h
    rw [Function.update_self, if_pos (by simp [hd]), hres]
  · rw [Function.update_of_ne h, if_neg (by simp [h]), hkeep]
    rfl

/-- The slot of a later allocation sees it in the map that the branch leaves. -/
theorem view_unitWrites {i : CoreIn} (hal : s.allocates i = true) (htwo : s.allocatesTwo i = false)
    (hfl : s.flushes = false) :
    ((s.step i).view e').gpr = unitWrites s.tUop a (s.view e).gpr := by
  have hrat : (s.step i).allocRat = update s.allocRat (s.tUop.dst.setWidth 5) s.nPrfEntry := by
    simp [Core.step, Core.clock, Core.nAllocRat, hal, htwo, hfl, hd]
  rw [unitWrites_eq hf rfl ⟨hwr, rfl⟩]
  funext r
  change e'.intPrf ((s.step i).allocRat r) = _
  rw [hrat]
  by_cases h : r = s.tUop.dst.setWidth 5
  · subst h
    rw [Function.update_self, Function.update_self, hres]
  · rw [Function.update_of_ne h, Function.update_of_ne h, hkeep]
    rfl

end Renamed

/-- A delay slot: what it makes of the unit's registers and of the interpreter's state. -/
structure Slot where
  unit : (ArchReg → Word) → ArchReg → Word
  iss : Iss → Option Iss

/-- The unit and the interpreter execute the slot alike, up to what the branch does afterwards. -/
def Slot.Alike (d : Slot) (g : ArchReg → Word) (s : Iss)
    (leave : (ArchReg → BitVec 32) → ArchReg → BitVec 32) : Prop :=
  ∃ t, d.iss s = some t ∧ ∀ r, lo32 (d.unit g r) = leave t.gpr r

/-- The link: in both machines the slot sees the register that the instruction names with the
return address in it and every other register as it was, and after branch and slot both register
files are the same. -/
structure LinkAgrees (m : Bool) (f : InsnFetch) (v : RegView) (a : AluIn) (s : Iss) (d : Slot) :
    Prop where
  unit : ∀ r, lo32 (unitWrites (decodeMips32 m f) a v.gpr r) = s.linked f.data r
  iss : (s.enterSlot f.data).gpr = s.linked f.data
  same : ∃ t, s.execLink d.iss f.data = some t ∧
    ∀ r, lo32 (d.unit (unitWrites (decodeMips32 m f) a v.gpr) r) = t.gpr r

/-- The sign test of the unit. -/
def staysNonneg (in32b : Bool) (x : Word) : Bool :=
  if in32b then !x.getLsbD 31 else !x.getLsbD 63

/-- The registers that the slot sees in the unit: BGEZAL writes back register 31 when it does not
branch, and BAL does not read its source. -/
def unitLinks (in32b : Bool) (f : InsnFetch) (v : RegView) : ArchReg → Word :=
  update v.gpr (Iss.linkReg f.data) <| narrow in32b <|
    if (Iss.opcode f.data).toNat = 1 ∧ Iss.rs f.data ≠ 0 ∧
      staysNonneg in32b (v.gpr (Iss.rs f.data)) = false then v.gpr 31
    else f.pc + 8

/-- Both slots see the linked registers: JAL; JALR into register 31, or with the return address
already in both registers; BAL and BGEZAL with the return address already in register 31. -/
def Iss.LinksInPlace (s : Iss) (w : BitVec 32) : Prop :=
  if (opcode w).toNat = 3 then True
  else if (opcode w).toNat = 0 then
    rd w = 31 ∨ s.gpr 31 = s.pc + 8 ∧ s.gpr (rd w) = s.pc + 8
  else s.gpr 31 = s.pc + 8

/-- Where both machines link alike: the slots see the linked registers, and what they make of them
is the same after the branch. -/
def Links (in32b : Bool) (f : InsnFetch) (v : RegView) (s : Iss) (d : Slot) : Prop :=
  s.LinksInPlace f.data ∧ d.Alike (unitLinks in32b f v) (s.enterSlot f.data) (s.leaveSlot f.data)

section Unit
variable {m : Bool} {f : InsnFetch} {v : RegView} {a : AluIn}
  (hx : Executes v (decodeMips32 m f) a)
include hx

theorem unitWrites_jal (hop : (Iss.opcode f.data).toNat = 3) :
    unitWrites (decodeMips32 m f) a v.gpr = unitLinks a.in32bMode f v := by
  have hdec := decode_start m f
  have hop' : (Decode.opcode f.data).toNat = 3 := hop
  simp only [Decode.majorOp, hop'] at hdec
  rw [hdec] at hx ⊢
  have hsome : a.uop.op = .JAL := hx.op
  have hpc : a.uop.pc = f.pc := hx.pc
  have hlink : Iss.linkReg f.data = 31 := by simp [Iss.linkReg, hop]
  rw [unitLinks, hlink, if_neg (by simp [hop])]
  refine unitWrites_eq rfl rfl ?_
  simp only [Alu.run, hsome, Alu.pc8, hpc, and_self]

theorem unitWrites_jalr (hop : (Iss.opcode f.data).toNat = 0) (hfn : (Iss.funct f.data).toNat = 9) :
    unitWrites (decodeMips32 m f) a v.gpr = unitLinks a.in32bMode f v := by
  have hdec := decode_rtype (m := m) hop
  have hfn' : (Decode.funct f.data).toNat = 9 := hfn
  simp only [Decode.rtype, hfn'] at hdec
  rw [hdec] at hx ⊢
  have hsome : a.uop.op = .JALR := hx.op
  have hpc : a.uop.pc = f.pc := hx.pc
  have hlink : Iss.linkReg f.data = Iss.rd f.data := if_pos hop
  rw [unitLinks, hlink, if_neg (by simp [hop])]
  refine unitWrites_eq rfl (setWidth_setWidth_archReg _) ?_
  simp only [Alu.run, hsome, Alu.pc8, hpc, and_self]

theorem unitWrites_bgezal (hop : (Iss.opcode f.data).toNat = 1) (hrt : (Iss.rt f.data).toNat = 17) :
    unitWrites (decodeMips32 m f) a v.gpr = unitLinks a.in32bMode f v := by
  have hdec := decode_start m f
  have hop' : (Decode.opcode f.data).toNat = 1 := hop
  have hrt' : (f.data.extractLsb' 16 5).toNat = 17 := hrt
  simp only [Decode.majorOp, hop', Decode.regimm, hrt'] at hdec
  have hiff : Decode.rs f.data = 0 ↔ Iss.rs f.data = 0 := setWidth_eq_zero
  have hlink : Iss.linkReg f.data = 31 := by simp [Iss.linkReg, hop]
  by_cases hz : Iss.rs f.data = 0
  · rw [if_pos (hiff.mpr hz)] at hdec
    rw [hdec] at hx ⊢
    have hsome : a.uop.op = .BAL := hx.op
    have hpc : a.uop.pc = f.pc := hx.pc
    rw [unitLinks, hlink, if_neg fun h => h.2.1 hz]
    refine unitWrites_eq rfl rfl ?_
    simp only [Alu.run, hsome, Alu.pc8, hpc, and_self]
  · rw [if_neg (hiff.not.mpr hz)] at hdec
    rw [hdec] at hx ⊢
    have hsome : a.uop.op = .BGEZAL := hx.op
    have hpc : a.uop.pc = f.pc := hx.pc
    have hA : a.srcA = narrow a.in32bMode (v.gpr (Iss.rs f.data)) := by
      rw [hx.srcA rfl rfl]
      exact congrArg (fun r => narrow a.in32bMode (v.gpr r)) (setWidth_setWidth_archReg _)
    have hB : a.srcB = narrow a.in32bMode (v.gpr 31) := by
      refine hx.srcB ?_ rfl
      simpa using hiff.not.mpr hz
    have hsign : Alu.signClear a = staysNonneg a.in32bMode (v.gpr (Iss.rs f.data)) := by
      rw [Alu.signClear, staysNonneg, hA]
      cases a.in32bMode <;> simp [narrow, lo32_eq]
    have hrun : (Alu.run a).wrIntPrf = true ∧ (Alu.run a).result =
        if staysNonneg a.in32bMode (v.gpr (Iss.rs f.data)) then f.pc + 8
        else narrow a.in32bMode (v.gpr 31) := by
      simp only [Alu.run, hsome, Alu.pc8, hpc, hsign, hB, and_self]
    rw [unitLinks, hlink]
    refine (unitWrites_eq rfl rfl hrun).trans (congrArg (update v.gpr 31) ?_)
    cases hs : staysNonneg a.in32bMode (v.gpr (Iss.rs f.data)) with
    | true => rw [if_pos rfl, if_neg (by simp)]
    | false => rw [if_neg Bool.false_ne_true, if_pos ⟨hop, hz, rfl⟩, narrow_narrow]

theorem unitWrites_link (hw : Iss.LinkWord f.data) :
    unitWrites (decodeMips32 m f) a v.gpr = unitLinks a.in32bMode f v := by
  rcases hw with hop | ⟨hop, hfn⟩ | ⟨hop, hrt⟩
  · exact unitWrites_jal hx hop
  · exact unitWrites_jalr hx hop hfn
  · exact unitWrites_bgezal hx hop hrt

end Unit

/-! ## Where the machines agree -/

section Agree
variable {f : InsnFetch} {v : RegView} {s : Iss} {b : Bool} {g : ArchReg → BitVec 32}

theorem update_eq_self_iff {r : ArchReg} {x : BitVec 32} : update g r x = g ↔ g r = x :=
  ⟨fun h => by rw [← h]; simp, fun h => by rw [← h]; simp⟩

/-- Two registers that are given the same value are one, or both hold it already. -/
theorem update_eq_update_iff {r t : ArchReg} {x : BitVec 32} :
    update g r x = update g t x ↔ t = r ∨ g r = x ∧ g t = x := by
  refine ⟨fun h => ?_, ?_⟩
  · by_cases htr : t = r
    · exact Or.inl htr
    · have hr := congrFun h r
      have ht := congrFun h t
      rw [Function.update_self, Function.update_of_ne (Ne.symm htr)] at hr
      rw [Function.update_of_ne htr, Function.update_self] at ht
      exact Or.inr ⟨hr.symm, ht⟩
  · rintro (rfl | ⟨hr, ht⟩)
    · rfl
    · rw [update_eq_self_iff.mpr hr, update_eq_self_iff.mpr ht]

/-- The contents of the unit's registers after the link. -/
theorem lo32_unitLinks (hr : RegsAgree v s) (hpc : lo32 f.pc = s.pc) :
    (fun r => lo32 (unitLinks b f v r)) = update s.gpr (Iss.linkReg f.data)
      (if (Iss.opcode f.data).toNat = 1 ∧ Iss.rs f.data ≠ 0 ∧
        staysNonneg b (v.gpr (Iss.rs f.data)) = false then s.gpr 31 else s.pc + 8) := by
  funext r
  by_cases h : r = Iss.linkReg f.data
  · subst h
    rw [unitLinks, Function.update_self, Function.update_self, lo32_narrow]
    split_ifs
    · exact hr.gpr 31
    · rw [lo32_add, hpc]
      rfl
  · rw [unitLinks, Function.update_of_ne h, Function.update_of_ne h]
    exact hr.gpr r

/-- The slot sees the linked registers in both machines. -/
theorem sees_iff (hr : RegsAgree v s) (hpc : lo32 f.pc = s.pc) (hw : Iss.LinkWord f.data) :
    (∀ r, lo32 (unitLinks b f v r) = s.linked f.data r) ∧
        (s.enterSlot f.data).gpr = s.linked f.data ↔ s.LinksInPlace f.data := by
  rw [← funext_iff, lo32_unitLinks hr hpc, Iss.LinksInPlace]
  rcases hw with hop | ⟨hop, -⟩ | ⟨hop, -⟩
  · have hlink : Iss.linkReg f.data = 31 := by simp [Iss.linkReg, hop]
    simp [Iss.linked, Iss.enterSlot, hlink, hop, Iss.set, Iss.next]
  · have hlink : Iss.linkReg f.data = Iss.rd f.data := if_pos hop
    have henter : (s.enterSlot f.data).gpr = update s.gpr 31 (s.pc + 8) := by
      rw [Iss.enterSlot, if_pos (Or.inr hop)]
      rfl
    have hbr : ¬((Iss.opcode f.data).toNat = 1 ∧ Iss.rs f.data ≠ 0 ∧
        staysNonneg b (v.gpr (Iss.rs f.data)) = false) := fun h => by omega
    have hjal : (Iss.opcode f.data).toNat ≠ 3 := by omega
    rw [henter, Iss.linked, hlink, if_neg hbr, if_neg hjal, if_pos hop]
    split_ifs with hz
    · rw [hz, update_eq_self_iff, update_eq_self_iff, and_comm]
      exact (or_iff_right (by decide)).symm
    · rw [and_iff_right rfl, update_eq_update_iff]
  · have hlink : Iss.linkReg f.data = 31 := by simp [Iss.linkReg, hop]
    have henter : (s.enterSlot f.data).gpr = s.gpr := by
      rw [Iss.enterSlot, if_neg (by omega)]
      rfl
    have hreg : (31 : ArchReg) ≠ 0 := by decide
    rw [henter, Iss.linked, hlink, if_neg hreg, if_neg (by omega : (Iss.opcode f.data).toNat ≠ 3),
      if_neg (by omega : (Iss.opcode f.data).toNat ≠ 0),
      eq_comm (a := s.gpr) (b := update s.gpr 31 (s.pc + 8)), update_eq_self_iff]
    refine and_iff_right_of_imp fun h => ?_
    split_ifs
    · rw [h]
    · rfl

/-- What branch and slot leave in both machines. -/
theorem execLink_iff {d : Slot} {w : BitVec 32} {g : ArchReg → Word} :
    (∃ t, s.execLink d.iss w = some t ∧ ∀ r, lo32 (d.unit g r) = t.gpr r) ↔
      d.Alike g (s.enterSlot w) (s.leaveSlot w) := by
  have h := Iss.execLink_gpr d.iss s w
  rw [Slot.Alike]
  cases hd : d.iss (s.enterSlot w) with
  | none =>
    rw [hd, Option.map_none, Option.map_eq_none_iff] at h
    simp [h]
  | some t =>
    rw [hd, Option.map_some, Option.map_eq_some_iff] at h
    obtain ⟨t', ht, hg⟩ := h
    simp [ht, hg]

end Agree

/-- For every link, operand and delay slot: both machines link alike exactly where they reach the
same registers before the slot, those with the return address in the register that the
instruction names, and execute the slot alike. -/
theorem linkAgrees_iff {m : Bool} {f : InsnFetch} {v : RegView} {a : AluIn} {s : Iss} {d : Slot}
    (hx : Executes v (decodeMips32 m f) a) (hr : RegsAgree v s) (hpc : lo32 f.pc = s.pc)
    (hw : Iss.LinkWord f.data) : LinkAgrees m f v a s d ↔ Links a.in32bMode f v s d := by
  rw [Links, ← sees_iff (b := a.in32bMode) hr hpc hw, ← execLink_iff, ← unitWrites_link hx hw]
  exact ⟨fun h => ⟨⟨h.unit, h.iss⟩, h.same⟩, fun h => ⟨h.1.1, h.1.2, h.2⟩⟩

/-! ## Delay slots of the integer groups -/

/-- The word of `f` in the slot, in 32-bit mode: the rest of the registers is that of `v`. -/
def Slot.integer (m : Bool) (f : InsnFetch) (v : RegView) : Slot where
  unit g := unitWrites (decodeMips32 m f) ({ v with gpr := g }.issue (decodeMips32 m f)) g
  iss t := t.execMips f.data

theorem unitWrites_of_aluWrite {u : Uop} {a : AluIn} {g : ArchReg → Word} {r : ArchReg} {x : Word}
    (h : aluWrite u a = some (r, x)) : unitWrites u a g = update g r x := by
  unfold aluWrite at h
  split_ifs at h with hc
  obtain ⟨rfl, rfl⟩ := Prod.mk.inj (Option.some.inj h)
  simp only [Bool.and_eq_true] at hc
  rw [unitWrites, if_pos (by simp [hc])]

/-- A word that both machines execute alike makes a slot that they execute alike. -/
theorem integer_alike {m : Bool} {f : InsnFetch} {v : RegView} {g : ArchReg → Word} {s : Iss}
    (hr : RegsAgree { v with gpr := g } s) (hw : Iss.IntegerWord f.data) (hd : dstReg f.data ≠ 0)
    (hdec : Iss.Decoded f.data) (h0 : s.gpr 0 = 0) : (Slot.integer m f v).Alike g s id := by
  have hz : s.ZeroAgrees f.data := by
    refine ⟨fun _ => ?_, fun _ => h0⟩
    rw [h0]
    exact BitVec.zero_or
  obtain ⟨x, hx, hs⟩ :=
    (integer_agrees_iff (executes_issue _ (decodeMips32 m f)) rfl hr hw hd).mpr ⟨hdec, hz⟩
  refine ⟨_, hs, fun r => ?_⟩
  change lo32 (unitWrites _ _ g r) = update s.gpr _ _ r
  rw [unitWrites_of_aluWrite hx]
  by_cases h : r = dstReg f.data
  · subst h
    rw [Function.update_self, Function.update_self]
  · rw [Function.update_of_ne h, Function.update_of_ne h]
    exact hr.gpr r

/-- JAL, and JALR into register 31, link alike in front of every integer word. -/
theorem linkAgrees_integer {m m' : Bool} {f f' : InsnFetch} {v : RegView} {a : AluIn} {s : Iss}
    (hx : Executes v (decodeMips32 m f) a) (hr : RegsAgree v s) (hpc : lo32 f.pc = s.pc)
    (hlink : (Iss.opcode f.data).toNat = 3 ∨ (Iss.opcode f.data).toNat = 0 ∧
      (Iss.funct f.data).toNat = 9 ∧ Iss.rd f.data = 31)
    (hw : Iss.IntegerWord f'.data) (hd : dstReg f'.data ≠ 0) (hdec : Iss.Decoded f'.data)
    (h0 : s.gpr 0 = 0) : LinkAgrees m f v a s (Slot.integer m' f' v) := by
  have hop : (Iss.opcode f.data).toNat = 3 ∨ (Iss.opcode f.data).toNat = 0 :=
    hlink.imp id fun h => h.1
  have hword : Iss.LinkWord f.data := hlink.imp id fun h => Or.inl ⟨h.1, h.2.1⟩
  have hreg : Iss.linkReg f.data = 31 := by
    rcases hlink with h | ⟨h, -, hrd⟩
    · simp [Iss.linkReg, h]
    · rw [Iss.linkReg, if_pos h, hrd]
  have hplace : s.LinksInPlace f.data := by
    rw [Iss.LinksInPlace]
    rcases hlink with h | ⟨h, -, hrd⟩
    · rw [if_pos h]
      trivial
    · rw [if_neg (by omega), if_pos h]
      exact Or.inl hrd
  have hsees := (sees_iff (b := a.in32bMode) hr hpc hword).mpr hplace
  refine (linkAgrees_iff hx hr hpc hword).mpr ⟨hplace, ?_⟩
  have hleave : s.leaveSlot f.data = id := by
    funext g
    rw [Iss.leaveSlot, if_pos (or_assoc.mp (Or.inl hop))]
    rfl
  rw [hleave]
  have hfcr : (s.enterSlot f.data).fcr25 = s.fcr25 := by
    rw [Iss.enterSlot, if_pos hop]
    rfl
  refine integer_alike ⟨fun r => ?_, hr.fcr.trans (by rw [hfcr])⟩ hw hd hdec ?_
  · rw [hsees.2]
    exact hsees.1 r
  · rw [hsees.2, Iss.linked, hreg, if_neg (by decide), Function.update_of_ne (by decide)]
    exact h0

/-! ## Links at fixed registers -/

/-- The link of the word `w` at pc 0 in front of `addu $6, $31, $0`, in 32-bit mode. -/
def LinkAgreesAt (s : Iss) (w : BitVec 32) : Prop :=
  LinkAgrees false { data := w } s.view (s.view.issue (decodeMips32 false { data := w })) s
    (Slot.integer false { data := 0x03e03021#32, pc := 4 } s.view)

/-- `jal 0x40` -/
theorem linkAgrees_jal : LinkAgreesAt Iss.numbered 0x0c000010#32 := by
  refine (linkAgrees_iff (executes_issue _ _) (regsAgree_view _) rfl (.inl rfl)).mpr ⟨trivial, ?_⟩
  refine integer_alike (f := { data := 0x03e03021#32, pc := 4 }) ⟨by decide, rfl⟩
    (.inl ⟨rfl, by decide⟩) (by decide) ⟨by decide, by decide⟩ rfl

/-- `jalr $5, $2`: the interpreter links in register 31.  `bgezal $2, 16`: the interpreter's slot
reads register 31 before the link, and without a branch neither machine links. -/
theorem not_linkAgrees : ¬LinkAgreesAt Iss.numbered 0x00402809#32 ∧
    ¬LinkAgreesAt Iss.numbered 0x04510004#32 ∧
    ¬LinkAgreesAt (Iss.numbered.set 2 (-1)) 0x04510004#32 := by
  refine ⟨fun h => ?_, fun h => ?_, fun h => ?_⟩
  · exact absurd (congrFun h.iss 5) (by decide)
  · exact absurd (congrFun h.iss 31) (by decide)
  · exact absurd (h.unit 31) (by decide)

end MipsCore
