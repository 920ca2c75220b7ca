import MipsCore.Iss.Interpreter
import MipsCore.L1i.Jump

/-! # Branches

Conditional branches and indirect jumps from the fetch that predicts them to the
completion that checks them: predecode, decode and the integer unit read the word each
for itself, and together they go where the interpreter goes.
-/
namespace MipsCore
open Clocked (Guarded)

/-- Where a transfer leads: whether its delay slot takes effect, and what follows behind it. -/
structure Path where
  slot : Bool
  pc : BitVec 32
  deriving DecidableEq

/-! ## The interpreter -/

namespace IssState
open Iss (opcode funct rs rt fmt)
variable (s : IssState) (w : BitVec 32)

/-- The condition of a branch and whether it is a likely one; an indirect jump is no branch. -/
def branchOf : Option (Bool × Bool) :=
  match (opcode w).toNat with
  | 0x01 =>
    match (rt w).toNat with
    | 0 => some (s.isLtz w, false)
    | 1 | 17 => some (s.isGez w, false)
    | 2 => some (s.isLtz w, true)
    | 3 => some (s.isGez w, true)
    | _ => none
  | 0x04 => some (s.isEq w, false)
  | 0x05 => some (s.isNe w, false)
  | 0x06 => some (s.isLez w, false)
  | 0x07 => some (s.isGtz w, false)
  | 0x11 =>
    if fmt w = 8 then
      some (if w.getLsbD 16 then s.isTrue w else s.isFalse w, w.getLsbD 17)
    else none
  | 0x14 => some (s.isEq w, true)
  | 0x15 => some (s.isNe w, true)
  | 0x16 => some (s.isLez w, true)
  | 0x17 => some (s.isGtz w, true)
  | _ => none

/-- Behind a branch: its delay slot unless it is a likely one that is not taken, and the target
or the word behind the slot. -/
def branchPath (take likely : Bool) : Path where
  slot := take || !likely
  pc := if take then Iss.simm32 w <<< 2 + (s.pc + 4) else s.pc + 8

/-- The state on which the delay slot runs. -/
def entered : IssState :=
  if (opcode w).toNat = 0 ∧ (funct w).toNat = 9 then (s.set 31 (s.pc + 8)).next else s.next

/-- The interpreter takes a path, whatever the host does and whatever is in the slot, as long as
that is no transfer itself. -/
def Takes (p : Path) : Prop :=
  ∀ (h : Host) (slot : IssState → Option IssState),
    (∀ u t, slot u = some t → t.pc = u.pc + 4) →
      (s.exec h slot w).map (fun t => t.pc) =
        if p.slot then (slot (s.entered w)).map fun _ => p.pc else some p.pc

variable {s w}

theorem add_four_four (x : BitVec 32) : x + 4 + 4 = x + 8 := by
  rw [BitVec.add_assoc]
  rfl

theorem map_branch {slot : IssState → Option IssState}
    (hslot : ∀ u t, slot u = some t → t.pc = u.pc + 4) (take likely link : Bool) :
    (s.branch slot w take likely link).map (fun t => t.pc) =
      if (s.branchPath w take likely).slot then
        (slot s.next).map fun _ => (s.branchPath w take likely).pc
      else some (s.branchPath w take likely).pc := by
  have hnext : ∀ t, slot s.next = some t → t.pc = s.pc + 8 := fun t ht =>
    (hslot _ t ht).trans (add_four_four _)
  rw [branch]
  cases take with
  | true =>
    cases likely with
    | true =>
      change ((slot s.next).map _).map _ = (slot s.next).map _
      rw [Option.map_map]
      rfl
    | false =>
      change ((slot s.next).map _).map _ = (slot s.next).map _
      rw [Option.map_map]
      cases link <;> rfl
  | false =>
    cases likely with
    | true => exact congrArg some (add_four_four s.pc)
    | false =>
      change ((slot s.next).map _).map _ = (slot s.next).map _
      rw [Option.map_map]
      cases ht : slot s.next with
      | none => rfl
      | some t => exact congrArg some (hnext t ht)

theorem bc1_eq (slot : IssState → Option IssState) : s.bc1 slot w =
    s.branch slot w (if w.getLsbD 16 then s.isTrue w else s.isFalse w) (w.getLsbD 17) false := by
  have hbits : w.extractLsb' 16 2 = BitVec.ofBool (w.getLsbD 17) ++ BitVec.ofBool (w.getLsbD 16) := by
    refine BitVec.eq_of_getLsbD_eq fun i hi => ?_
    simp only [BitVec.getLsbD_extractLsb', BitVec.getLsbD_append, hi]
    grind
  rw [bc1, hbits]
  cases w.getLsbD 17 <;> cases w.getLsbD 16 <;> rfl

theorem exec_branchOf (h : Host) (slot : IssState → Option IssState) {take likely : Bool}
    (hb : s.branchOf w = some (take, likely)) :
    ∃ link, s.exec h slot w = s.branch slot w take likely link := by
  unfold branchOf at hb
  unfold exec
  split at hb
  case h_1 hop =>
    rw [hop]
    change ∃ link, s.bgezBltz slot w = _
    unfold bgezBltz
    split at hb
    case h_2 hrt =>
      rw [hrt]
      cases hb
      exact ⟨false, rfl⟩
    case h_3 hrt =>
      rw [hrt]
      cases hb
      exact ⟨true, rfl⟩
    case h_6 => cases hb
    all_goals
      next hrt =>
      rw [hrt]
      cases hb
      exact ⟨false, rfl⟩
  case h_6 hop =>
    rw [hop]
    split at hb
    · next hfmt =>
      cases hb
      change ∃ link, s.execCoproc1 h slot w = _
      rw [execCoproc1, if_pos hfmt]
      exact ⟨false, bc1_eq slot⟩
    · cases hb
  case h_11 => cases hb
  all_goals
    next hop =>
    rw [hop]
    cases hb
    exact ⟨false, rfl⟩

/-- A branch takes the path of its condition. -/
theorem takes_branch {take likely : Bool} (hb : s.branchOf w = some (take, likely)) :
    s.Takes w (s.branchPath w take likely) := by
  intro h slot hslot
  obtain ⟨link, he⟩ := exec_branchOf h slot hb
  have hne : (opcode w).toNat ≠ 0 := fun h0 => by rw [branchOf, h0] at hb; cases hb
  have hent : s.entered w = s.next := if_neg fun h => hne h.1
  rw [he, hent, map_branch hslot]

/-- JR and JALR. -/
def IndirectWord (w : BitVec 32) : Prop :=
  (opcode w).toNat = 0 ∧ ((funct w).toNat = 8 ∨ (funct w).toNat = 9)

/-- An indirect jump goes to the register, as it was before the slot. -/
theorem takes_indirect (hw : IndirectWord w) : s.Takes w { slot := true, pc := s.gpr (rs w) } := by
  intro h slot _
  obtain ⟨hop, hfn⟩ := hw
  rw [exec, hop]
  change (s.execRtype h slot w).map _ = (slot (s.entered w)).map _
  rcases hfn with hfn | hfn
  · rw [execRtype, hfn, entered, if_neg (by omega)]
    change ((slot s.next).map _).map _ = _
    rw [Option.map_map]
    rfl
  · rw [execRtype, hfn, entered, if_pos ⟨hop, hfn⟩]
    change ((slot _).map _).map _ = _
    rw [Option.map_map]
    rfl

end IssState

/-! ## The unit -/

/-- The target of a branch. -/
def branchDest (f : InsnFetch) : Word :=
  (f.pc + 4 : Word) + ((f.data.extractLsb' 0 16).signExtend 64 : Word) <<< 2

/-- A uop that decode makes of a branch. -/
structure BranchUop (u : Uop) (f : InsnFetch) (op : Opcode) (likely : Bool) : Prop where
  op : u.op = op
  pc : u.pc = f.pc
  imm : u.imm = f.data.extractLsb' 0 16
  brPred : u.brPred = f.pred
  slot : u.hasDelaySlot = true
  nullifies : u.hasNullifyingDelaySlot = likely

/-- What the unit makes of a branch: some likely branches, not taken, always restart. -/
structure Decides (u : Uop) (f : InsnFetch) (a : AluIn) (take likely : Bool) : Prop where
  takes : (Alu.run a).takeBr = take
  pc : (Alu.run a).pc = if take then branchDest f else f.pc + 8
  mispred : (Alu.run a).mispredBr = (f.pred != take) ∨
    likely = true ∧ (Alu.run a).mispredBr = (f.pred != take || !take)
  slot : u.hasDelaySlot = true
  nullifies : u.hasNullifyingDelaySlot = likely
  clean : (Alu.run a).unimpOp = false ∧ (Alu.run a).fault = false

section Unit
variable {m : Bool} {f : InsnFetch} {v : RegView} {a : AluIn} {s : IssState}

theorem BranchUop.decides {op : Opcode} {take likely : Bool}
    (hu : BranchUop (decodeMips32 m f) f op likely) (hx : Executes v (decodeMips32 m f) a)
    (hrun : a.uop.op = op → (Alu.run a).takeBr = take ∧ (Alu.run a).pc = Alu.branchPc a take ∧
      ((Alu.run a).mispredBr = (a.uop.brPred != take) ∨
        likely = true ∧ (Alu.run a).mispredBr = (a.uop.brPred != take || !take)) ∧
      (Alu.run a).unimpOp = false ∧ (Alu.run a).fault = false) :
    Decides (decodeMips32 m f) f a take likely := by
  obtain ⟨htake, hpc, hmis, hclean⟩ := hrun (hx.op.trans hu.op)
  have hpred : a.uop.brPred = f.pred := hx.brPred.trans hu.brPred
  have hpc' : a.uop.pc = f.pc := hx.pc.trans hu.pc
  have himm : a.uop.imm = f.data.extractLsb' 0 16 := hx.imm.trans hu.imm
  rw [hpred] at hmis
  refine ⟨htake, ?_, hmis, hu.slot, hu.nullifies, hclean⟩
  rw [hpc, Alu.branchPc, Alu.pc4, Alu.pc8, Alu.simm, hpc', himm]
  rfl

theorem run_branch {take : Bool} (h : Alu.run a = Alu.branch a take) (likely : Bool) :
    (Alu.run a).takeBr = take ∧ (Alu.run a).pc = Alu.branchPc a take ∧
      ((Alu.run a).mispredBr = (a.uop.brPred != take) ∨
        likely = true ∧ (Alu.run a).mispredBr = (a.uop.brPred != take || !take)) ∧
      (Alu.run a).unimpOp = false ∧ (Alu.run a).fault = false := by
  rw [h]
  exact ⟨rfl, rfl, .inl rfl, rfl, rfl⟩

theorem run_branchLikely {take : Bool} (h : Alu.run a = Alu.branchLikely a take) :
    (Alu.run a).takeBr = take ∧ (Alu.run a).pc = Alu.branchPc a take ∧
      ((Alu.run a).mispredBr = (a.uop.brPred != take) ∨
        true = true ∧ (Alu.run a).mispredBr = (a.uop.brPred != take || !take)) ∧
      (Alu.run a).unimpOp = false ∧ (Alu.run a).fault = false := by
  rw [h]
  exact ⟨rfl, rfl, .inr ⟨rfl, rfl⟩, rfl, rfl⟩

/-! ### Conditions -/

theorem beq_setWidth (x y : BitVec 32) : (x.setWidth 64 == y.setWidth 64) = (y == x) := by
  have h : x.setWidth 64 = y.setWidth 64 ↔ y = x :=
    ⟨fun h => by rw [← lo32_setWidth x, h, lo32_setWidth], fun h => by rw [h]⟩
  rw [Bool.eq_iff_iff, beq_iff_eq, beq_iff_eq, h]

section Sign
variable (h32 : a.in32bMode = true) {x : BitVec 32} (hA : a.srcA = x.setWidth 64)
include h32 hA

theorem ltZero_eq : Alu.ltZero a = x.slt 0 := by
  rw [Alu.ltZero, if_pos h32, hA, lo32_setWidth]

theorem leZero_eq : Alu.leZero a = x.sle 0 := by
  rw [Alu.leZero, if_pos h32, hA, lo32_setWidth]

theorem signClear_eq : Alu.signClear a = BitVec.sle 0 x := by
  have h : (x.setWidth 64).getLsbD 31 = x.msb := by
    rw [BitVec.getLsbD_setWidth, BitVec.msb_eq_getLsbD_last]
    rfl
  rw [Alu.signClear, if_pos h32, hA, h]
  exact BitVec.zero_sle_eq_not_msb.symm

end Sign

theorem fcrBit_eq {cc : BitVec 3} (hC : a.uop.srcC = cc.setWidth 6)
    (hfcr : a.fcr = s.fcr25.setWidth 8) :
    Alu.fcrBit a = !(s.getConditionCode cc == 0) := by
  have h := getConditionCode_ne_zero s.toIss cc
  rw [Alu.fcrBit, hC, extractLsb'_setWidth_cc, hfcr, Bool.eq_iff_iff, ← h]
  simp

theorem getConditionCode_cases (s : Iss) (cc : BitVec 3) :
    s.getConditionCode cc = 0 ∨ s.getConditionCode cc = 1 := by
  have h : ∀ x : BitVec 32, x &&& 1 = 0 ∨ x &&& 1 = 1 := by
    intro x
    have hx : x &&& 1 = (BitVec.ofBool (x.getLsbD 0)).setWidth 32 := by
      refine BitVec.eq_of_getLsbD_eq fun i hi => ?_
      rcases Nat.eq_zero_or_pos i with rfl | hpos
      · simp
      · have hne : i ≠ 0 := by omega
        simp [hne]
    rw [hx]
    cases x.getLsbD 0
    · exact .inl rfl
    · exact .inr rfl
  exact h _

variable (hx : Executes v (decodeMips32 m f) a) (h32 : a.in32bMode = true)
  (hr : RegsAgree v s.toIss)
include hx h32 hr

section Arms
variable {op : Opcode} {likely : Bool} {u : Uop}

/-- The branches of one operand. -/
theorem decides_one {p : AluIn → Bool} {take : Bool}
    (hdec : decodeMips32 m f = Decode.branchOne f.data op likely f.pred (startUop f))
    (hrun : a.uop.op = op → Alu.run a = Alu.branch a (p a) ∨
      likely = true ∧ Alu.run a = Alu.branchLikely a (p a))
    (hcond : a.srcA = (s.gpr (Iss.rs f.data)).setWidth 64 → p a = take) :
    Decides (decodeMips32 m f) f a take likely := by
  have hA := srcA_eq hx h32 hr hdec (decode_rs f.data) rfl rfl
  have hu : BranchUop (decodeMips32 m f) f op likely := by
    rw [hdec]
    exact ⟨rfl, rfl, rfl, rfl, rfl, rfl⟩
  refine hu.decides hx fun hop => ?_
  rw [hcond hA] at hrun
  rcases hrun hop with h | ⟨rfl, h⟩
  · exact run_branch h likely
  · exact run_branchLikely h

/-- The branches of two operands. -/
theorem decides_two {p : AluIn → Bool} {take : Bool}
    (hdec : decodeMips32 m f = Decode.branchTwo f.data op likely f.pred (startUop f))
    (hrun : a.uop.op = op → Alu.run a = Alu.branch a (p a) ∨
      likely = true ∧ Alu.run a = Alu.branchLikely a (p a))
    (hcond : a.srcA = (s.gpr (Iss.rs f.data)).setWidth 64 →
      a.srcB = (s.gpr (Iss.rt f.data)).setWidth 64 → p a = take) :
    Decides (decodeMips32 m f) f a take likely := by
  have hA := srcA_eq hx h32 hr hdec (decode_rs f.data) rfl rfl
  have hB := srcB_eq hx h32 hr hdec (decode_rt f.data) rfl rfl
  have hu : BranchUop (decodeMips32 m f) f op likely := by
    rw [hdec]
    exact ⟨rfl, rfl, rfl, rfl, rfl, rfl⟩
  refine hu.decides hx fun hop => ?_
  rw [hcond hA hB] at hrun
  rcases hrun hop with h | ⟨rfl, h⟩
  · exact run_branch h likely
  · exact run_branchLikely h

end Arms

/-- BAL always branches; the interpreter reads register 0. -/
theorem decides_link (h0 : s.gpr 0 = 0) (hop : (Iss.opcode f.data).toNat = 1)
    (hrt : (Iss.rt f.data).toNat = 17) :
    Decides (decodeMips32 m f) f a (s.isGez f.data) false := by
  have hdec := decode_start m f
  have hop' : (Decode.opcode f.data).toNat = 1 := hop
  have hrt' : (f.data.extractLsb' 16 5).toNat = 17 := hrt
  simp only [Decode.majorOp, hop', Decode.regimm, hrt'] at hdec
  have hiff : Decode.rs f.data = 0 ↔ Iss.rs f.data = 0 := setWidth_eq_zero
  by_cases hz : Iss.rs f.data = 0
  · rw [if_pos (hiff.mpr hz)] at hdec
    have hu : BranchUop (decodeMips32 m f) f .BAL false := by
      rw [hdec]
      exact ⟨rfl, rfl, rfl, rfl, rfl, rfl⟩
    have htake : s.isGez f.data = true := by
      rw [IssState.isGez, hz, h0]
      rfl
    refine hu.decides hx fun h => ?_
    rw [htake]
    simp only [Alu.run, h]
    exact ⟨rfl, rfl, .inl rfl, rfl, rfl⟩
  · rw [if_neg (hiff.not.mpr hz)] at hdec
    have hA := srcA_eq hx h32 hr hdec (decode_rs f.data) rfl rfl
    have hu : BranchUop (decodeMips32 m f) f .BGEZAL false := by
      rw [hdec]
      exact ⟨rfl, rfl, rfl, rfl, rfl, rfl⟩
    have htake : Alu.signClear a = s.isGez f.data := signClear_eq h32 hA
    refine hu.decides hx fun h => ?_
    simp only [Alu.run, h, htake]
    exact ⟨rfl, rfl, .inl rfl, rfl, rfl⟩

theorem decides_regimm (h0 : s.gpr 0 = 0) (hop : (Iss.opcode f.data).toNat = 1)
    {take likely : Bool} (hb : s.branchOf f.data = some (take, likely)) :
    Decides (decodeMips32 m f) f a take likely := by
  have hdec := decode_start m f
  have hop' : (Decode.opcode f.data).toNat = 1 := hop
  simp only [Decode.majorOp, hop', Decode.regimm] at hdec
  rw [IssState.branchOf, hop] at hb
  simp only at hb
  split at hb
  case h_1 hrt =>
    have hrt' : (f.data.extractLsb' 16 5).toNat = 0 := hrt
    rw [hrt'] at hdec
    cases hb
    exact decides_one hx h32 hr hdec (fun h => .inl (by simp only [Alu.run, h]))
      fun hA => ltZero_eq h32 hA
  case h_2 hrt =>
    have hrt' : (f.data.extractLsb' 16 5).toNat = 1 := hrt
    rw [hrt'] at hdec
    cases hb
    exact decides_one hx h32 hr hdec (fun h => .inl (by simp only [Alu.run, h]))
      fun hA => signClear_eq h32 hA
  case h_3 hrt =>
    cases hb
    exact decides_link hx h32 hr h0 hop hrt
  case h_4 hrt =>
    have hrt' : (f.data.extractLsb' 16 5).toNat = 2 := hrt
    rw [hrt'] at hdec
    cases hb
    exact decides_one hx h32 hr hdec (fun h => .inr ⟨rfl, by simp only [Alu.run, h]⟩)
      fun hA => ltZero_eq h32 hA
  case h_5 hrt =>
    have hrt' : (f.data.extractLsb' 16 5).toNat = 3 := hrt
    rw [hrt'] at hdec
    cases hb
    refine decides_one (p := fun a => !Alu.ltZero a) hx h32 hr hdec
      (fun h => .inr ⟨rfl, by simp only [Alu.run, h]⟩) fun hA => ?_
    exact (congrArg (!·) (ltZero_eq h32 hA)).trans BitVec.sle_eq_not_slt.symm
  case h_6 => cases hb

omit h32 in
/-- The branches of the condition codes. -/
theorem decides_bc1 (hop : (Iss.opcode f.data).toNat = 0x11) (hfmt : Iss.fmt f.data = 8) :
    Decides (decodeMips32 m f) f a
      (if f.data.getLsbD 16 then s.isTrue f.data else s.isFalse f.data) (f.data.getLsbD 17) := by
  have hdec := decode_start m f
  have hop' : (Decode.opcode f.data).toNat = 17 := hop
  have hfmt' : f.data.extractLsb' 21 5 = 8#5 := BitVec.eq_of_toNat_eq hfmt
  simp only [Decode.majorOp, hop', Decode.coproc1, if_pos hfmt'] at hdec
  have hC : a.uop.srcC = (Iss.branchCc f.data).setWidth 6 := by
    rw [hx.rawC (by rw [hdec]; rfl) (by rw [hdec]; rfl), hdec]
    rfl
  have hfcr : a.fcr = s.fcr25.setWidth 8 := by
    rw [hx.fcr (by rw [hdec]; rfl) (by rw [hdec]; rfl), hr.fcr]
  have hbit := fcrBit_eq (s := s) hC hfcr
  have htrue : Alu.fcrBit a = s.isTrue f.data := by
    rw [hbit, IssState.isTrue]
    rcases getConditionCode_cases s.toIss (Iss.branchCc f.data) with h | h <;> rw [h] <;> rfl
  have hfalse : (!Alu.fcrBit a) = s.isFalse f.data := by
    rw [hbit, IssState.isFalse, Bool.not_not]
  have hu : BranchUop (decodeMips32 m f) f (Decode.fpBranch f.data f.pred (startUop f)).op
      (f.data.getLsbD 17) := by
    rw [hdec]
    exact ⟨rfl, rfl, rfl, rfl, rfl, rfl⟩
  rw [← htrue, ← hfalse]
  refine hu.decides hx fun h => run_branch ?_ _
  simp only [Decode.fpBranch] at h
  cases h17 : f.data.getLsbD 17 <;> cases h16 : f.data.getLsbD 16 <;> rw [h17, h16] at h <;>
    simp only [Alu.run, h] <;> rfl

/-- Every branch decides as the interpreter does. -/
theorem decides (h0 : s.gpr 0 = 0) {take likely : Bool}
    (hb : s.branchOf f.data = some (take, likely)) :
    Decides (decodeMips32 m f) f a take likely := by
  have hdec := decode_start m f
  have hb' := hb
  have hequal : a.srcA = (s.gpr (Iss.rs f.data)).setWidth 64 →
      a.srcB = (s.gpr (Iss.rt f.data)).setWidth 64 → (a.srcA == a.srcB) = s.isEq f.data := by
    intro hA hB
    rw [hA, hB]
    exact beq_setWidth _ _
  have hdiffer : a.srcA = (s.gpr (Iss.rs f.data)).setWidth 64 →
      a.srcB = (s.gpr (Iss.rt f.data)).setWidth 64 → (a.srcA != a.srcB) = s.isNe f.data :=
    fun hA hB => congrArg (!·) (hequal hA hB)
  have hle : a.srcA = (s.gpr (Iss.rs f.data)).setWidth 64 → Alu.leZero a = s.isLez f.data :=
    fun hA => leZero_eq h32 hA
  have hgt : a.srcA = (s.gpr (Iss.rs f.data)).setWidth 64 → (!Alu.leZero a) = s.isGtz f.data := by
    intro hA
    rw [hle hA, IssState.isLez, BitVec.sle_eq_not_slt, Bool.not_not]
    rfl
  rw [IssState.branchOf] at hb
  split at hb
  case h_1 hop => exact decides_regimm hx h32 hr h0 hop hb'
  case h_6 hop =>
    split at hb
    · next hfmt =>
      cases hb
      exact decides_bc1 hx hr hop hfmt
    · cases hb
  case h_11 => cases hb
  all_goals
    rename_i hop
    have hop' : (Decode.opcode f.data).toNat = _ := hop
    simp only [Decode.majorOp, hop'] at hdec
    cases hb
  · exact decides_two (p := fun a => a.srcA == a.srcB) hx h32 hr hdec
      (fun h => .inl (by simp only [Alu.run, h])) hequal
  · exact decides_two (p := fun a => a.srcA != a.srcB) hx h32 hr hdec
      (fun h => .inl (by simp only [Alu.run, h])) hdiffer
  · exact decides_one (p := Alu.leZero) hx h32 hr hdec
      (fun h => .inl (by simp only [Alu.run, h])) hle
  · exact decides_one (p := fun a => !Alu.leZero a) hx h32 hr hdec
      (fun h => .inl (by simp only [Alu.run, h])) hgt
  · exact decides_two (p := fun a => a.srcA == a.srcB) hx h32 hr hdec
      (fun h => .inr ⟨rfl, by simp only [Alu.run, h]⟩) hequal
  · exact decides_two (p := fun a => a.srcA != a.srcB) hx h32 hr hdec
      (fun h => .inl (by simp only [Alu.run, h])) hdiffer
  · exact decides_one (p := Alu.leZero) hx h32 hr hdec
      (fun h => .inr ⟨rfl, by simp only [Alu.run, h]⟩) hle
  · exact decides_one (p := fun a => !Alu.leZero a) hx h32 hr hdec
      (fun h => .inr ⟨rfl, by simp only [Alu.run, h]⟩) hgt

end Unit
/-! ## The path of the machine -/

/-- A branch that restarts goes on at its pc, and DRAIN retires its slot, for a nullifying one only
if it is taken; any other branch leaves what has been predicted. -/
def unitPath (u : Uop) (f : InsnFetch) (o : AluOut) : Path :=
  if o.mispredBr then
    { slot := u.hasDelaySlot && (!u.hasNullifyingDelaySlot || o.takeBr), pc := lo32 o.pc }
  else { slot := true, pc := lo32 (if f.pred then f.predTarget else f.pc + 8) }

/-- The classes with a target in the word, and those that are always predicted to be taken. -/
def Jump.isBranch : Jump → Bool
  | .IS_COND_BR | .IS_L_COND_BR | .IS_BR | .IS_BR_AND_LINK => true
  | _ => false

def Jump.isAlways : Jump → Bool
  | .IS_L_COND_BR | .IS_JR_R31 | .IS_JR | .IS_JALR => true
  | _ => false

/-- What fetch makes of a word outside a delay slot. -/
structure Predicted (f : InsnFetch) : Prop where
  target : f.pred = true → (predecode f.data).isBranch = true → f.predTarget = branchDest f
  always : (predecode f.data).isAlways = true → f.pred = true

section Paths
variable {m : Bool} {f : InsnFetch} {v : RegView} {a : AluIn} {s : IssState}

theorem lo32_branchDest (hpc : lo32 f.pc = s.pc) :
    lo32 (branchDest f) = Iss.simm32 f.data <<< 2 + (s.pc + 4) := by
  rw [branchDest, lo32_add, lo32_add, lo32_shiftLeft, signExtend_of_signExtend, hpc,
    BitVec.add_comm]
  rfl

theorem unitPath_branch {u : Uop} {take likely : Bool} (hp : Predicted f)
    (hd : Decides u f a take likely) (hpc : lo32 f.pc = s.pc)
    (hclass : (predecode f.data).isBranch = true)
    (hlikely : likely = true → (predecode f.data).isAlways = true) :
    unitPath u f (Alu.run a) = s.branchPath f.data take likely := by
  have hfall : lo32 (f.pc + 8) = s.pc + 8 := by
    rw [lo32_add, hpc]
    rfl
  have hdest := lo32_branchDest (s := s) hpc
  rw [unitPath, hd.takes, hd.pc, hd.slot, hd.nullifies, IssState.branchPath]
  have hmis : (Alu.run a).mispredBr = (f.pred != take) := by
    rcases hd.mispred with h | ⟨hl, h⟩
    · exact h
    · rw [h, hp.always (hlikely hl)]
      cases take <;> rfl
  rw [hmis]
  cases hpred : f.pred with
  | true =>
    cases take with
    | true =>
      rw [hp.target hpred hclass]
      exact congrArg (Path.mk true) hdest
    | false =>
      cases likely with
      | true => exact congrArg (Path.mk false) hfall
      | false => exact congrArg (Path.mk true) hfall
  | false =>
    have hl : likely = false := by
      by_contra hne
      have := hp.always (hlikely (by simpa using hne))
      rw [hpred] at this
      cases this
    subst hl
    cases take with
    | true => exact congrArg (Path.mk true) hdest
    | false => exact congrArg (Path.mk true) hfall

theorem append_extract (x : Word) : (x.extractLsb' 16 48 ++ x.extractLsb' 0 16 : Word) = x := by
  refine BitVec.eq_of_getLsbD_eq fun i hi => ?_
  simp only [BitVec.getLsbD_append, BitVec.getLsbD_extractLsb']
  grind

/-- An indirect jump restarts at its register unless that is the predicted target. -/
theorem unitPath_jumpReg {u : Uop} {o : AluOut} {x : BitVec 32} (hA : a.srcA = x.setWidth 64)
    (hmis : o.mispredBr = (a.srcA != f.predTarget)) (hpc : o.pc = a.srcA) (htake : o.takeBr = true)
    (hslot : u.hasDelaySlot = true) (hpred : f.pred = true) :
    unitPath u f o = { slot := true, pc := x } := by
  rw [unitPath, hmis, hpc, htake, hslot, hpred, Bool.or_true]
  by_cases h : a.srcA = f.predTarget
  · rw [← h, hA, bne_self_eq_false]
    exact congrArg (Path.mk true) (lo32_setWidth x)
  · rw [if_pos (bne_iff_ne.mpr h), hA]
    exact congrArg (Path.mk true) (lo32_setWidth x)

/-- Predecode sees every indirect jump, as one that is always taken. -/
theorem predecode_indirect {w : BitVec 32} (hw : IssState.IndirectWord w) :
    (predecode w).isAlways = true := by
  obtain ⟨hop, hfn⟩ := hw
  have hop' : (w.extractLsb' 26 6).toNat = 0 := hop
  simp only [predecode, hop']
  rcases hfn with hfn | hfn
  · rw [if_pos (BitVec.eq_of_toNat_eq hfn : w.extractLsb' 0 6 = 8#6)]
    split_ifs <;> rfl
  · have h9 : w.extractLsb' 0 6 = 9#6 := BitVec.eq_of_toNat_eq hfn
    rw [if_neg (by rw [h9]; decide), if_pos h9]
    rfl

theorem unitPath_indirect (hp : Predicted f) (hx : Executes v (decodeMips32 m f) a)
    (h32 : a.in32bMode = true) (hr : RegsAgree v s.toIss) (hw : IssState.IndirectWord f.data) :
    (Alu.run a).unimpOp = false ∧ (Alu.run a).fault = false ∧
      unitPath (decodeMips32 m f) f (Alu.run a) =
        { slot := true, pc := s.gpr (Iss.rs f.data) } := by
  have hpred : f.pred = true := hp.always (predecode_indirect hw)
  obtain ⟨hop, hfn⟩ := hw
  have hdec := decode_rtype (m := m) hop
  rcases hfn with hfn | hfn
  · have hfn' : (Decode.funct f.data).toNat = 8 := hfn
    simp only [Decode.rtype, hfn'] at hdec
    have hA := srcA_eq hx h32 hr hdec (decode_rs f.data) rfl rfl
    rw [hdec] at hx ⊢
    have hsome : a.uop.op = .JR := hx.op
    have hjmp : a.uop.jmpImm ++ a.uop.imm = f.predTarget := by
      rw [hx.jmpImm, hx.imm]
      exact append_extract f.predTarget
    refine ⟨by rw [Alu.run, hsome]; rfl, by rw [Alu.run, hsome]; rfl, ?_⟩
    exact unitPath_jumpReg hA (by rw [Alu.run, hsome, ← hjmp]; rfl) (by rw [Alu.run, hsome]; rfl)
      (by rw [Alu.run, hsome]; rfl) rfl hpred
  · have hfn' : (Decode.funct f.data).toNat = 9 := hfn
    simp only [Decode.rtype, hfn'] at hdec
    have hA := srcA_eq hx h32 hr hdec (decode_rs f.data) rfl rfl
    rw [hdec] at hx ⊢
    have hsome : a.uop.op = .JALR := hx.op
    have hjmp : a.uop.jmpImm ++ a.uop.imm = f.predTarget := by
      rw [hx.jmpImm, hx.imm]
      exact append_extract f.predTarget
    refine ⟨by rw [Alu.run, hsome]; rfl, by rw [Alu.run, hsome]; rfl, ?_⟩
    exact unitPath_jumpReg hA (by rw [Alu.run, hsome, ← hjmp]; rfl) (by rw [Alu.run, hsome]; rfl)
      (by rw [Alu.run, hsome]; rfl) rfl hpred

/-- Predecode sees a branch in every branch, and the likely ones. -/
theorem predecode_branchOf {take likely : Bool}
    (hb : s.branchOf f.data = some (take, likely)) :
    (predecode f.data).isBranch = true ∧
      (likely = true → (predecode f.data).isAlways = true) := by
  rw [IssState.branchOf] at hb
  split at hb
  case h_1 hop =>
    have hop' : (f.data.extractLsb' 26 6).toNat = 1 := hop
    simp only [predecode, hop']
    split at hb
    case h_6 => cases hb
    all_goals
      rename_i hrt
      have hrt' : (f.data.extractLsb' 16 5).toNat = _ := hrt
      rw [hrt']
      cases hb
    case h_4 | h_5 => exact ⟨rfl, fun _ => rfl⟩
    all_goals exact ⟨rfl, by simp⟩
  case h_6 hop =>
    have hop' : (f.data.extractLsb' 26 6).toNat = 17 := hop
    split at hb
    · next hfmt =>
      have hrs : f.data.extractLsb' 21 5 = 8 := BitVec.eq_of_toNat_eq hfmt
      simp only [predecode, hop', if_pos hrs]
      cases hb
      cases f.data.getLsbD 17 with
      | true => exact ⟨rfl, fun _ => rfl⟩
      | false => exact ⟨rfl, by simp⟩
    · cases hb
  case h_11 => cases hb
  all_goals
    rename_i hop
    have hop' : (f.data.extractLsb' 26 6).toNat = _ := hop
    simp only [predecode, hop']
    cases hb
  case h_2 =>
    split_ifs
    · exact ⟨rfl, by simp⟩
    · exact ⟨rfl, by simp⟩
  case h_7 | h_8 | h_9 | h_10 => exact ⟨rfl, fun _ => rfl⟩
  all_goals exact ⟨rfl, by simp⟩

/-- The words of conditional branches. -/
def ConditionalWord (w : BitVec 32) : Prop :=
  (Iss.opcode w).toNat = 1 ∧ (Iss.rt w).toNat ∈ [0, 1, 2, 3, 17] ∨
    (Iss.opcode w).toNat = 17 ∧ Iss.fmt w = 8 ∨
    (Iss.opcode w).toNat ∈ [4, 5, 6, 7, 20, 21, 22, 23]

theorem exists_branchOf (s : IssState) {w : BitVec 32} (hw : ConditionalWord w) :
    ∃ take likely, s.branchOf w = some (take, likely) := by
  rcases hw with ⟨hop, hrt⟩ | ⟨hop, hfmt⟩ | hop
  · rw [IssState.branchOf, hop]
    simp only [List.mem_cons, List.not_mem_nil, or_false] at hrt
    rcases hrt with hrt | hrt | hrt | hrt | hrt <;> rw [hrt] <;> exact ⟨_, _, rfl⟩
  · rw [IssState.branchOf, hop, if_pos hfmt]
    exact ⟨_, _, rfl⟩
  · simp only [List.mem_cons, List.not_mem_nil, or_false] at hop
    rcases hop with hop | hop | hop | hop | hop | hop | hop | hop <;>
      rw [IssState.branchOf, hop] <;> exact ⟨_, _, rfl⟩

/-- Whatever the operands, the completion of the branch raises no exception, and the machine goes
where the interpreter goes. -/
def Resolves (f : InsnFetch) : Prop :=
  ∀ (m : Bool) (v : RegView) (a : AluIn) (s : IssState), Executes v (decodeMips32 m f) a →
    a.in32bMode = true → RegsAgree v s.toIss → lo32 f.pc = s.pc → s.gpr 0 = 0 →
      (Alu.run a).unimpOp = false ∧ (Alu.run a).fault = false ∧
        s.Takes f.data (unitPath (decodeMips32 m f) f (Alu.run a))

theorem resolves (hp : Predicted f)
    (hw : ConditionalWord f.data ∨ IssState.IndirectWord f.data) : Resolves f := by
  intro m v a s hx h32 hr hpc h0
  rcases hw with hw | hw
  · obtain ⟨take, likely, hb⟩ := exists_branchOf s hw
    have hd := decides hx h32 hr h0 hb
    obtain ⟨hclass, hlikely⟩ := predecode_branchOf hb
    refine ⟨hd.clean.1, hd.clean.2, ?_⟩
    rw [unitPath_branch hp hd hpc hclass hlikely]
    exact IssState.takes_branch hb
  · obtain ⟨hu, hf, hpath⟩ := unitPath_indirect hp hx h32 hr hw
    refine ⟨hu, hf, ?_⟩
    rw [hpath]
    exact IssState.takes_indirect hw

end Paths

/-! ## The prediction -/

namespace L1i
variable {s : L1i} {i : L1iIn} {image : Word → Line}

theorem extract_append_zeros (x : Word) : (x.extractLsb' 0 62 ++ 0#2 : Word) = x <<< 2 := by
  refine BitVec.eq_of_getLsbD_eq fun k hk => ?_
  simp only [BitVec.getLsbD_append, BitVec.getLsbD_extractLsb', BitVec.getLsbD_shiftLeft, hk]
  grind

theorem predict_isBranch (h : s.tPd.isBranch = true) (ht : s.predict.takeBr = true) :
    s.predict.nPc = s.branchTarget := by
  cases hpd : s.tPd <;> rw [hpd] at h <;> try cases h
  case IS_L_COND_BR | IS_BR => rw [predict, hpd]; rfl
  case IS_COND_BR =>
    simp only [predict, hpd] at ht ⊢
    split at ht
    · next hpht => rw [if_pos hpht]; rfl
    · cases ht
  case IS_BR_AND_LINK =>
    simp only [predict, hpd] at ht ⊢
    split at ht
    · next hpht => rw [if_pos hpht]; rfl
    · cases ht

theorem predict_isAlways (h : s.tPd.isAlways = true) : s.predict.takeBr = true := by
  cases hpd : s.tPd <;> rw [hpd] at h <;> try cases h
  all_goals rw [predict, hpd]; rfl

section Push
variable (hs : s.state = .ACTIVE) (hp : s.action i = .push)
include hs hp

/-- The record of a branch is the first of its push, and carries the prediction of its class. -/
theorem push_predicted {f : InsnFetch} (ha : Agrees image s) (hl : s.Lookup)
    (hh : s.tHit = true) (hf : f ∈ s.pushed i) (hno : predecode f.data ≠ .NOT_CFLOW) : Predicted f := by
  have hfirst : f = s.tInsn i := (mem_pushed_cases hs hp ha hl hh hf).resolve_right hno
  have hdata : f.data = wordAt image s.cachePc := by
    have hidx := s.tInsnIdx.isLt
    rw [hfirst]
    exact (tInsnData_eq ha hl hh (k := 0) (by omega)).trans (by rw [Nat.mul_zero, BitVec.add_zero])
  have hpd : predecode f.data = s.tPd := by rw [tPd_eq ha hl hh, hdata]
  have hpred : f.pred = s.predict.takeBr := by rw [hfirst, push_pred hs hp]
  refine ⟨fun ht hclass => ?_, fun hclass => ?_⟩
  · rw [hpd] at hclass
    rw [hpred] at ht
    have hone : s.pushWidth = 1 := by
      rw [pushWidth, if_pos]
      rcases s.predict_cases with h | h
      · simp [h.1]
      · rw [h] at ht
        cases ht
    have htarget : f.predTarget = s.branchTarget := by
      rw [hfirst]
      change s.nPc i = _
      rw [push_nPc hs hp, nPushPc, hone]
      exact predict_isBranch hclass ht
    rw [htarget, branchTarget, extract_append_zeros, branchDest, hfirst]
    rfl
  · rw [hpd] at hclass
    rw [hpred]
    exact predict_isAlways hclass

end Push

end L1i

namespace Fetch
variable {s : Fetch} {i : FetchIn}

theorem step_predicted (h : s.StreamInv) {f : InsnFetch} (hf : f ∈ s.l1i.pushed i.toL1iIn)
    (hno : predecode f.data ≠ .NOT_CFLOW) : Predicted f := by
  have hp : s.l1i.pushes i.toL1iIn = true := by
    by_contra hn
    rw [L1i.pushed_of_not (by simpa using hn)] at hf
    cases hf
  simp only [L1i.pushes, Bool.and_eq_true, beq_iff_eq] at hp
  obtain ⟨hs, hp⟩ := hp
  have hspec := L1i.action_spec (s := s.l1i) (i := i.toL1iIn) h.bubble
  rw [hp] at hspec
  obtain ⟨hfl, hhit, -⟩ := hspec
  have hreq : s.l1i.req = true := by
    simp only [L1i.tHit, Bool.and_eq_true] at hhit
    exact hhit.1
  have htracks : s.l1i.At s.l1i.cachePc s.expect ∧ s.l1i.Lookup := by
    simpa [L1i.Tracks, hs, hreq] using h.tracks
  have ha : s.l1i.Agrees s.image := by
    refine h.arrays ?_ (by rw [hs]; decide)
    simp only [L1i.wantsFlush, Bool.or_eq_false_iff] at hfl
    exact hfl.1
  exact L1i.push_predicted hs hp ha htracks.2 hhit hf hno

theorem predecode_ne (f : InsnFetch)
    (hw : ConditionalWord f.data ∨ IssState.IndirectWord f.data) :
    predecode f.data ≠ .NOT_CFLOW := by
  intro hc
  rcases hw with hw | hw
  · obtain ⟨take, likely, hb⟩ := exists_branchOf ⟨Iss.numbered, fun _ => 0, false, fun _ => 0⟩ hw
    have hclass := (predecode_branchOf hb).1
    rw [hc] at hclass
    cases hclass
  · have hclass := predecode_indirect hw
    rw [hc] at hclass
    cases hclass

/-- `bnel $2, $3, 0x14` at the start of every line. -/
def likelyImage (_ : Word) : Line := 0x04004354

/-- A restart at 0 that misses, is answered, and pushes the branch. -/
def likelyRun : List FetchIn :=
  [{ restartValid := true }, quiet, quiet, { memRspValid := true, memRspLoadData := 0x04004354 },
    quiet, quiet]

end Fetch

end MipsCore
