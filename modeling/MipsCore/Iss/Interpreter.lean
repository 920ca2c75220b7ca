import MipsCore.Iss.Memory

/-! # Reference interpreter: `execMips`

The whole of `execMips`, as it is built without `LINUX_SYSCALL_EMULATION`: control
transfers, which execute their delay slot by a recursive call, monitor calls and the
coprocessors, over the tables of the other instructions.  `none` stands for `exit`,
`abort` and a failed `assert`.  The floating-point mode is `mipsii` throughout.
-/
namespace MipsCore

/-! ## Fields -/

namespace Iss
section Fields
variable (inst : BitVec 32)

/-- The registers of a floating-point instruction. -/
def fmt : ℕ := (rs inst).toNat
def ft : ArchReg := rt inst
def fs : ArchReg := rd inst
def fd : ArchReg := sa inst
/-- `cc`, for a branch and a conditional move and for a comparison -/
def branchCc : BitVec 3 := inst.extractLsb' 18 3
def compareCc : BitVec 3 := inst.extractLsb' 8 3

end Fields

/-- `setBit` of the condition codes -/
def setConditionBit (s : Iss) (v : Bool) (cc : BitVec 3) : Iss :=
  let t := 1#32 <<< cc.toNat
  { s with fcr25 := ~~~t &&& s.fcr25 ||| t &&& ~~~(ofBool v - 1) }

end Iss

namespace IssState
open Iss
variable (h : Host) (slot : IssState → Option IssState) (s : IssState) (inst : BitVec 32)

/-- An arm that neither transfers control nor touches memory. -/
def lift (f : Option Iss) : Option IssState := f.map fun t => { s with toIss := t }

def jump (pc : BitVec 32) : IssState := { s with toIss := { s.toIss with pc := pc } }

/-! ## Control transfers -/

/-- `branch`, with the condition that its type computes; `slot` is the recursive call. -/
def branch (takeBranch isLikely saveReturn : Bool) : Option IssState :=
  let imm := simm32 inst <<< 2
  let npc := s.pc + 4
  if isLikely then
    if takeBranch then (slot s.next).map fun t => t.jump (imm + npc)
    else some s.next.next
  else
    (slot s.next).map fun t =>
      if takeBranch then (if saveReturn then t.set 31 (npc + 4) else t).jump (imm + npc) else t

/-- The condition of each branch. -/
def isEq : Bool := s.gpr (rt inst) == s.gpr (rs inst)
def isNe : Bool := s.gpr (rt inst) != s.gpr (rs inst)
def isLez : Bool := (s.gpr (rs inst)).sle 0
def isGtz : Bool := BitVec.slt 0 (s.gpr (rs inst))
def isGez : Bool := BitVec.sle 0 (s.gpr (rs inst))
def isLtz : Bool := (s.gpr (rs inst)).slt 0
def isTrue : Bool := s.getConditionCode (branchCc inst) == 1
def isFalse : Bool := s.getConditionCode (branchCc inst) == 0

/-- `_bgez_bltz` -/
def bgezBltz : Option IssState :=
  match (rt inst).toNat with
  | 0 => s.branch slot inst (s.isLtz inst) false false
  | 1 => s.branch slot inst (s.isGez inst) false false
  | 2 => s.branch slot inst (s.isLtz inst) true false
  | 3 => s.branch slot inst (s.isGez inst) true false
  | 17 => s.branch slot inst (s.isGez inst) false true
  | _ => none

/-- The branches of coprocessor 1. -/
def bc1 : Option IssState :=
  match (inst.extractLsb' 16 2).toNat with
  | 0 => s.branch slot inst (s.isFalse inst) false false
  | 1 => s.branch slot inst (s.isTrue inst) false false
  | 2 => s.branch slot inst (s.isFalse inst) true false
  | _ => s.branch slot inst (s.isTrue inst) true false

def jr : Option IssState :=
  let jaddr := s.gpr (rs inst)
  (slot s.next).map (jump · jaddr)

def jalr : Option IssState :=
  let jaddr := s.gpr (rs inst)
  (slot (s.set 31 (s.pc + 8)).next).map (jump · jaddr)

def jaddr (pc : BitVec 32) : BitVec 32 :=
  (inst.extractLsb' 0 26).setWidth 32 <<< 2 ||| pc &&& 0xf0000000

def j : Option IssState := (slot s.next).map (jump · (jaddr inst s.next.pc))

def jal : Option IssState :=
  let t := (s.set 31 (s.pc + 8)).next
  (slot t).map (jump · (jaddr inst t.pc))

/-! ## Monitor calls -/

/-- Words of memory that a monitor call clears or sets. -/
def putWord (a v : BitVec 32) (t : IssState) : Option IssState :=
  if a.toNat + 4 ≤ 2 ^ 32 then some { t with mem := setBytes t.mem a 4 v } else none

/-- The registers and the memory that a system call leaves. -/
def syscall (reason : ℕ) : IssState :=
  let a := h.syscall reason s.toIss s.mem
  { s.set 2 a.1 with mem := a.2 }

/-- `_monitorBody` before it returns: the arms for `open`, `read`, `write`, `lseek`, `getargs`,
`chdir` and the cycle counter ask the host. -/
def monitorCall : Option IssState :=
  let a0 := s.gpr 4
  match (inst.extractLsb' 6 20).toNat / 2 with
  | 6 => some (s.syscall h 6)
  | 7 => some (s.syscall h 7)
  | 8 => some (s.syscall h 8)
  | 9 => some (s.syscall h 9)
  | 10 => some (if BitVec.slt 2 a0 then s.syscall h 10 else s.set 2 0)
  | 33 => ((putWord a0 0 s).bind (putWord (a0 + 4) 0)).map (set · 2 0)
  | 34 =>
    ((((putWord a0 0 s).bind (putWord (a0 + 1) 0)).bind (putWord (a0 + 2) 0)).bind
      (putWord (a0 + 3) 0)).map (set · 2 0)
  | 35 => some (s.syscall h 35)
  | 37 => some ((s.syscall h 37).set 2 a0)
  | 38 => some (s.syscall h 38)
  | 50 => some (s.syscall h 50)
  | 55 =>
    (((putWord a0 (bswap32 0x80000000) s).bind (putWord (a0 + 4) 0)).bind
      (putWord (a0 + 8) 0)).map (set · 2 0)
  | _ => none

def monitorBody : Option IssState := (s.monitorCall h inst).map fun t => t.jump (t.gpr 31)

/-! ## Coprocessor 0 -/

def setCpr0 (r : ArchReg) (v : BitVec 32) : IssState :=
  { s with toIss := { s.toIss with cpr0 := Function.update s.cpr0 r v } }

/-- The moves and WAIT; the status register is number 12. -/
def execCoproc0 : Option IssState :=
  if inst.getLsbD 25 then
    match (funct inst).toNat with
    | 32 => if s.cpr0 12 &&& 1 = 0 then none else some s.next
    | _ => none
  else if (rs inst).toNat = 11 ∧ uimm32 inst = 0x6000 then
    some ((if rt inst ≠ 0 then s.set (rt inst) (s.cpr0 12) else s).setCpr0 12
      (s.cpr0 12 &&& ~~~1)).next
  else if (rs inst).toNat = 11 ∧ uimm32 inst = 0x6020 then
    some ((if rt inst ≠ 0 then s.set (rt inst) (s.cpr0 12) else s).setCpr0 12 (s.cpr0 12 ||| 1)).next
  else
    match (rs inst).toNat with
    | 0 => some (s.set (rt inst) (s.cpr0 (rd inst))).next
    | 4 => some (s.setCpr0 (rd inst) (s.gpr (rt inst))).next
    | _ => none

/-! ## Coprocessor 1 -/

/-- The register behind a single, which most of its operations clear. -/
def clearNext (f : ArchReg) : IssState :=
  { s with cpr1 := Function.update s.cpr1 (f.setWidth 6 + 1) 0 }

/-- Two singles copied one after the other. -/
def copyDouble (d f : ArchReg) : IssState :=
  let t := s.setSingle d (s.single f)
  { t with cpr1 := Function.update t.cpr1 (d.setWidth 6 + 1) (t.cpr1 (f.setWidth 6 + 1)) }

/-- `execFP<float>` -/
def fpSingle (op : FpOperation) (x y : BitVec 32) : BitVec 32 :=
  match op with
  | .abs => x &&& 0x7fffffff
  | .neg => x ^^^ 0x80000000
  | .mov => x
  | .div => if y &&& 0x7fffffff = 0 then 0x7f7fffff else h.sp .div x y
  | op => h.sp op x y

/-- `execFP<double>` -/
def fpDouble (op : FpOperation) (x y : Word) : Word :=
  match op with
  | .abs => x &&& 0x7fffffffffffffff
  | .neg => x ^^^ 0x8000000000000000
  | .mov => x
  | .div => if y &&& 0x7fffffffffffffff = 0 then 0x7fefffffffffffff else h.dp .div x y
  | op => h.dp op x y

/-- The assertion that a register is the first one of a pair. -/
def even (f : ArchReg) : Bool := !f.getLsbD 0

/-- `do_fp_op` -/
def doFpOp (op : FpOperation) : Option IssState :=
  match fmt inst with
  | 16 =>
    if even (fd inst) then
      some ((s.setSingle (fd inst)
        (fpSingle h op (s.single (fs inst)) (s.single (ft inst)))).clearNext (fd inst)).next
    else none
  | 17 => some (s.setDouble (fd inst)
      (fpDouble h op (s.double (fs inst)) (s.double (ft inst)))).next
  | _ => none

/-- `_truncw` -/
def truncw : Option IssState :=
  if even (fd inst) && even (fs inst) then
    match fmt inst with
    | 16 => some ((s.setSingle (fd inst) (h.spToWord (s.single (fs inst)))).clearNext (fd inst)).next
    | 17 => some ((s.setSingle (fd inst) (h.dpToWord (s.double (fs inst)))).clearNext (fd inst)).next
    | _ => none
  else none

/-- `_cvts` -/
def cvts : Option IssState :=
  if even (fd inst) && even (fs inst) then
    match fmt inst with
    | 17 => some ((s.setSingle (fd inst) (h.dpToSp (s.double (fs inst)))).clearNext (fd inst)).next
    | 20 => some ((s.setSingle (fd inst) (h.wordToSp (s.single (fs inst)))).clearNext (fd inst)).next
    | _ => none
  else none

/-- `_cvtd` -/
def cvtd : Option IssState :=
  match fmt inst with
  | 16 => some (s.setDouble (fd inst) (h.spToDp (s.single (fs inst)))).next
  | 20 => some (s.setDouble (fd inst) (h.wordToDp (s.single (fs inst)))).next
  | _ => none

/-- The moves of `_fmovc`, `_fmovz` and `_fmovn`. -/
def moveIf (b : Bool) : Option IssState :=
  match fmt inst with
  | 16 => some (if b then s.setSingle (fd inst) (s.single (fs inst)) else s).next
  | 17 => some (if b then s.copyDouble (fd inst) (fs inst) else s).next
  | _ => none

def fmovc : Option IssState :=
  let cc := s.getConditionCode (branchCc inst)
  s.moveIf inst (if inst.getLsbD 16 then cc == 1 else cc == 0)
def fmovz : Option IssState := s.moveIf inst (s.gpr (rt inst) == 0)
def fmovn : Option IssState := s.moveIf inst (s.gpr (rt inst) != 0)

/-- `fpCmp`, which takes an unordered comparison for one with equality. -/
def compare (c : FpCond) : Option IssState :=
  match fmt inst with
  | 16 => s.lift (some ((s.toIss.setConditionBit
      (h.spCmp c (s.single (fs inst)) (s.single (ft inst))) (compareCc inst)).next))
  | 17 => s.lift (some ((s.toIss.setConditionBit
      (h.dpCmp c (s.double (fs inst)) (s.double (ft inst))) (compareCc inst)).next))
  | _ => none

/-- `_c` -/
def c : Option IssState :=
  match (inst.extractLsb' 0 4).toNat with
  | 1 => s.compare h inst .EQ
  | 2 => s.compare h inst .EQ
  | 12 => s.compare h inst .LT
  | 14 => s.compare h inst .LE
  | _ => none

def mfc1 : Option IssState := some (s.set (rt inst) (s.single (rd inst))).next
def mtc1 : Option IssState := some (s.setSingle (rd inst) (s.gpr (rt inst))).next

/-- `execCoproc1` but for its branches. -/
def execFp : Option IssState :=
  if inst.extractLsb' 0 11 = 0 ∧ fmt inst = 0 then s.mfc1 inst
  else if inst.extractLsb' 0 11 = 0 ∧ fmt inst = 4 then s.mtc1 inst
  else if (funct inst).toNat / 16 = 3 then s.c h inst
  else
    match (funct inst).toNat with
    | 0x0 => s.doFpOp h inst .add
    | 0x1 => s.doFpOp h inst .sub
    | 0x2 => s.doFpOp h inst .mul
    | 0x3 => s.doFpOp h inst .div
    | 0x4 => s.doFpOp h inst .sqrt
    | 0x5 => s.doFpOp h inst .abs
    | 0x6 => s.doFpOp h inst .mov
    | 0x7 => s.doFpOp h inst .neg
    | 0xd => s.truncw h inst
    | 0x11 => s.fmovc inst
    | 0x12 => s.fmovz inst
    | 0x13 => s.fmovn inst
    | 0x15 => s.doFpOp h inst .recip
    | 0x16 => s.doFpOp h inst .rsqrt
    | 0x20 => s.cvts h inst
    | 0x21 => s.cvtd h inst
    | _ => none

def execCoproc1 : Option IssState := if fmt inst = 8 then s.bc1 slot inst else s.execFp h inst

/-- `execCoproc1x`: the indexed loads and the multiply-adds -/
def execCoproc1x : Option IssState :=
  let ea := s.gpr (rs inst) + s.gpr (rt inst)
  let sub := (inst.extractLsb' 3 3).toNat == 5
  match (funct inst).toNat with
  | 0 => access ea 4 (s.setSingle (fd inst) (bswap32 (get32 s.mem ea)))
  | 1 => access ea 8 (s.setDouble (fd inst) (bswap64 (get64 s.mem ea)))
  | _ =>
    if (inst.extractLsb' 3 3).toNat = 4 ∨ (inst.extractLsb' 3 3).toNat = 5 then
      match (inst.extractLsb' 0 3).toNat with
      | 0 => some (s.setSingle (fd inst)
          (h.spMadd sub (s.single (fs inst)) (s.single (ft inst)) (s.single (rs inst)))).next
      | 1 => some (s.setDouble (fd inst)
          (h.dpMadd sub (s.double (fs inst)) (s.double (ft inst)) (s.double (rs inst)))).next
      | _ => none
    else none

/-! ## Instructions -/

/-- The arms of major opcode 0. -/
def execRtype : Option IssState :=
  match (funct inst).toNat with
  | 0x05 => s.monitorBody h inst
  | 0x08 => s.jr slot inst
  | 0x09 => s.jalr slot inst
  | 0x0c => some { s with brk := true }
  | 0x0d => some { s with brk := true }
  | _ => s.lift (s.toIss.rtype inst)

/-- One instruction; `slot` is the recursive call. -/
def exec : Option IssState :=
  match (opcode inst).toNat with
  | 0 => s.execRtype h slot inst
  | 0x1c => s.lift (s.toIss.execSpecial2 inst)
  | 0x1f => s.lift (s.toIss.execSpecial3 inst)
  | 2 => s.j slot inst
  | 3 => s.jal slot inst
  | 0x10 => s.execCoproc0 inst
  | 0x11 => s.execCoproc1 h slot inst
  | 0x13 => s.execCoproc1x h inst
  | 0x01 => s.bgezBltz slot inst
  | 0x04 => s.branch slot inst (s.isEq inst) false false
  | 0x05 => s.branch slot inst (s.isNe inst) false false
  | 0x06 => s.branch slot inst (s.isLez inst) false false
  | 0x07 => s.branch slot inst (s.isGtz inst) false false
  | 0x14 => s.branch slot inst (s.isEq inst) true false
  | 0x15 => s.branch slot inst (s.isNe inst) true false
  | 0x16 => s.branch slot inst (s.isLez inst) true false
  | 0x17 => s.branch slot inst (s.isGtz inst) true false
  | 0x33 => some s.next
  | 0x08 | 0x09 | 0x0a | 0x0b | 0x0c | 0x0d | 0x0e | 0x0f => s.lift (s.toIss.itype inst)
  | _ => s.execMemory inst h

/-- `mem.get` of the instruction word. -/
def fetch : Option (BitVec 32) :=
  if s.pc.toNat + 4 ≤ 2 ^ 32 then some (bswap32 (get32 s.mem s.pc)) else none

/-- `execMips`, to a depth of delay slots. -/
def execMips : ℕ → IssState → Option IssState
  | 0, _ => none
  | depth + 1, s => s.fetch.bind fun inst => s.exec h (execMips depth) inst

/-! ## Depth

A call that returns has a finite depth of delay slots, and a larger one changes nothing.
-/

variable {h slot s inst} {slot' : IssState → Option IssState} {t : IssState}

theorem map_slot_mono {f : IssState → IssState} {u : IssState}
    (hs : ∀ u v, slot u = some v → slot' u = some v) (he : (slot u).map f = some t) :
    (slot' u).map f = some t := by
  obtain ⟨v, hv, rfl⟩ := Option.map_eq_some_iff.mp he
  rw [hs u v hv, Option.map_some]

theorem branch_mono {b l r : Bool} (hs : ∀ u v, slot u = some v → slot' u = some v)
    (he : s.branch slot inst b l r = some t) : s.branch slot' inst b l r = some t := by
  cases l with
  | false => exact map_slot_mono hs he
  | true =>
    cases b with
    | false => exact he
    | true => exact map_slot_mono hs he

theorem execRtype_mono (hs : ∀ u v, slot u = some v → slot' u = some v)
    (he : s.execRtype h slot inst = some t) : s.execRtype h slot' inst = some t := by
  unfold execRtype at he ⊢
  split at he
  case h_2 => exact map_slot_mono hs he
  case h_3 => exact map_slot_mono hs he
  all_goals exact he

theorem bgezBltz_mono (hs : ∀ u v, slot u = some v → slot' u = some v)
    (he : s.bgezBltz slot inst = some t) : s.bgezBltz slot' inst = some t := by
  unfold bgezBltz at he ⊢
  split at he
  case h_6 => exact he
  all_goals exact branch_mono hs he

theorem execCoproc1_mono (hs : ∀ u v, slot u = some v → slot' u = some v)
    (he : s.execCoproc1 h slot inst = some t) : s.execCoproc1 h slot' inst = some t := by
  unfold execCoproc1 at he ⊢
  split_ifs at he ⊢
  · unfold bc1 at he ⊢
    split at he <;> exact branch_mono hs he
  · exact he

theorem exec_mono (hs : ∀ u v, slot u = some v → slot' u = some v)
    (he : s.exec h slot inst = some t) : s.exec h slot' inst = some t := by
  unfold exec at he ⊢
  split at he
  case h_1 => exact execRtype_mono hs he
  case h_4 => exact map_slot_mono hs he
  case h_5 => exact map_slot_mono hs he
  case h_7 => exact execCoproc1_mono hs he
  case h_9 => exact bgezBltz_mono hs he
  case h_10 | h_11 | h_12 | h_13 | h_14 | h_15 | h_16 | h_17 => exact branch_mono hs he
  all_goals exact he

theorem execMips_mono {m n : ℕ} (hmn : m ≤ n) (he : execMips h m s = some t) :
    execMips h n s = some t := by
  induction m generalizing n s t with
  | zero => cases he
  | succ m ih =>
    obtain ⟨n, rfl⟩ := Nat.exists_eq_add_of_lt hmn
    obtain ⟨inst, hi, hx⟩ := Option.bind_eq_some_iff.mp he
    exact Option.bind_eq_some_iff.mpr ⟨inst, hi, exec_mono (fun _ _ hu => ih (by omega) hu) hx⟩

end IssState
end MipsCore
