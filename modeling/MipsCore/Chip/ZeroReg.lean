import MipsCore.Chip.State

/-! # Register zero

Register 0 keeps the physical register that reset gives it, and nothing is ever
written there, unless an instruction with destination field 0 is renamed or
executes with a write enable that ignores `dst_valid`.
-/
namespace MipsCore

/-- A renamed uop that writes an integer register writes none that is mapped to `$0`. -/
def SparesZero (u : Uop) : Prop := u.dstValid = true ∨ writesGpr u.op = true → u.dst ≠ 0

/-- A memory request that returns an integer register does not return it to register 0. -/
def ReqSparesZero (r : MemReq) : Prop := r.dstValid = true → r.dstPtr ≠ 0

namespace Alu
variable (a : AluIn)

/-- The integer unit writes for the operations that always write, and for DI and EI as decoded. -/
theorem run_wrIntPrf (h : (run a).wrIntPrf = true) :
    a.uop.dstValid = true ∨ writesGpr a.uop.op = true := by
  refine (Bool.eq_false_or_eq_true (writesGpr a.uop.op)).symm.imp_left fun hw => ?_
  cases hop : a.uop.op with
  | DI | EI => simp only [run, hop] at h; exact h
  | MTC0 =>
    simp only [run, hop, moveToCpr0] at h
    split_ifs at h <;> cases h
  | _ =>
    rw [hop] at hw
    first
      | (cases hw; done)
      | (simp only [run, hop] at h; cases h)

end Alu

namespace Exec
variable {e : Exec} {i : ExecIn}

theorem headIssue_dst :
    e.headIssue.tail.dstPtr = e.memUqHead.dst ∧
      (e.headIssue.tail.dstValid = true → writesGpr e.memUqHead.op = true) := by
  have hmem : ∀ (b : Bool) (r : MemReq), r.dstPtr = e.memUqHead.dst →
      (e.memIssue b r).tail.dstPtr = e.memUqHead.dst ∧
        ((e.memIssue b r).tail.dstValid = true → r.dstValid = true) := by
    intro b r hr
    unfold memIssue
    split_ifs
    · exact ⟨rfl, fun h => by cases h⟩
    · exact ⟨hr, id⟩
  unfold headIssue
  split <;> rename_i hop <;> first
    | exact ⟨(hmem _ _ rfl).1, fun _ => hop ▸ rfl⟩
    | exact ⟨(hmem _ _ rfl).1, fun h => absurd ((hmem _ _ rfl).2 h) Bool.false_ne_true⟩
    | (split_ifs <;> exact ⟨rfl, fun h => by cases h⟩)
    | exact ⟨rfl, fun h => by cases h⟩

theorem headIssue_spares (h : SparesZero e.memUqHead) : ReqSparesZero e.headIssue.tail :=
  fun hd => headIssue_dst.1 ▸ h (Or.inr (headIssue_dst.2 hd))

/-- A multiplication in flight spares register 0. -/
def MulSparesZero (m : MulStage) : Prop := m.gprVal = true → m.gprPtr ≠ 0

/-- Register 0 of the integer file is zero, and no write to it is in flight. -/
structure ZeroInv (e : Exec) : Prop where
  prf : e.intPrf 0 = 0
  mul0 : MulSparesZero e.mul0
  mul1 : MulSparesZero e.mul1
  mul2 : MulSparesZero e.mul2
  fits : e.MqFits
  memQ : ∀ r ∈ e.memQWindow, ReqSparesZero r

theorem reset_zeroInv (m : ExecInit) : (Exec.reset m).ZeroInv where
  prf := rfl
  mul0 := by simp [MulSparesZero, Exec.reset]
  mul1 := by simp [MulSparesZero, Exec.reset]
  mul2 := by simp [MulSparesZero, Exec.reset]
  fits := (reset_memQ m).1
  memQ := by simp [(reset_memQ m).2]

theorem wrInt_spares (hu : e.startInt = true → SparesZero e.intUop) (h : e.wrInt i = true) :
    e.intUop.dst ≠ 0 := by
  simp only [wrInt, Bool.and_eq_true] at h
  exact hu h.1 (Alu.run_wrIntPrf _ h.2)

theorem nIntPrf_zero (h : e.ZeroInv) (hu : e.startInt = true → SparesZero e.intUop)
    (hm : i.memRsp.dstValid = true → i.memRsp.dstPtr ≠ 0) : e.nIntPrf i 0 = 0 := by
  have hprf : ∀ (prf : PrfPtr → Word), prf 0 = 0 →
      (if i.memRsp.dstValid then
          Function.update prf i.memRsp.dstPtr (narrow e.in32bMode i.memRsp.data)
        else if (e.alu i).gotSyscall && e.startInt then Function.update prf e.intUop.srcA 0
        else prf) 0 = 0 := by
    intro prf hprf
    split_ifs with h1 h2
    · rw [Function.update_of_ne (hm h1).symm, hprf]
    · by_cases ha : e.intUop.srcA = 0
      · rw [ha, Function.update_self]
      · rw [Function.update_of_ne (Ne.symm ha), hprf]
    · exact hprf
  refine hprf _ ?_
  cases h1 : e.wrInt i with
  | true => exact (Function.update_of_ne (wrInt_spares hu h1).symm ..).trans h.prf
  | false =>
    cases h2 : e.mul2.gprVal with
    | true => exact (Function.update_of_ne (h.mul2 h2).symm ..).trans h.prf
    | false => exact h.prf

theorem step_zeroInv (h : e.ZeroInv) (hu : e.startInt = true → SparesZero e.intUop)
    (hq : e.tMemUqEmpty = false → SparesZero e.memUqHead)
    (hm : i.memRsp.dstValid = true → i.memRsp.dstPtr ≠ 0)
    (hack : i.memReqAck = true → e.memReqValid = true) : (e.step i).ZeroInv where
  prf := nIntPrf_zero h hu hm
  mul0 := fun hv => by
    have hv : (e.mulGo i && e.intUop.op == .MUL) = true := hv
    simp only [mulGo, Bool.and_eq_true, beq_iff_eq] at hv
    exact hu hv.1.2 (Or.inr (by rw [hv.2]; rfl))
  mul1 := h.mul0
  mul2 := h.mul1
  fits := (step_memQ h.fits hack).1
  memQ := fun r hr => by
    rcases (step_memQ h.fits hack).2 r hr with hr | ⟨he, rfl⟩
    · exact h.memQ r hr
    · exact headIssue_spares (hq he)

end Exec

namespace Core
open Rename Clocked
variable {s : Core} {i : CoreIn}

/-- The uop would rename `$0`, or would write the register that its field 0 names. -/
def targetsZero (u : Uop) : Bool := u.dst == 0 && (u.dstValid || writesGpr u.op)

/-- Register 0 of the committed map is where reset puts it, and no rename of it is pending. -/
structure ZeroInv (s : Core) : Prop where
  rename : s.RenameInv
  retire : s.retireRat 0 = 0
  log : ∀ e ∈ renameLog s.window, e.dst ≠ 0

/-- No destination field of 0 is renamed or written, besides what the free list asks for. -/
def SparesZeroReg (s : Core) (i : CoreIn) : Prop :=
  BankNonempty s i ∧ ((s.comb i).tAlloc && targetsZero s.tUop) = false ∧
    ((s.comb i).tAllocTwo && targetsZero s.tUop2) = false

/-- The same as a check that can be evaluated. -/
def sparesCheck (s : Core) (i : CoreIn) : Bool :=
  bankCheck s i && (!((s.comb i).tAlloc && targetsZero s.tUop) &&
    !((s.comb i).tAllocTwo && targetsZero s.tUop2))

theorem sparesCheck_iff : sparesCheck s i = true ↔ SparesZeroReg s i := by
  simp only [sparesCheck, SparesZeroReg, Bool.and_eq_true, bankCheck_iff, Bool.not_eq_true']

instance : Decidable (SparesZeroReg s i) := decidable_of_iff _ sparesCheck_iff

theorem ZeroInv.alloc (h : s.ZeroInv) : s.allocRat 0 = 0 := by
  rw [h.rename.coherent.alloc_eq, apply_of_forall_ne h.log, h.retire]

theorem reset_zeroInv (rob : RobPtr → RobEntry) (dq : BitVec 2 → Uop) :
    (Core.reset rob dq).ZeroInv := by
  refine ⟨reset_renameInv rob dq, rfl, ?_⟩
  rw [window, show (Core.reset rob dq).robCount = 0 by simp [robCount, Core.reset]]
  simp [Ring.contents, renameLog]

theorem isArch_setWidth_ne {p : PrfPtr} (hp : IsArch p) (h : p ≠ 0) : p.setWidth 5 ≠ 0#5 :=
  fun he => h ((isArch_setWidth_inj hp Decode.isArch_zero).mp he)

theorem targetsZero_dst {u : Uop} (h : targetsZero u = false)
    (hw : u.dstValid = true ∨ writesGpr u.op = true) : u.dst ≠ 0 := by
  intro hd
  rcases hw with hw | hw <;> simp [targetsZero, hd, hw] at h

theorem newEntries_spares (h : s.ZeroInv) (hg : SparesZeroReg s i) :
    ∀ e ∈ renameLog (s.newEntries i), e.dst ≠ 0 := by
  intro e he
  rw [renameLog_newEntries h.rename, List.mem_append] at he
  rcases he with he | he
  · obtain ⟨hc, rfl⟩ := mem_renameIf.mp (Option.mem_toList.mp he)
    obtain ⟨ha, hd⟩ := Bool.and_eq_true_iff.mp hc
    have hz : targetsZero s.tUop = false := by simpa [ha] using hg.2.1
    exact isArch_setWidth_ne (tUop_isArch h.rename ha) (targetsZero_dst hz (Or.inl hd))
  · obtain ⟨hc, rfl⟩ := mem_renameIf.mp (Option.mem_toList.mp he)
    obtain ⟨ha, hd⟩ := Bool.and_eq_true_iff.mp hc
    have hz : targetsZero s.tUop2 = false := by simpa [ha] using hg.2.2
    exact isArch_setWidth_ne (tUop2_isArch h.rename ha) (targetsZero_dst hz (Or.inl hd))

theorem mem_window_spares (h : s.ZeroInv) {e : RobEntry} (he : e ∈ s.window)
    (hd : e.validDst = true) : e.ldst ≠ 0 :=
  h.log ⟨e.ldst, e.pdst, e.oldPdst⟩ (List.mem_filterMap.mpr ⟨e, he, by simp [renameEntry, hd]⟩)

theorem retireMap_zero {free : Bool} {e : RobEntry} {rat : ArchReg → PrfPtr} (hr : rat 0 = 0)
    (he : free = true → e.ldst ≠ 0) : retireMap free e rat 0 = 0 := by
  unfold retireMap
  split_ifs with hf
  · rw [Function.update_of_ne (he hf).symm, hr]
  · exact hr

theorem nRetireRat_zero (h : s.ZeroInv) (hm : s.MonitorAllocated i) :
    s.nRetireRat (s.comb i) 0 = 0 := by
  refine retireMap_zero (retireMap_zero h.retire fun hf => ?_) fun hf => ?_
  · simp only [tFreeReg, comb_tRetire, Bool.and_eq_true] at hf
    obtain ⟨rest, hw⟩ :=
      window_cons (robCount_pos.mpr (retires_nonempty h.rename.pointers hm hf.1))
    exact mem_window_spares h (hw ▸ List.mem_cons_self) hf.2
  · simp only [tFreeRegTwo, comb_tRetireTwo, Bool.and_eq_true] at hf
    obtain ⟨-, -, hne, hnn⟩ := retiresTwo_retires (i := i) hf.1.2
    obtain ⟨rest, hw⟩ := window_cons_cons h.rename.pointers hne hnn
    exact mem_window_spares h (hw ▸ List.mem_cons_of_mem _ List.mem_cons_self) hf.2

theorem step_zeroInv (h : s.ZeroInv) (hg : SparesZeroReg s i) : (s.step i).ZeroInv := by
  refine ⟨step_renameInv h.rename hg.1, nRetireRat_zero h hg.1.2, ?_⟩
  cases hf : s.flushes with
  | true =>
    rw [(step_flush hf).2.2.2]
    simp [renameLog]
  | false =>
    have hlog := renameLog_congr ((step_window_map stable_renameEntry h.rename.pointers hg.1.2
      hf).trans (List.map_drop ..).symm)
    intro e he
    rw [hlog] at he
    have he := (List.drop_sublist _ _).filterMap _ |>.subset he
    rw [List.filterMap_append, List.mem_append] at he
    exact he.elim (h.log e) (newEntries_spares h hg e)

/-- A register handed out is not the one that `$0` keeps. -/
theorem nPrfEntry_ne_zero (h : s.ZeroInv) (hf : s.tGprFfsFull = false) : s.nPrfEntry ≠ 0 := by
  intro he
  have hm := nPrfEntry_mem hf
  rw [he, ← h.alloc] at hm
  exact h.rename.coherent.alloc_notMem 0 hm

theorem nPrfEntry2_ne_zero (h : s.ZeroInv) (hf : s.tGprFfs2Full = false) : s.nPrfEntry2 ≠ 0 := by
  intro he
  have hm := nPrfEntry2_mem hf
  rw [he, ← h.alloc] at hm
  exact h.rename.coherent.alloc_notMem 0 hm

theorem tAllocUop_dst {c : Comb} (ha : c.tAlloc = true) :
    (s.tAllocUop c).op = s.tUop.op ∧ (s.tAllocUop c).dstValid = s.tUop.dstValid ∧
      (s.tUop.dstValid = true → (s.tAllocUop c).dst = s.nPrfEntry) ∧
      (s.tUop.dstValid = false → s.tUop.fpDstValid = false →
        (s.tAllocUop c).dst = s.tUop.dst) := by
  unfold tAllocUop
  rw [ha]
  dsimp only
  cases s.tUop.dstValid with
  | true => exact ⟨rfl, rfl, fun _ => rfl, nofun⟩
  | false =>
    refine ⟨?_, ?_, nofun, ?_⟩ <;>
      cases s.tUop.hiloDstValid <;> cases s.tUop.fcrDstValid <;> cases s.tUop.fpDstValid <;>
        first | rfl | exact fun _ _ => rfl | exact nofun

theorem tAllocUop2_dst {c : Comb} (ha : c.tAllocTwo = true) :
    (s.tAllocUop2 c).op = s.tUop2.op ∧ (s.tAllocUop2 c).dstValid = s.tUop2.dstValid ∧
      (s.tUop2.dstValid = true → (s.tAllocUop2 c).dst = s.nPrfEntry2) ∧
      (s.tUop2.dstValid = false → s.tUop2.fpDstValid = false →
        (s.tAllocUop2 c).dst = s.tUop2.dst) := by
  unfold tAllocUop2
  rw [ha]
  dsimp only
  cases s.tUop2.dstValid with
  | true => exact ⟨rfl, rfl, fun _ => rfl, nofun⟩
  | false =>
    refine ⟨?_, ?_, nofun, ?_⟩ <;>
      cases s.tUop2.hiloDstValid <;> cases s.tUop2.fcrDstValid <;> cases s.tUop2.fpDstValid <;>
        first | rfl | exact fun _ _ => rfl | exact nofun

/-- Renaming keeps a writer off register 0: it is given a register that `$0` does not hold, or
keeps a field that is not 0. -/
theorem renamed_spares {u r : Uop} {p : PrfPtr} (hu : GprOnly u) (hz : targetsZero u = false)
    (hp : u.dstValid = true → p ≠ 0)
    (hr : r.op = u.op ∧ r.dstValid = u.dstValid ∧ (u.dstValid = true → r.dst = p) ∧
      (u.dstValid = false → u.fpDstValid = false → r.dst = u.dst)) : SparesZero r := by
  obtain ⟨hop, hval, h1, h2⟩ := hr
  intro hw
  rw [hop, hval] at hw
  cases hd : u.dstValid with
  | true => exact h1 hd ▸ hp hd
  | false =>
    have hwr : writesGpr u.op = true := hw.resolve_left (by simp [hd])
    rw [h2 hd (hu hwr)]
    exact targetsZero_dst hz hw

theorem tAllocUop_spares (h : s.ZeroInv) (hg : SparesZeroReg s i) (ha : s.allocates i = true)
    (hu : GprOnly s.tUop) : SparesZero (s.tAllocUop (s.comb i)) := by
  refine renamed_spares hu (by simpa [ha] using hg.2.1) (fun hd => ?_) (tAllocUop_dst (by simpa using ha))
  exact nPrfEntry_ne_zero h (allocates_bank hg.1 ha hd)

theorem tAllocUop2_spares (h : s.ZeroInv) (hg : SparesZeroReg s i) (ha : s.allocatesTwo i = true)
    (hu : GprOnly s.tUop2) : SparesZero (s.tAllocUop2 (s.comb i)) := by
  refine renamed_spares hu (by simpa [ha] using hg.2.2) (fun hd => ?_)
    (tAllocUop2_dst (by simpa using ha))
  exact nPrfEntry2_ne_zero h (allocatesTwo_bank ha hd)

end Core

namespace Chip
open MipsCore.Core Exec Clocked
variable {c : Chip} {i : ChipIn}

/-- Nothing in the chip is on its way to write register 0. -/
structure ZeroInv (c : Chip) : Prop where
  core : c.pipe.core.ZeroInv
  flow : Pipeline.Flow GprOnly SparesZero c.pipe
  exec : c.pipe.exec.ZeroInv
  cache : L1d.Holds ReqSparesZero c.l1d

/-- What the core is asked for in the cycle. -/
def SparesZeroReg (c : Chip) (i : ChipIn) : Prop :=
  Core.SparesZeroReg c.pipe.core (c.pipe.coreIn (c.pipeIn i))

instance : Decidable (SparesZeroReg c i) := inferInstanceAs (Decidable (Core.SparesZeroReg _ _))

theorem reset_zeroInv (rob : RobPtr → RobEntry) (dq : BitVec 2 → Uop) (m : ExecInit) (d : L1dInit) :
    (reset rob dq m d).ZeroInv where
  core := Core.reset_zeroInv rob dq
  flow := Pipeline.reset_flow _ _ rob dq m
  exec := Exec.reset_zeroInv m
  cache := L1d.reset_holds _ d

theorem step_zeroInv (h : c.ZeroInv) (hg : SparesZeroReg c i) : (c.step i).ZeroInv where
  core := Core.step_zeroInv h.core hg
  flow := Pipeline.step_flow decode_gprOnly h.flow (tAllocUop_spares h.core hg)
    (tAllocUop2_spares h.core hg)
  exec := by
    refine Exec.step_zeroInv h.exec h.flow.flight.issued (fun he => ?_) (fun hd => ?_) fun ha => ?_
    · exact h.flow.memFlight _ (memUqHead_mem he)
    · obtain ⟨r, hr, hv, he⟩ := L1d.coreMemRsp_dstValid h.cache hd
      exact he ▸ hr hv
    · have ha : c.l1d.coreMemReqAck (c.l1dIn i) = true := ha
      simp only [L1d.coreMemReqAck, Bool.and_eq_true] at ha
      exact ha.1.1.1.1.1.1.2
  cache := L1d.step_holds h.cache fun ha => by
    simp only [L1d.accepts, Bool.and_eq_true] at ha
    exact h.exec.memQ _ (memReq_mem ha.1)

/-- `$0` reads as zero through both maps, and nothing in the cycle renames to its register or
writes it. -/
structure ReadsZero (c : Chip) (i : ChipIn) : Prop where
  alloc : c.pipe.exec.intPrf (c.pipe.core.allocRat 0) = 0
  retire : c.pipe.exec.intPrf (c.pipe.core.retireRat 0) = 0
  renames : (c.pipe.comb (c.pipeIn i)).tAlloc = true → c.pipe.core.tUop.dstValid = true →
    c.pipe.core.nPrfEntry ≠ c.pipe.core.allocRat 0
  renames2 : (c.pipe.comb (c.pipeIn i)).tAllocTwo = true → c.pipe.core.tUop2.dstValid = true →
    c.pipe.core.nPrfEntry2 ≠ c.pipe.core.allocRat 0
  alu : c.pipe.exec.wrInt (c.pipe.toExec (c.pipeIn i)) = true →
    c.pipe.exec.intUop.dst ≠ c.pipe.core.allocRat 0
  mul : c.pipe.exec.mul2.gprVal = true → c.pipe.exec.mul2.gprPtr ≠ c.pipe.core.allocRat 0
  mem : (c.l1d.coreMemRsp (c.l1dIn i)).dstValid = true →
    (c.l1d.coreMemRsp (c.l1dIn i)).dstPtr ≠ c.pipe.core.allocRat 0

theorem ZeroInv.readsZero (h : c.ZeroInv) (hg : SparesZeroReg c i) : c.ReadsZero i where
  alloc := h.core.alloc ▸ h.exec.prf
  retire := h.core.retire ▸ h.exec.prf
  renames ha hd := by
    rw [Pipeline.comb, comb_tAlloc] at ha
    exact h.core.alloc ▸ nPrfEntry_ne_zero h.core (allocates_bank hg.1 ha hd)
  renames2 ha hd := by
    rw [Pipeline.comb, comb_tAllocTwo] at ha
    exact h.core.alloc ▸ nPrfEntry2_ne_zero h.core (allocatesTwo_bank ha hd)
  alu hw := h.core.alloc ▸ wrInt_spares h.flow.flight.issued hw
  mul hv := h.core.alloc ▸ h.exec.mul2 hv
  mem hd := by
    obtain ⟨r, hr, hv, he⟩ := L1d.coreMemRsp_dstValid h.cache hd
    rw [h.core.alloc, he]
    exact hr hv

/-- `$0` reads as zero in every run from reset in which no destination field of 0 is renamed or
written and the free list is intact. -/
theorem run_readsZero (rob : RobPtr → RobEntry) (dq : BitVec 2 → Uop) (m : ExecInit) (d : L1dInit)
    (inputs : List ChipIn) (i : ChipIn)
    (h : Guarded step SparesZeroReg (reset rob dq m d) (inputs ++ [i])) :
    (run step (reset rob dq m d) inputs).ReadsZero i := by
  obtain ⟨h1, h2⟩ := guarded_append.mp h
  exact (h1.invariant (fun _ _ hs hg => step_zeroInv hs hg) (reset_zeroInv rob dq m d)).readsZero h2.1

/-! ## A shift into register 0 -/

def fetch (w : BitVec 32) : ChipIn := { outside := { insnValid := true, insn := { data := w } } }

/-- `addiu $1, $0, 1` and then `insn`, with `n` cycles to execute them. -/
def zeroRun (insn : BitVec 32) (n : ℕ) : List ChipIn :=
  [{ outside := { resume := true } }, { outside := { restartAck := true } }, fetch 0x24010001#32,
    fetch insn] ++ (List.replicate n {} : List ChipIn)

/-- The run with `sll $2, $1, 0`. -/
theorem run_readsZero_sll :
    (run step (reset (fun _ => {}) (fun _ => {}) {} {}) (zeroRun 0x00011000#32 1)).ReadsZero {} :=
  run_readsZero _ _ _ _ _ _ (by rw [step_eval]; decide +kernel)

/-- `sll $0, $1, 0` is no NOP to the decoder and writes the register of `$0`. -/
theorem exists_not_readsZero :
    ¬∀ (rob : RobPtr → RobEntry) (dq : BitVec 2 → Uop) (m : ExecInit) (d : L1dInit)
      (inputs : List ChipIn) (i : ChipIn), (run step (reset rob dq m d) inputs).ReadsZero i := by
  intro h
  have hs := (h (fun _ => {}) (fun _ => {}) {} {} (zeroRun 0x00010000#32 4) {}).alloc
  have hbad : ∀ c : Chip, c.pipe.exec.intPrf (c.pipe.core.allocRat 0) = 0 →
      (c.pipe.exec.intPrf (c.pipe.core.allocRat 0) == 1) = false := by
    intro c hc
    rw [hc]
    decide
  refine Bool.false_ne_true ((hbad _ hs).symm.trans ?_)
  rw [step_eval]
  decide +kernel

end Chip
end MipsCore
