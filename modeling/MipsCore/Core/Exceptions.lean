import MipsCore.Core.Windows

/-! # Exceptions of the core

An exception is decided in `ACTIVE` and its state is written in the two or three
cycles after it, from the head of a buffer whose head has moved on.
-/
namespace MipsCore
namespace Core
open Clocked
open Ring (writeIf)
variable {s : Core} {i : CoreIn}

/-! ## Taking an exception -/

/-- The head of the buffer takes an exception: it faults in `ACTIVE` and is sent to the states that
write the exception registers. -/
def takesException (s : Core) (i : CoreIn) : Bool :=
  s.state == .ACTIVE && s.retiresActive && s.tRobHead.faulted &&
    (s.faultState i == .WRITE_EPC || s.faultState i == .WRITE_BADVADDR)

/-- The exception code of an entry. -/
def excCode (e : RobEntry) : BitVec 5 :=
  if e.isWait || e.isBreak then 9 else if e.isIi then 10 else if e.takeTrap then 13
  else if e.isStore then 3 else 2

/-- The write through the exception port in a cycle. -/
def cpr0Write (s : Core) (i : CoreIn) : Option (BitVec 5 × Word) :=
  if (s.comb i).tExceptionWrCpr0Val then
    some ((s.comb i).tExceptionWrCpr0Ptr, (s.comb i).tExceptionWrCpr0Data)
  else none

/-- The writes through the exception port in a run. -/
def cpr0Writes : Core → List CoreIn → List (BitVec 5 × Word)
  | _, [] => []
  | s, i :: inputs => (s.cpr0Write i).toList ++ cpr0Writes (s.step i) inputs

/-- The writes that describe the exception of an entry: BadVAddr for a refill, EPC and Cause. -/
def excWrites (refill : Bool) (e : RobEntry) : List (BitVec 5 × Word) :=
  (if refill then [(8, e.data)] else []) ++ [(14, epcData e), (13, causeData e (excCode e))]

/-- The three cycles after the exception write the state of the instruction that faulted. -/
def ReportsHead (s : Core) (i i₁ i₂ i₃ : CoreIn) : Prop :=
  cpr0Writes (s.step i) [i₁, i₂, i₃] =
    excWrites (s.faultState i == .WRITE_BADVADDR) s.tRobHead

instance (s : Core) (i i₁ i₂ i₃ : CoreIn) : Decidable (s.ReportsHead i i₁ i₂ i₃) :=
  inferInstanceAs (Decidable (_ = _))

/-- The slot behind the head, which the writing states read, as the cycle leaves it. -/
def slotBehind (s : Core) (i : CoreIn) : RobEntry :=
  writeResults i s.rob (Ring.slot s.robNextHeadPtr)

/-- The slot behind the head agrees with it on what the writing states read. -/
def SlotBehindAgrees (s : Core) (i : CoreIn) : Prop :=
  (s.slotBehind i).pc = s.tRobHead.pc ∧ (s.slotBehind i).inDelaySlot = s.tRobHead.inDelaySlot ∧
    (s.faultState i = .WRITE_BADVADDR → (s.slotBehind i).data = s.tRobHead.data)

instance (s : Core) (i : CoreIn) : Decidable (s.SlotBehindAgrees i) :=
  inferInstanceAs (Decidable (_ ∧ _ ∧ _))

theorem takesException_cases (h : s.takesException i = true) :
    s.state = .ACTIVE ∧ s.retiresActive = true ∧ s.tRobHead.faulted = true ∧
      (s.faultState i = .WRITE_EPC ∨ s.faultState i = .WRITE_BADVADDR) := by
  simp only [takesException, Bool.and_eq_true, Bool.or_eq_true, beq_iff_eq] at h
  obtain ⟨⟨⟨hs, hr⟩, hf⟩, hx⟩ := h
  exact ⟨hs, hr, hf, hx⟩

theorem faultDispatch_nCause (c : Comb)
    (h : s.faultState i = .WRITE_EPC ∨ s.faultState i = .WRITE_BADVADDR) :
    (faultDispatch s i c).nCause = excCode s.tRobHead := by
  unfold faultState at h
  unfold faultDispatch excCode
  cases he : s.tRobHead.isEret with
  | true => simp [he] at h
  | false =>
    cases hw : s.tRobHead.isWait with
    | true => cases hi : i.cpr0StatusReg.getLsbD 0 <;> simp [he, hw, hi] at h ⊢
    | false =>
      cases hb : s.tRobHead.isBreak with
      | true => simp
      | false =>
        cases hii : s.tRobHead.isIi with
        | true => simp
        | false =>
          cases ht : s.tRobHead.takeTrap with
          | true => simp
          | false =>
            cases hr : s.tRobHead.exceptionTlbRefill with
            | true => simp
            | false =>
              cases hm : s.tRobHead.exceptionTlbModified <;>
                cases hv : s.tRobHead.exceptionTlbInvalid <;>
                simp [he, hw, hb, hii, ht, hr, hm, hv] at h

/-! ## The writing states -/

theorem cpr0Write_writeEpc (hs : s.state = .WRITE_EPC) :
    s.cpr0Write i = some (14, epcData s.tRobHead) := by
  simp [cpr0Write, comb, combState, hs, combWriteEpc, writeCpr0]

theorem cpr0Write_writeCause (hs : s.state = .WRITE_CAUSE) :
    s.cpr0Write i = some (13, causeData s.tRobHead s.cause) := by
  simp [cpr0Write, comb, combState, hs, combWriteCause, writeCpr0]

theorem cpr0Write_writeBadvaddr (hs : s.state = .WRITE_BADVADDR) :
    s.cpr0Write i = some (8, s.tRobHead.data) := by
  simp [cpr0Write, comb, combState, hs, combWriteBadvaddr, writeCpr0]

theorem cpr0Write_flushForHalt (hs : s.state = .FLUSH_FOR_HALT) : s.cpr0Write i = none := by
  simp only [cpr0Write, comb, combState, hs, combFlushForHalt, withDelaySlot_cpr0Val]
  split_ifs <;> simp_all [combDefault]

/-- The states that write the exception registers. -/
def writesCpr0 (s : Core) : Prop :=
  s.state = .WRITE_EPC ∨ s.state = .WRITE_CAUSE ∨ s.state = .WRITE_BADVADDR

/-- A writing state neither allocates nor retires; it leaves the cause and the head alone. -/
theorem writesCpr0_quiet (h : s.writesCpr0) :
    s.allocates i = false ∧ s.allocatesTwo i = false ∧ s.retires i = false ∧ s.flushes = false ∧
      (s.comb i).nCause = s.cause := by
  rcases h with h | h | h <;>
    exact ⟨by simp [allocates, h], by simp [allocatesTwo, h], by simp [retires, h],
      by simp [flushes, h],
      by simp [comb, combState, h, combWriteEpc, combWriteCause, combWriteBadvaddr, writeCpr0,
        combDefault]⟩

theorem step_tRobHead_quiet (ha : s.allocates i = false) (ha2 : s.allocatesTwo i = false)
    (hr : s.retires i = false) (hf : s.flushes = false) :
    (s.step i).tRobHead = writeResults i s.rob (Ring.slot s.robHeadPtr) := by
  rw [tRobHead, step_rob hf, step_robHeadPtr hf]
  simp [robAllocated, writeIf, ha, ha2, retireCount, hr]

/-- What EPC and Cause read of an entry does not depend on results. -/
theorem stable_epc : Stable fun e => (e.pc, e.inDelaySlot) := ⟨fun _ _ => rfl, fun _ _ => rfl⟩

theorem step_tRobHead_writesCpr0 (h : s.writesCpr0) :
    (s.step i).tRobHead.pc = s.tRobHead.pc ∧
      (s.step i).tRobHead.inDelaySlot = s.tRobHead.inDelaySlot := by
  obtain ⟨ha, ha2, hr, hf, -⟩ := writesCpr0_quiet (i := i) h
  rw [step_tRobHead_quiet ha ha2 hr hf]
  have := stable_epc.writeResults (i := i) s.rob (Ring.slot s.robHeadPtr)
  exact ⟨congrArg Prod.fst this, congrArg Prod.snd this⟩

/-! ## What a run writes -/

theorem step_takesException (h : s.takesException i = true)
    (hn : s.robNextHeadPtr = s.robHeadPtr + 1) :
    (s.step i).state = s.faultState i ∧ (s.step i).cause = excCode s.tRobHead ∧
      (s.step i).tRobHead = s.slotBehind i := by
  obtain ⟨hs, hr, hf, hx⟩ := takesException_cases h
  have hirq : s.takesIrq = false ∧ s.tCanRetireRobHead = true := by
    simpa only [retiresActive, Bool.and_eq_true, Bool.not_eq_true'] using hr
  have hfl : s.flushes = false := by simp [flushes, hs]
  have htwo : s.retiresTwo = false := by simp [retiresTwo, canRetireTwo, hf]
  have hret : s.retireCount i = 1 := by simp [retireCount, retires, hs, hr, htwo]
  have ha : s.allocates i = false := by simp [allocates, hs, offersAlloc, hirq.2, hf]
  have ha2 : s.allocatesTwo i = false := by simp [allocatesTwo, offersAlloc, hirq.2, hf]
  refine ⟨?_, ?_, ?_⟩
  · simp [nextState, hs, activeState, hirq.1, hirq.2, hf]
  · have hcomb : s.comb i = withDelaySlot s (combActive s i (combDefault s i)) := by
      simp only [comb, combState, hs]
    have hno : (s.externIrq && !s.tRobEmpty && !s.tRobHead.inDelaySlot) = false := hirq.1
    rw [step, clock, hcomb, withDelaySlot_nCause, combActive]
    simp only [hno, hirq.2, hf, Bool.false_eq_true, ↓reduceIte, combFault]
    exact faultDispatch_nCause _ hx
  · rw [tRobHead, step_rob hfl, step_robHeadPtr hfl, hret, slotBehind, hn]
    simp [robAllocated, writeIf, ha, ha2]

theorem epcData_congr {e f : RobEntry} (hp : e.pc = f.pc) (hd : e.inDelaySlot = f.inDelaySlot) :
    epcData e = epcData f := by rw [epcData, epcData, hp, hd]

theorem causeData_inj {e f : RobEntry} {c : BitVec 5} :
    causeData e c = causeData f c ↔ e.inDelaySlot = f.inDelaySlot := by
  refine ⟨fun h => ?_, fun h => by rw [causeData, causeData, h]⟩
  have hbit : ∀ (b : Bool) (c : BitVec 5),
      (0#32 ++ BitVec.ofBool b ++ 0#15 ++ 0#8 ++ 0#1 ++ c ++ 0#2 : BitVec 64).getLsbD 31 = b := by
    decide
  have := congrArg (fun w : Word => w.getLsbD 31) h
  simpa only [causeData, hbit] using this

theorem epcData_inj {e f : RobEntry} (hd : e.inDelaySlot = f.inDelaySlot) :
    epcData e = epcData f ↔ e.pc = f.pc := by
  refine ⟨fun h => ?_, fun h => epcData_congr h hd⟩
  rw [epcData, epcData, hd] at h
  split_ifs at h
  · exact BitVec.sub_left_inj _ |>.mp h
  · exact h

/-- Writing EPC and then Cause. -/
theorem cpr0Writes_epc (hs : s.state = .WRITE_EPC) (i₁ i₂ : CoreIn) (rest : List CoreIn) :
    cpr0Writes s (i₁ :: i₂ :: rest) =
      [(14, epcData s.tRobHead), (13, causeData s.tRobHead s.cause)] ++
        cpr0Writes ((s.step i₁).step i₂) rest := by
  have hs1 : (s.step i₁).state = .WRITE_CAUSE := by rw [step_state, nextState, hs]
  obtain ⟨-, -, -, -, hc⟩ := writesCpr0_quiet (i := i₁) (Or.inl hs)
  have hcause : (s.step i₁).cause = s.cause := hc
  have hhead := (step_tRobHead_writesCpr0 (i := i₁) (Or.inl hs)).2
  rw [cpr0Writes, cpr0Writes, cpr0Write_writeEpc hs, cpr0Write_writeCause hs1, hcause,
    causeData_inj.mpr hhead]
  rfl

theorem step_writeCause (hs : s.state = .WRITE_CAUSE) : (s.step i).state = .FLUSH_FOR_HALT := by
  rw [step_state, nextState, hs]

/-- An exception is described by its writes exactly when the slot behind the head agrees with it. -/
theorem reportsHead_iff (h : s.takesException i = true) (hn : s.robNextHeadPtr = s.robHeadPtr + 1)
    (i₁ i₂ i₃ : CoreIn) : s.ReportsHead i i₁ i₂ i₃ ↔ s.SlotBehindAgrees i := by
  obtain ⟨hs1, hcause, hhead⟩ := step_takesException h hn
  obtain ⟨-, -, -, hx⟩ := takesException_cases h
  unfold ReportsHead SlotBehindAgrees excWrites
  rcases hx with hx | hx
  · rw [hx] at hs1
    have hs2 : ((s.step i).step i₁).state = .WRITE_CAUSE := by rw [step_state, nextState, hs1]
    have hs3 := step_writeCause (i := i₂) hs2
    rw [cpr0Writes_epc hs1, cpr0Writes, cpr0Write_flushForHalt hs3, hhead, hcause, hx]
    simp only [cpr0Writes, Option.toList_none, List.append_nil, List.nil_append,
      List.cons.injEq, Prod.mk.injEq, true_and, and_true, causeData_inj,
      show (CoreFsm.WRITE_EPC == CoreFsm.WRITE_BADVADDR) = false from rfl, Bool.false_eq_true,
      ↓reduceIte, reduceCtorEq, false_implies]
    refine ⟨fun h => ⟨(epcData_inj h.2).mp h.1, h.2⟩, fun h => ⟨epcData_congr h.1 h.2, h.2⟩⟩
  · rw [hx] at hs1
    have hs2 : ((s.step i).step i₁).state = .WRITE_EPC := by rw [step_state, nextState, hs1]
    obtain ⟨-, -, -, -, hc⟩ := writesCpr0_quiet (i := i₁) (Or.inr (Or.inr hs1))
    have hcause2 : ((s.step i).step i₁).cause = excCode s.tRobHead := by
      rw [← hcause]; exact hc
    obtain ⟨hpc2, hds2⟩ := step_tRobHead_writesCpr0 (i := i₁) (Or.inr (Or.inr hs1))
    rw [cpr0Writes, cpr0Write_writeBadvaddr hs1, cpr0Writes_epc hs2, hcause2, hx,
      epcData_congr hpc2 hds2, causeData_inj.mpr hds2, hhead]
    simp only [cpr0Writes, Option.toList_some, List.append_nil, List.cons_append, List.nil_append,
      List.cons.injEq, Prod.mk.injEq, true_and, and_true, causeData_inj, beq_self_eq_true,
      ↓reduceIte, true_implies]
    refine ⟨fun h => ⟨(epcData_inj h.2.2).mp h.2.1, h.2.2, h.1⟩,
      fun h => ⟨h.2.2, epcData_congr h.1 h.2.1, h.2.1⟩⟩

/-- In every run from reset, an exception is described by its writes exactly when the slot behind
the faulting entry holds the same pc and delay slot flag, and for a refill the same address. -/
theorem run_reportsHead_iff (rob : RobPtr → RobEntry) (dq : BitVec 2 → Uop) (inputs : List CoreIn)
    (i i₁ i₂ i₃ : CoreIn) (h : (run step (Core.reset rob dq) inputs).takesException i = true) :
    (run step (Core.reset rob dq) inputs).ReportsHead i i₁ i₂ i₃ ↔
      (run step (Core.reset rob dq) inputs).SlotBehindAgrees i :=
  reportsHead_iff h (run_robNextHead rob dq inputs) i₁ i₂ i₃

/-- An undefined R-type word at the given pc. -/
def illegalInsn (pc : Word) : InsnFetch := { data := 0xe#32, pc := pc }

/-- Resume and one illegal instruction, up to the cycle that takes its exception. -/
def illegalRun (pc : Word) : List CoreIn :=
  [{ resume := true }, { restartAck := true }, { insn := illegalInsn pc, insnValid := true }, {}]

theorem run_reportsHead_iff_illegal :
    (run step (Core.reset (fun _ => {}) fun _ => {}) (illegalRun 0)).ReportsHead {} {} {} {} ↔
      (run step (Core.reset (fun _ => {}) fun _ => {}) (illegalRun 0)).SlotBehindAgrees {} :=
  run_reportsHead_iff _ _ _ _ _ _ _ (by decide +kernel)

/-- A lone illegal instruction at `0x100` reports the stale pc of the next slot. -/
theorem exists_not_reportsHead :
    ¬∀ (rob : RobPtr → RobEntry) (dq : BitVec 2 → Uop) (inputs : List CoreIn) (i i₁ i₂ i₃ : CoreIn),
      (run step (Core.reset rob dq) inputs).takesException i = true →
        (run step (Core.reset rob dq) inputs).ReportsHead i i₁ i₂ i₃ := by
  intro h
  have hx : (run step (Core.reset (fun _ => {}) fun _ => {}) (illegalRun 0x100)).takesException {} =
      true := by decide +kernel
  have hr := h _ _ _ {} {} {} {} hx
  have hpc := ((reportsHead_iff hx (run_robNextHead _ _ _) {} {} {}).mp hr).1
  exact absurd hpc (by decide +kernel)

/-! ## Exceptions that leave the buffer -/

/-- A faulted entry that owes an exception. -/
def exceptional (e : RobEntry) : Bool :=
  e.faulted && !e.isEret && !e.isWait &&
    (e.isBreak || e.isIi || e.takeTrap || e.exceptionTlbRefill)

/-- The core writes EPC next, or BadVAddr and then EPC, and retires nothing before it does. -/
def ReachesEpc (s : Core) : Prop :=
  s.state = .WRITE_EPC ∨
    s.state = .WRITE_BADVADDR ∧ ∀ i, s.retires i = false ∧ (s.step i).state = .WRITE_EPC

/-- An exceptional entry that retires in this cycle reaches WRITE_EPC before anything else
retires, and none retires in second place. -/
def KeepsExceptions (s : Core) (i : CoreIn) : Prop :=
  (s.retires i = true → exceptional s.tRobHead = true → (s.step i).ReachesEpc) ∧
    (s.retiresTwo = true → exceptional s.tRobNextHead = false)

/-- Outside `ACTIVE` an entry retires as the delay slot of a drain or as a monitor call: neither
is exceptional. -/
def RetiresSound (s : Core) (i : CoreIn) : Prop :=
  s.tRobHeadComplete = true →
    (s.state = .DRAIN → s.dsDone = false →
        (if s.hasNullifyingDelaySlot then s.takeBr else s.hasDelaySlot) = true →
          exceptional s.tRobHead = false) ∧
      (s.state = .WAIT_FOR_MONITOR → s.gotAck i = true → exceptional s.tRobHead = false)

instance (s : Core) (i : CoreIn) : Decidable (s.RetiresSound i) :=
  inferInstanceAs (Decidable (_ → _ ∧ _))

theorem retiresSound_iff : s.RetiresSound i ↔
    (s.state = .DRAIN ∨ s.state = .WAIT_FOR_MONITOR → s.retires i = true →
      exceptional s.tRobHead = false) := by
  unfold RetiresSound retires
  cases hs : s.state with
  | DRAIN => cases hc : s.tRobHeadComplete <;> cases hd : s.dsDone <;> simp
  | WAIT_FOR_MONITOR => cases hc : s.tRobHeadComplete <;> simp
  | _ => simp

theorem reachesEpc_badvaddr (hs : s.state = .WRITE_BADVADDR) : s.ReachesEpc :=
  Or.inr ⟨hs, fun i => ⟨by simp [retires, hs], by rw [step_state, nextState, hs]⟩⟩

theorem faultState_exceptional (h : exceptional s.tRobHead = true) :
    s.faultState i = .WRITE_EPC ∨ s.faultState i = .WRITE_BADVADDR := by
  simp only [exceptional, Bool.and_eq_true, Bool.not_eq_true'] at h
  obtain ⟨⟨⟨-, he⟩, hw⟩, hx⟩ := h
  unfold faultState
  rw [he, hw]
  simp only [Bool.false_eq_true, ↓reduceIte]
  cases hb : s.tRobHead.isBreak || s.tRobHead.isIi || s.tRobHead.takeTrap with
  | true => exact Or.inl rfl
  | false =>
    have hr : s.tRobHead.exceptionTlbRefill = true := by simpa [hb] using hx
    simp [hr]

theorem retires_cases (h : s.retires i = true) :
    s.state = .ACTIVE ∨ s.state = .DRAIN ∨ s.state = .WAIT_FOR_MONITOR := by
  unfold retires at h
  split at h
  · next hs => exact Or.inl hs
  · next hs => exact Or.inr (Or.inl hs)
  · next hs => exact Or.inr (Or.inr hs)
  · cases h

/-- An exceptional head that `ACTIVE` retires reaches WRITE_EPC. -/
theorem active_reachesEpc (hs : s.state = .ACTIVE) (hr : s.retires i = true)
    (hx : exceptional s.tRobHead = true) : (s.step i).ReachesEpc := by
  have hf : s.tRobHead.faulted = true := by
    simp only [exceptional, Bool.and_eq_true] at hx
    exact hx.1.1.1
  simp only [retires, hs, retiresActive, Bool.and_eq_true, Bool.not_eq_true'] at hr
  have hst : (s.step i).state = s.faultState i := by
    simp [nextState, hs, activeState, hr.1, hr.2, hf]
  rcases faultState_exceptional (i := i) hx with h | h
  · exact Or.inl (hst.trans h)
  · exact reachesEpc_badvaddr (hst.trans h)

/-- A drain or a monitor call that retires does not go to WRITE_EPC. -/
theorem not_reachesEpc (hs : s.state = .DRAIN ∨ s.state = .WAIT_FOR_MONITOR) :
    ¬(s.step i).ReachesEpc := by
  have hst : (s.step i).state ≠ .WRITE_EPC ∧ (s.step i).state ≠ .WRITE_BADVADDR := by
    rw [step_state, nextState]
    rcases hs with hs | hs <;> rw [hs] <;> dsimp only <;> split_ifs <;> decide
  rintro (h | ⟨h, -⟩)
  · exact hst.1 h
  · exact hst.2 h

theorem keepsExceptions_iff : s.KeepsExceptions i ↔ s.RetiresSound i := by
  rw [retiresSound_iff]
  constructor
  · intro h hs hr
    by_contra hx
    exact not_reachesEpc hs (h.1 hr (by simpa using hx))
  · intro h
    constructor
    · intro hr hx
      rcases retires_cases hr with hs | hs
      · exact active_reachesEpc hs hr hx
      · exact absurd hx (by simp [h hs hr])
    · intro ht
      simp only [retiresTwo, canRetireTwo, Bool.and_eq_true, Bool.not_eq_true'] at ht
      have hf : s.tRobNextHead.faulted = false := ht.2.1.1.1.1.1.1.1.2
      simp [exceptional, hf]

/-- A run keeps every exception exactly when its drains and monitor calls retire no exceptional
entry. -/
theorem guarded_keepsExceptions_iff (s : Core) (inputs : List CoreIn) :
    Guarded step KeepsExceptions s inputs ↔ Guarded step RetiresSound s inputs := by
  induction inputs generalizing s with
  | nil => exact Iff.rfl
  | cons i inputs ih => rw [guarded_cons, guarded_cons, keepsExceptions_iff, ih]

/-- `beq $0, $0` at `0x100` with an illegal instruction in its delay slot, up to the drain that the
mispredicted branch enters. -/
def faultingSlotRun : List CoreIn :=
  [{ resume := true }, { restartAck := true },
    { insn := { data := 0x10000003#32, pc := 0x100 }, insnValid := true,
      insnTwo := illegalInsn 0x104, insnValidTwo := true },
    {}, { completeValid1 := true, completeBundle1 := { complete := true, faulted := true } }, {}]

/-- The drain behind a mispredicted branch retires its illegal delay slot without an exception. -/
theorem exists_not_keepsExceptions :
    ¬∀ (rob : RobPtr → RobEntry) (dq : BitVec 2 → Uop) (inputs : List CoreIn),
      Guarded step KeepsExceptions (Core.reset rob dq) inputs := by
  intro h
  have hg := h (fun _ => {}) (fun _ => {}) (faultingSlotRun ++ [({} : CoreIn)])
  have hslot : ((run step (Core.reset (fun _ => {}) fun _ => {}) faultingSlotRun).state == .DRAIN &&
      (run step (Core.reset (fun _ => {}) fun _ => {}) faultingSlotRun).retires {} &&
      exceptional (run step (Core.reset (fun _ => {}) fun _ => {}) faultingSlotRun).tRobHead) =
        true := by decide +kernel
  have hk := (guarded_append.mp hg).2
  generalize run step (Core.reset (fun _ => {}) fun _ => {}) faultingSlotRun = s at hslot hk
  simp only [Bool.and_eq_true, beq_iff_eq] at hslot
  exact not_reachesEpc (Or.inl hslot.1.1) (hk.1.1 hslot.1.2 hslot.2)

end Core
end MipsCore
