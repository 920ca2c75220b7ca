import MipsCore.Core.Windows

/-! # Delay slots of mispredicted branches

`ACTIVE` holds a faulted branch at the head of the reorder buffer until its delay
slot is allocated, and holds a serializing uop in the decode queue until the reorder
buffer is empty.  The two guards wait for each other when the slot is serializing.
-/
namespace MipsCore
namespace Core
open Ring (writeIf)
open BitMask (setBitIf)
open Clocked (run Guarded)
variable (s : Core) (i : CoreIn)

/-- A mispredicted branch waits at the head for its delay slot, which waits for an empty buffer. -/
structure Deadlocked : Prop where
  active : s.state = .ACTIVE
  nonempty : s.tRobEmpty = false
  complete : s.tRobHeadComplete = true
  faulted : s.tRobHead.faulted = true
  hasDelaySlot : s.tRobHead.hasDelaySlot = true
  alone : s.tRobNextEmpty = true
  fetched : s.tDqEmpty = false
  serializing : s.tUop.serializingOp = true

/-! ## The youngest entry and the uop behind it -/

/-- The slot of the youngest entry, once the cycle has allocated. -/
def newestPtr : RobPtr := Ring.slot (s.robTailPtr + BitVec.ofNat 6 (s.allocCount i) - 1)

/-- The complete bits after the allocations of the cycle and before its results. -/
def doneAllocated : BitVec 32 :=
  setBitIf (s.allocatesTwo i) (Ring.slot s.robNextTailPtr) s.tFoldUop2 <|
    setBitIf (s.allocates i) (Ring.slot s.robTailPtr) s.tFoldUop s.robComplete

/-- The results of the cycle in the complete bits. -/
def writeDone (i : CoreIn) (done : BitVec 32) : BitVec 32 :=
  setBitIf i.coreMemRspValid i.coreMemRsp.robPtr true <|
    setBitIf i.completeValid2 i.completeBundle2.robPtr i.completeBundle2.complete <|
    setBitIf i.completeValid1 i.completeBundle1.robPtr i.completeBundle1.complete done

/-- The youngest entry is a branch whose delay slot is still to come, and it has been reported
mispredicted, by this cycle's results or before. -/
def NewestMispredicted : Prop :=
  s.retireCount i < s.robCount + s.allocCount i ∧
    (s.robAllocated i (s.newestPtr i)).hasDelaySlot = true ∧
    (writeResults i (s.robAllocated i) (s.newestPtr i)).faulted = true ∧
    (writeDone i (s.doneAllocated i)).getLsbD (s.newestPtr i).toNat = true

/-- The uop that follows the allocated ones: from the queue, or just decoded. -/
def nextUop : Option Uop := (s.queue ++ newUops s i)[s.allocCount i]?

/-- The delay slot of a mispredicted branch is not a serializing uop. -/
def SlotOrdinary : Prop :=
  s.state = .ACTIVE ∧ s.takesIrq = false ∨ s.state = .HALT_WAIT_FOR_RESTART →
    s.NewestMispredicted i →
    ∀ u, s.nextUop i = some u → u.serializingOp = false

variable {s i}

theorem step_robComplete (h : s.flushes = false) :
    (s.step i).robComplete = writeDone i (s.doneAllocated i) := by
  simp [step, clock, nRobComplete, h, writeDone, doneAllocated]

/-- `ACTIVE` is entered with an empty queue, or from itself, or from the restart after a halt. -/
theorem nextState_active (h : s.nextState i = .ACTIVE) :
    s.clearsQueue i = true ∨ s.state = .ACTIVE ∧ s.takesIrq = false ∨
      s.state = .HALT_WAIT_FOR_RESTART := by
  cases hs : s.state with
  | ACTIVE =>
    cases hirq : s.takesIrq with
    | false => exact Or.inr (Or.inl ⟨rfl, rfl⟩)
    | true => simp [nextState, hs, activeState, hirq] at h
  | HALT_WAIT_FOR_RESTART => exact Or.inr (Or.inr rfl)
  | RAT => simp [clearsQueue, hs]
  | WAIT_FOR_SERIALIZE_AND_RESTART =>
    simp only [nextState, hs] at h
    split_ifs at h with hc
    simp_all [clearsQueue]
  | WAIT_FOR_MONITOR =>
    simp only [nextState, hs] at h
    split_ifs at h with hc
    simp_all [clearsQueue]
  | _ => simp only [nextState, hs] at h; first | cases h | split_ifs at h

/-- The single entry of the buffer after a cycle is the youngest one. -/
theorem step_robHead_newest (hp : s.Pointers) (hm : s.MonitorAllocated i) (hf : s.flushes = false)
    (hn : (s.step i).tRobNextEmpty = true) :
    Ring.slot (s.step i).robHeadPtr = s.newestPtr i := by
  have hnext := (step_pointers hp hm).robNextHead
  have htail : (s.step i).robHeadPtr + 1 = (s.step i).robTailPtr := by
    rw [← hnext]
    simpa [tRobNextEmpty] using hn
  rw [newestPtr, ← step_robTailPtr hf, ← htail, BitVec.add_sub_cancel]

theorem step_nextUop (hp : s.DqPointers) (hc : s.clearsQueue i = false)
    (hd : (s.step i).tDqEmpty = false) : s.nextUop i = some (s.step i).tUop := by
  obtain ⟨rest, hq⟩ := queue_cons hd
  rw [step_queue hp hc] at hq
  have hget := congrArg (fun l => l[0]?) hq
  simpa [nextUop, List.getElem?_drop] using hget

theorem step_deadlocked (hp : s.Pointers) (hm : s.MonitorAllocated i) (hg : s.SlotOrdinary i) :
    ¬(s.step i).Deadlocked := by
  intro hd
  have hactive : s.nextState i = .ACTIVE := by rw [← step_state]; exact hd.active
  cases hclear : s.clearsQueue i with
  | true =>
    have hzero := (step_clearQueue hclear).1
    have hpos := dqCount_pos.mp hd.fetched
    omega
  | false =>
    have hstate := (nextState_active hactive).resolve_left (by simp [hclear])
    have hf : s.flushes = false := by
      rcases hstate with ⟨hs, -⟩ | hs <;> simp [flushes, hs]
    have hptr := step_robHead_newest hp hm hf hd.alone
    have hentry : (s.step i).tRobHead = writeResults i (s.robAllocated i) (s.newestPtr i) := by
      rw [tRobHead, hptr, step_rob hf]
    have hstable : Stable fun e => e.hasDelaySlot := ⟨fun _ _ => rfl, fun _ _ => rfl⟩
    have hmiss : s.NewestMispredicted i := by
      refine ⟨?_, ?_, ?_, ?_⟩
      · have hpos := robCount_pos.mp hd.nonempty
        rw [step_robCount hp hm hf] at hpos
        omega
      · rw [← hstable.writeResults (i := i), ← hentry]
        exact hd.hasDelaySlot
      · rw [← hentry]
        exact hd.faulted
      · rw [← step_robComplete hf, ← hptr]
        exact hd.complete
    have hslot := hg hstate hmiss _ (step_nextUop hp.toDqPointers hclear hd.fetched)
    rw [hd.serializing] at hslot
    cases hslot

/-- In every run whose mispredicted branches have ordinary delay slots, no state is deadlocked. -/
theorem run_not_deadlocked (rob : RobPtr → RobEntry) (dq : BitVec 2 → Uop) (inputs : List CoreIn)
    (hg : Guarded step (fun s i => s.MonitorAllocated i ∧ s.SlotOrdinary i) (Core.reset rob dq)
      inputs) :
    ¬(run step (Core.reset rob dq) inputs).Deadlocked := by
  have hinv : ∀ s : Core, ∀ i, s.Pointers ∧ ¬s.Deadlocked → s.MonitorAllocated i ∧ s.SlotOrdinary i →
      (s.step i).Pointers ∧ ¬(s.step i).Deadlocked := by
    intro s i hs hi
    exact ⟨step_pointers hs.1 hi.1, step_deadlocked hs.1 hi.1 hi.2⟩
  have hreset : ¬(Core.reset rob dq).Deadlocked := fun hd => nomatch hd.active
  exact (hg.invariant hinv ⟨reset_pointers rob dq, hreset⟩).2

/-! ## The deadlock lasts -/

/-- Nothing is reported and no interrupt comes. -/
structure Quiet (i : CoreIn) : Prop where
  irq : i.externIrq = false
  port1 : i.completeValid1 = false
  port2 : i.completeValid2 = false
  mem : i.coreMemRspValid = false

theorem Quiet.writeResults (hq : Quiet i) (rob : RobPtr → RobEntry) :
    Core.writeResults i rob = rob := by
  simp [Core.writeResults, Ring.modifyIf, writeIf, hq.port1, hq.port2, hq.mem]

theorem Quiet.writeDone (hq : Quiet i) (done : BitVec 32) : Core.writeDone i done = done := by
  simp [Core.writeDone, setBitIf, hq.port1, hq.port2, hq.mem]

/-- Neither guard opens. -/
theorem Deadlocked.blocked (hd : s.Deadlocked) (hirq : s.externIrq = false) :
    s.allocates i = false ∧ s.retires i = false ∧ s.nextState i = .ACTIVE := by
  have hcan : s.tCanRetireRobHead = false := by
    simp [tCanRetireRobHead, hd.faulted, hd.hasDelaySlot, hd.alone]
  have htakes : s.takesIrq = false := by simp [takesIrq, hirq]
  refine ⟨?_, ?_, ?_⟩
  · simp [allocates, hd.active, offersAlloc, hd.serializing]
  · simp [retires, hd.active, retiresActive, hcan]
  · simp [nextState, hd.active, activeState, htakes, hcan, hd.nonempty]

/-- Without an interrupt or a late result a deadlocked core stays deadlocked, whatever is fetched. -/
theorem Deadlocked.step (hp : s.Pointers) (hd : s.Deadlocked) (hirq : s.externIrq = false)
    (hq : Quiet i) : (s.step i).Deadlocked ∧ (s.step i).externIrq = false := by
  obtain ⟨halloc, hretire, hnext⟩ := hd.blocked (i := i) hirq
  have hf : s.flushes = false := by simp [flushes, hd.active]
  have hc : s.clearsQueue i = false := by simp [clearsQueue, hd.active]
  have hm : s.MonitorAllocated i := fun hs => by rw [hd.active] at hs; cases hs
  have hac : s.allocCount i = 0 := by simp [allocCount, halloc]
  have hrc : s.retireCount i = 0 := by simp [retireCount, hretire]
  have htwo : s.allocatesTwo i = false := by
    cases h : s.allocatesTwo i with
    | false => rfl
    | true => rw [(allocatesTwo_allocates h).1] at halloc; cases halloc
  have hhead : (s.step i).robHeadPtr = s.robHeadPtr := by simp [step_robHeadPtr hf, hrc]
  have htail : (s.step i).robTailPtr = s.robTailPtr := by simp [step_robTailPtr hf, hac]
  have hrob : (s.step i).rob = s.rob := by
    rw [step_rob hf, hq.writeResults]
    simp [robAllocated, writeIf, halloc, htwo]
  have hdone : (s.step i).robComplete = s.robComplete := by
    rw [step_robComplete hf, hq.writeDone]
    simp [doneAllocated, setBitIf, halloc, htwo]
  have hentry : (s.step i).tRobHead = s.tRobHead := by rw [tRobHead, hhead, hrob]; rfl
  have hqueue : (s.step i).queue = s.queue ++ newUops s i := by
    rw [step_queue hp.toDqPointers hc, hac, List.drop_zero]
  obtain ⟨rest, hcons⟩ := queue_cons hd.fetched
  have hfetched : (s.step i).tDqEmpty = false := by
    rw [dqCount_pos, step_dqCount hp.toDqPointers hc, hac]
    have := dqCount_pos.mp hd.fetched
    omega
  have huop : (s.step i).tUop = s.tUop := by
    obtain ⟨rest', hcons'⟩ := queue_cons hfetched
    rw [hqueue, hcons, List.cons_append] at hcons'
    exact (List.cons.inj hcons').1.symm
  refine ⟨⟨?_, ?_, ?_, ?_, ?_, ?_, hfetched, ?_⟩, ?_⟩
  · rw [step_state, hnext]
  · rw [tRobEmpty, hhead, htail]
    exact hd.nonempty
  · rw [tRobHeadComplete, hhead, hdone]
    exact hd.complete
  · rw [hentry]
    exact hd.faulted
  · rw [hentry]
    exact hd.hasDelaySlot
  · have halone := hd.alone
    rw [tRobNextEmpty, hp.robNextHead] at halone
    rw [tRobNextEmpty, (step_pointers hp hm).robNextHead, hhead, htail]
    exact halone
  · rw [huop]
    exact hd.serializing
  · simp [Core.step, clock, hirq, hq.irq]

theorem Deadlocked.run (hp : s.Pointers) (hd : s.Deadlocked) (hirq : s.externIrq = false)
    {inputs : List CoreIn} (hq : ∀ i ∈ inputs, Quiet i) :
    (Clocked.run Core.step s inputs).Deadlocked := by
  induction inputs generalizing s with
  | nil => exact hd
  | cons i inputs ih =>
    have hi := hq i List.mem_cons_self
    have hm : s.MonitorAllocated i := fun hs => by rw [hd.active] at hs; cases hs
    obtain ⟨hd', hirq'⟩ := hd.step hp hirq hi
    exact ih (step_pointers hp hm) hd' hirq' fun j hj => hq j (List.mem_cons_of_mem i hj)

/-- `beq $0, $0` at `0x100` with `w` in its delay slot; the branch is reported mispredicted. -/
def slotRun (w : BitVec 32) : List CoreIn :=
  [{ resume := true }, { restartAck := true },
    { insn := { data := 0x10000003#32, pc := 0x100 }, insnValid := true,
      insnTwo := { data := w, pc := 0x104 }, insnValidTwo := true },
    {}, { completeValid1 := true, completeBundle1 := { complete := true, faulted := true } }]

instance : Decidable (s.NewestMispredicted i) := inferInstanceAs (Decidable (_ ∧ _ ∧ _ ∧ _))
instance : Decidable (s.SlotOrdinary i) :=
  inferInstanceAs (Decidable (_ → _ → ∀ u ∈ s.nextUop i, u.serializingOp = false))

/-- `addu $1, $1, $1` in the delay slot. -/
theorem run_not_deadlocked_addu :
    ¬(run step (Core.reset (fun _ => {}) fun _ => {}) (slotRun 0x00210821#32)).Deadlocked :=
  run_not_deadlocked _ _ _ (by decide +kernel)

/-- `syscall` in the delay slot. -/
theorem exists_deadlocked :
    ¬∀ (rob : RobPtr → RobEntry) (dq : BitVec 2 → Uop) (inputs : List CoreIn),
      ¬(run step (Core.reset rob dq) inputs).Deadlocked := by
  intro h
  have hrun := h (fun _ => {}) (fun _ => {}) (slotRun 0x0000000c#32)
  have hslot : ((run step (Core.reset (fun _ => {}) fun _ => {}) (slotRun 0xc#32)).state == .ACTIVE &&
      !(run step (Core.reset (fun _ => {}) fun _ => {}) (slotRun 0xc#32)).tRobEmpty &&
      (run step (Core.reset (fun _ => {}) fun _ => {}) (slotRun 0xc#32)).tRobHeadComplete &&
      (run step (Core.reset (fun _ => {}) fun _ => {}) (slotRun 0xc#32)).tRobHead.faulted &&
      (run step (Core.reset (fun _ => {}) fun _ => {}) (slotRun 0xc#32)).tRobHead.hasDelaySlot &&
      (run step (Core.reset (fun _ => {}) fun _ => {}) (slotRun 0xc#32)).tRobNextEmpty &&
      !(run step (Core.reset (fun _ => {}) fun _ => {}) (slotRun 0xc#32)).tDqEmpty &&
      (run step (Core.reset (fun _ => {}) fun _ => {}) (slotRun 0xc#32)).tUop.serializingOp) =
        true := by decide +kernel
  generalize run step (Core.reset (fun _ => {}) fun _ => {}) (slotRun 0xc#32) = s at hslot hrun
  simp only [Bool.and_eq_true, Bool.not_eq_true', beq_iff_eq] at hslot
  obtain ⟨⟨⟨⟨⟨⟨⟨h1, h2⟩, h3⟩, h4⟩, h5⟩, h6⟩, h7⟩, h8⟩ := hslot
  exact hrun ⟨h1, h2, h3, h4, h5, h6, h7, h8⟩

end Core
end MipsCore
