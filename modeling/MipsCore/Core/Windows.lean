import MipsCore.Core.Signals
import MipsCore.Lib.Clocked

/-! # The reorder buffer and the decode queue as lists

The occupied slots, oldest first.  A cycle appends what it allocates, drops what
it retires and lets results land in place, so a view of the entries that ignores
the result fields sees a queue.
-/
namespace MipsCore
namespace Core
open Ring (writeIf)
variable (s : Core) (i : CoreIn)

def robCount : ℕ := Ring.count s.robHeadPtr s.robTailPtr
def dqCount : ℕ := Ring.count s.dqHeadPtr s.dqTailPtr

/-- The un-retired entries. -/
def window : List RobEntry := Ring.contents s.rob s.robHeadPtr s.robCount
/-- The decoded uops that wait for allocation. -/
def queue : List Uop := Ring.contents s.dq s.dqHeadPtr s.dqCount

def retireCount : ℕ := if s.retires i then if s.retiresTwo then 2 else 1 else 0
def allocCount : ℕ := if s.allocates i then if s.allocatesTwo i then 2 else 1 else 0
def pushCount : ℕ := if dqPush s i then if dqPushTwo s i then 2 else 1 else 0

/-- The entries that the cycle allocates. -/
def newEntries : List RobEntry :=
  if s.allocates i then if s.allocatesTwo i then [s.tRobTail, s.tRobNextTail] else [s.tRobTail]
  else []
/-- The uops that the cycle decodes into the queue. -/
def newUops : List Uop :=
  if dqPush s i then if dqPushTwo s i then [tDecUop i, tDecUop2 i] else [tDecUop i] else []

/-- Nothing retires from an empty reorder buffer while a monitor call is waited for. -/
def MonitorAllocated : Prop :=
  s.state = .WAIT_FOR_MONITOR → s.retires i = true → s.tRobEmpty = false

instance : Decidable (s.MonitorAllocated i) := inferInstanceAs (Decidable (_ → _ → _))

/-- The pointers of the decode queue are consistent. -/
structure DqPointers : Prop where
  dqNextHead : s.dqNextHeadPtr = s.dqHeadPtr + 1
  dqNextTail : s.dqNextTailPtr = s.dqTailPtr + 1
  dqCount_le : s.dqCount ≤ 2 ^ 2

/-- The pointers of both queues are consistent, and a pending delay slot is in the buffer. -/
structure Pointers : Prop extends DqPointers s where
  robNextHead : s.robNextHeadPtr = s.robHeadPtr + 1
  robNextTail : s.robNextTailPtr = s.robTailPtr + 1
  robCount_le : s.robCount ≤ 2 ^ 5
  drainSlot : s.state = .DRAIN → s.dsDone = false → 0 < s.robCount

variable {s i}

theorem reset_dqPointers (rob : RobPtr → RobEntry) (dq : BitVec 2 → Uop) :
    (Core.reset rob dq).DqPointers where
  dqNextHead := rfl
  dqNextTail := rfl
  dqCount_le := by simp [dqCount, Core.reset]

theorem reset_pointers (rob : RobPtr → RobEntry) (dq : BitVec 2 → Uop) :
    (Core.reset rob dq).Pointers where
  toDqPointers := reset_dqPointers rob dq
  robNextHead := rfl
  robNextTail := rfl
  robCount_le := by simp [robCount, Core.reset]
  drainSlot := by simp [Core.reset]

/-! ## Emptiness and room -/

theorem robCount_pos : s.tRobEmpty = false ↔ 0 < s.robCount := by
  rw [tRobEmpty, beq_eq_false_iff_ne, Nat.pos_iff_ne_zero, robCount]
  exact not_congr Ring.count_eq_zero.symm

theorem robCount_one_lt (hp : s.Pointers) (hne : s.tRobEmpty = false) :
    s.tRobNextEmpty = false ↔ 1 < s.robCount := by
  have h1 := robCount_pos.mp hne
  have h2 : s.robHeadPtr + 1 = s.robTailPtr ↔ s.robCount = 1 := Ring.count_eq_one
  rw [tRobNextEmpty, beq_eq_false_iff_ne, hp.robNextHead, Ne, h2]
  omega

theorem dqCount_pos : s.tDqEmpty = false ↔ 0 < s.dqCount := by
  rw [tDqEmpty, beq_eq_false_iff_ne, Nat.pos_iff_ne_zero, dqCount, ne_comm]
  exact not_congr Ring.count_eq_zero.symm

theorem dqCount_one_lt (hp : s.DqPointers) (hne : s.tDqEmpty = false) :
    s.tDqNextEmpty = false ↔ 1 < s.dqCount := by
  have h1 := dqCount_pos.mp hne
  have h2 : s.dqHeadPtr + 1 = s.dqTailPtr ↔ s.dqCount = 1 := Ring.count_eq_one
  rw [tDqNextEmpty, beq_eq_false_iff_ne, hp.dqNextHead, ne_comm, Ne, h2]
  omega

theorem robCount_lt_of_not_full (hp : s.Pointers) (hf : s.tRobFull = false) :
    s.robCount + 1 ≤ 2 ^ 5 := by
  refine Ring.count_lt_of_not_full hp.robCount_le ?_
  rintro ⟨h1, h2⟩
  simp [tRobFull, h1, h2] at hf

theorem robCount_lt_of_not_next_full (hp : s.Pointers) (hf : s.tRobFull = false)
    (hn : s.tRobNextFull = false) : s.robCount + 2 ≤ 2 ^ 5 := by
  refine Ring.count_lt_of_not_next_full (robCount_lt_of_not_full hp hf) ?_
  rw [← hp.robNextTail]
  rintro ⟨h1, h2⟩
  simp [tRobNextFull, h1, h2] at hn

theorem dqCount_lt_of_push (hp : s.DqPointers) (hf : dqPush s i = true) : s.dqCount + 1 ≤ 2 ^ 2 := by
  refine Ring.count_lt_of_not_full hp.dqCount_le ?_
  rintro ⟨h1, h2⟩
  simp [dqPush, tDqFull, h1, Ne.symm h2] at hf

theorem dqCount_lt_of_pushTwo (hp : s.DqPointers) (hf : dqPushTwo s i = true) :
    s.dqCount + 2 ≤ 2 ^ 2 := by
  rw [dqPushTwo, Bool.and_eq_true, Bool.and_eq_true] at hf
  obtain ⟨⟨hpush, hn⟩, -⟩ := hf
  refine Ring.count_lt_of_not_next_full (dqCount_lt_of_push hp hpush) ?_
  rw [← hp.dqNextTail]
  rintro ⟨h1, h2⟩
  simp [tDqNextFull, h1, Ne.symm h2] at hn

/-! ## What the strobes promise -/

theorem allocates_room (h : s.allocates i = true) : s.tRobFull = false ∧ s.tDqEmpty = false := by
  unfold allocates at h
  split at h
  · simp only [Bool.and_eq_true, canAlloc, Bool.not_eq_true'] at h
    exact ⟨h.2.1.1.1.1.1.1, h.2.1.1.1.1.2⟩
  · simp only [canAllocSerial, Bool.and_eq_true, Bool.not_eq_true'] at h
    exact ⟨h.1.1.1, h.2⟩
  · simp only [canAllocSerial, Bool.and_eq_true, Bool.not_eq_true'] at h
    exact ⟨h.1.1.1, h.2⟩
  · cases h

theorem allocatesTwo_allocates (h : s.allocatesTwo i = true) :
    s.allocates i = true ∧ s.tDqNextEmpty = false ∧ s.tRobNextFull = false ∧ s.state = .ACTIVE := by
  simp only [allocatesTwo, canAllocTwo, Bool.and_eq_true, beq_iff_eq, Bool.not_eq_true'] at h
  obtain ⟨⟨hs, ho⟩, ⟨⟨⟨⟨⟨⟨⟨⟨hc, -⟩, hd⟩, hr⟩, -⟩, -⟩, -⟩, -⟩, -⟩⟩ := h
  exact ⟨by simp [allocates, hs, ho, hc], hd, hr, hs⟩

theorem retiresActive_nonempty (h : s.retiresActive = true) :
    s.tRobEmpty = false ∧ s.tRobHeadComplete = true := by
  simp only [retiresActive, tCanRetireRobHead, Bool.and_eq_true, Bool.not_eq_true'] at h
  exact ⟨h.2.1.2, h.2.1.1⟩

theorem retiresTwo_retires (h : s.retiresTwo = true) :
    s.retires i = true ∧ s.state = .ACTIVE ∧ s.tRobEmpty = false ∧ s.tRobNextEmpty = false := by
  simp only [retiresTwo, Bool.and_eq_true, beq_iff_eq] at h
  obtain ⟨⟨hs, hr⟩, ht⟩ := h
  simp only [canRetireTwo, Bool.and_eq_true, Bool.not_eq_true'] at ht
  exact ⟨by simp [retires, hs, hr], hs, (retiresActive_nonempty hr).1, ht.1.1.1.1.1.1.1.1.1⟩

/-- What the guards of a second retirement leave for its slot. -/
theorem retiresTwo_guards (h : s.retiresTwo = true) :
    s.tRobNextHead.validHiloDst = false ∧ s.tRobNextHead.validFcrDst = false := by
  simp only [retiresTwo, canRetireTwo, Bool.and_eq_true, Bool.not_eq_true'] at h
  exact ⟨h.2.2, h.2.1.2⟩

theorem bumps_retires (h : s.bumps = true) : s.retires i = true := by
  simp only [bumps, Bool.and_eq_true, beq_iff_eq] at h
  simp [retires, h.1.1, h.1.2]

theorem flushes_idle (h : s.flushes = true) :
    s.allocates i = false ∧ s.retires i = false ∧ s.allocatesTwo i = false ∧ s.retiresTwo = false := by
  simp only [flushes, beq_iff_eq] at h
  simp [allocates, retires, allocatesTwo, retiresTwo, h]

theorem retires_nonempty (hp : s.Pointers) (hm : s.MonitorAllocated i) (h : s.retires i = true) :
    0 < s.robCount := by
  cases hs : s.state with
  | ACTIVE =>
    simp only [retires, hs] at h
    exact robCount_pos.mp (retiresActive_nonempty h).1
  | DRAIN =>
    simp only [retires, hs, Bool.and_eq_true, Bool.not_eq_true'] at h
    exact hp.drainSlot hs h.1.2
  | WAIT_FOR_MONITOR => exact robCount_pos.mp (hm hs h)
  | _ => simp [retires, hs] at h

theorem retireCount_le (hp : s.Pointers) (hm : s.MonitorAllocated i) :
    s.retireCount i ≤ s.robCount := by
  unfold retireCount
  split_ifs with h1 h2
  · obtain ⟨-, -, hne, hnn⟩ := retiresTwo_retires (i := i) h2
    exact (robCount_one_lt hp hne).mp hnn
  · exact retires_nonempty hp hm h1
  · exact Nat.zero_le _

theorem allocCount_room (hp : s.Pointers) : s.robCount + s.allocCount i ≤ 2 ^ 5 := by
  unfold allocCount
  split_ifs with h1 h2
  · exact robCount_lt_of_not_next_full hp (allocates_room h1).1 (allocatesTwo_allocates h2).2.2.1
  · exact robCount_lt_of_not_full hp (allocates_room h1).1
  · exact hp.robCount_le

theorem allocCount_le (hp : s.DqPointers) : s.allocCount i ≤ s.dqCount := by
  unfold allocCount
  split_ifs with h1 h2
  · have hne := (allocates_room h1).2
    exact (dqCount_one_lt hp hne).mp (allocatesTwo_allocates h2).2.1
  · exact dqCount_pos.mp (allocates_room h1).2
  · exact Nat.zero_le _

theorem pushCount_room (hp : s.DqPointers) : s.dqCount + s.pushCount i ≤ 2 ^ 2 := by
  unfold pushCount
  split_ifs with h1 h2
  · exact dqCount_lt_of_pushTwo hp h2
  · exact dqCount_lt_of_push hp h1
  · exact hp.dqCount_le

/-! ## Pointers after a cycle -/

theorem retireStep_eq : retireStep (s.comb i) = BitVec.ofNat 6 (s.retireCount i) := by
  have hb : (s.retires i || s.bumps) = s.retires i := by
    cases hb : s.bumps with
    | false => simp
    | true => simp [bumps_retires (i := i) hb]
  rw [retireStep, comb_tRetire, comb_tBumpRobHead, comb_tRetireTwo, hb, retireCount]
  split_ifs <;> rfl

theorem allocStep_eq : allocStep (s.comb i) = BitVec.ofNat 6 (s.allocCount i) := by
  rw [allocStep, comb_tAlloc, comb_tAllocTwo, allocCount]
  split_ifs <;> rfl

theorem dqPopStep_eq : dqPopStep (s.comb i) = BitVec.ofNat 3 (s.allocCount i) := by
  rw [dqPopStep, comb_tAlloc, comb_tAllocTwo, allocCount]
  split_ifs <;> rfl

theorem dqPushStep_eq : dqPushStep s i = BitVec.ofNat 3 (s.pushCount i) := by
  rw [dqPushStep, pushCount]
  split_ifs <;> rfl

theorem step_robHeadPtr (h : s.flushes = false) :
    (s.step i).robHeadPtr = s.robHeadPtr + BitVec.ofNat 6 (s.retireCount i) := by
  rw [← retireStep_eq]
  simp [step, clock, nRobHeadPtr, h]

theorem step_robTailPtr (h : s.flushes = false) :
    (s.step i).robTailPtr = s.robTailPtr + BitVec.ofNat 6 (s.allocCount i) := by
  rw [← allocStep_eq]
  simp [step, clock, nRobTailPtr, h]

theorem step_robCount (hp : s.Pointers) (hm : s.MonitorAllocated i) (h : s.flushes = false) :
    (s.step i).robCount = s.robCount + s.allocCount i - s.retireCount i := by
  have h1 := allocCount_room (i := i) hp
  have h2 := retireCount_le hp hm
  rw [robCount, step_robHeadPtr h, step_robTailPtr h]
  have hpush : Ring.count s.robHeadPtr (s.robTailPtr + BitVec.ofNat 6 (s.allocCount i)) =
      s.robCount + s.allocCount i := Ring.count_push (by unfold robCount at h1; omega)
  rw [Ring.count_pop (by omega), hpush]

theorem step_flush (h : s.flushes = true) :
    (s.step i).robHeadPtr = 0 ∧ (s.step i).robTailPtr = 0 ∧ (s.step i).robCount = 0 ∧
      (s.step i).window = [] := by
  have h1 : (s.step i).robHeadPtr = 0 := by simp [step, clock, nRobHeadPtr, h]
  have h2 : (s.step i).robTailPtr = 0 := by simp [step, clock, nRobTailPtr, h]
  have h3 : (s.step i).robCount = 0 := by rw [robCount, h1, h2, Ring.count_self]
  exact ⟨h1, h2, h3, by rw [window, h3]; rfl⟩

theorem clearsDq_eq : clearsDq (s.comb i) = s.clearsQueue i := by
  rw [clearsDq, comb_tClrRob, comb_tClrDq]
  cases hf : s.flushes with
  | false => simp
  | true =>
    simp only [flushes, beq_iff_eq] at hf
    simp [clearsQueue, hf]

theorem step_dqHeadPtr (h : s.clearsQueue i = false) :
    (s.step i).dqHeadPtr = s.dqHeadPtr + BitVec.ofNat 3 (s.allocCount i) := by
  rw [← dqPopStep_eq]
  simp [step, clock, nDqHeadPtr, clearsDq_eq, h]

theorem step_dqTailPtr (h : s.clearsQueue i = false) :
    (s.step i).dqTailPtr = s.dqTailPtr + BitVec.ofNat 3 (s.pushCount i) := by
  rw [← dqPushStep_eq]
  simp [step, clock, nDqTailPtr, clearsDq_eq, h]

theorem step_dqCount (hp : s.DqPointers) (h : s.clearsQueue i = false) :
    (s.step i).dqCount = s.dqCount + s.pushCount i - s.allocCount i := by
  have h1 := pushCount_room (i := i) hp
  have h2 := allocCount_le (i := i) hp
  rw [dqCount, step_dqHeadPtr h, step_dqTailPtr h]
  have hpush : Ring.count s.dqHeadPtr (s.dqTailPtr + BitVec.ofNat 3 (s.pushCount i)) =
      s.dqCount + s.pushCount i := Ring.count_push (by unfold dqCount at h1; omega)
  rw [Ring.count_pop (by omega), hpush]

theorem step_clearQueue (h : s.clearsQueue i = true) :
    (s.step i).dqCount = 0 ∧ (s.step i).queue = [] := by
  have h1 : (s.step i).dqHeadPtr = 0 := by simp [step, clock, nDqHeadPtr, clearsDq_eq, h]
  have h2 : (s.step i).dqTailPtr = 0 := by simp [step, clock, nDqTailPtr, clearsDq_eq, h]
  have h3 : (s.step i).dqCount = 0 := by rw [dqCount, h1, h2, Ring.count_self]
  exact ⟨h3, by rw [queue, h3]; rfl⟩

theorem nextState_drain (hs : s.nextState i = .DRAIN) : s.state = .ACTIVE ∨ s.state = .DRAIN := by
  cases hst : s.state with
  | ACTIVE => exact Or.inl rfl
  | DRAIN => exact Or.inr rfl
  | _ => simp only [nextState, hst] at hs; first | cases hs | split_ifs at hs

/-- A drain that still waits for a delay slot entered with one behind the branch. -/
theorem step_drainSlot (hp : s.Pointers) (hm : s.MonitorAllocated i)
    (hs : s.nextState i = .DRAIN) (hd : s.nextDsDone i = false) : 0 < (s.step i).robCount := by
  have hle := retireCount_le hp hm
  cases hst : s.state with
  | ACTIVE =>
    have hfl : s.flushes = false := by simp [flushes, hst]
    simp only [nextState, hst, activeState] at hs
    simp only [nextDsDone, hst] at hd
    have hirq : s.takesIrq = false := by
      cases h : s.takesIrq with
      | false => rfl
      | true => simp [h] at hs
    have hnf : s.serialState ≠ .DRAIN := by unfold serialState; split_ifs <;> decide
    have hret : s.tCanRetireRobHead = true := by
      by_contra h
      simp only [hirq, h, Bool.false_eq_true, ↓reduceIte] at hs
      split_ifs at hs
      exact hnf hs
    have hf : s.tRobHead.faulted = true := by
      by_contra h
      simp [hirq, hret, h] at hs
    simp only [hirq, hret, hf, Bool.false_eq_true, ↓reduceIte] at hs
    have hslot : s.tRobHead.hasDelaySlot = true := by simpa [hirq, hret, hf, hs] using hd
    have hempty : s.tRobEmpty = false ∧ s.tRobNextEmpty = false := by
      simp only [tCanRetireRobHead, hslot, hf, Bool.true_or, Bool.and_true, ↓reduceIte,
        Bool.and_eq_true, Bool.not_eq_true'] at hret
      exact ⟨hret.1.2, hret.2⟩
    have htwo : s.retiresTwo = false := by simp [retiresTwo, canRetireTwo, hf]
    have hcount : s.retireCount i ≤ 1 := by rw [retireCount, htwo]; split_ifs <;> simp_all
    have hlt := (robCount_one_lt hp hempty.1).mp hempty.2
    rw [step_robCount hp hm hfl]
    omega
  | DRAIN =>
    have hfl : s.flushes = false := by simp [flushes, hst]
    simp only [nextDsDone, hst, Bool.or_eq_false_iff] at hd
    have hret : s.retireCount i = 0 := by
      rw [retireCount, retires]
      have := hd.2
      cases hc : s.tRobHeadComplete <;> simp_all
    have hpos := hp.drainSlot hst hd.1
    rw [step_robCount hp hm hfl, hret]
    omega
  | _ => rcases nextState_drain hs with h | h <;> rw [hst] at h <;> cases h

theorem step_robNextHead (hn : s.robNextHeadPtr = s.robHeadPtr + 1) :
    (s.step i).robNextHeadPtr = (s.step i).robHeadPtr + 1 := by
  cases h : s.flushes <;> simp [step, clock, nRobHeadPtr, nRobNextHeadPtr, h, hn]
  ac_rfl

theorem step_robNextTail (hn : s.robNextTailPtr = s.robTailPtr + 1) :
    (s.step i).robNextTailPtr = (s.step i).robTailPtr + 1 := by
  cases h : s.flushes <;> simp [step, clock, nRobTailPtr, nRobNextTailPtr, h, hn]
  ac_rfl

theorem run_robNextHead (rob : RobPtr → RobEntry) (dq : BitVec 2 → Uop) (inputs : List CoreIn) :
    (Clocked.run step (Core.reset rob dq) inputs).robNextHeadPtr =
      (Clocked.run step (Core.reset rob dq) inputs).robHeadPtr + 1 :=
  @Clocked.run_invariant _ _ _ (fun s : Core => s.robNextHeadPtr = s.robHeadPtr + 1)
    (fun _ _ hn => step_robNextHead hn) _ rfl inputs

theorem step_dqPointers (hp : s.DqPointers) : (s.step i).DqPointers := by
  refine ⟨?_, ?_, ?_⟩
  · cases h : s.clearsQueue i <;>
      simp [step, clock, nDqHeadPtr, nDqNextHeadPtr, clearsDq_eq, h, hp.dqNextHead]
    ac_rfl
  · cases h : s.clearsQueue i <;>
      simp [step, clock, nDqTailPtr, nDqNextTailPtr, clearsDq_eq, h, hp.dqNextTail]
    ac_rfl
  · cases h : s.clearsQueue i with
    | true => rw [(step_clearQueue h).1]; omega
    | false =>
      have := pushCount_room (i := i) hp
      rw [step_dqCount hp h]
      omega

theorem step_pointers (hp : s.Pointers) (hm : s.MonitorAllocated i) : (s.step i).Pointers := by
  refine ⟨step_dqPointers hp.toDqPointers, step_robNextHead hp.robNextHead,
    step_robNextTail hp.robNextTail, ?_, ?_⟩
  · cases h : s.flushes with
    | true => rw [(step_flush h).2.2.1]; omega
    | false =>
      have := allocCount_room (i := i) hp
      rw [step_robCount hp hm h]
      omega
  · intro hs hd
    exact step_drainSlot hp hm (by simpa using hs) (by simpa using hd)

/-! ## Contents after a cycle -/

/-- A view of an entry that no result changes. -/
def Stable {β : Type*} (f : RobEntry → β) : Prop :=
  (∀ b e, f (completeEntry b e) = f e) ∧ ∀ r e, f (memEntry r e) = f e

theorem Stable.modifyIf {β : Type*} {f : RobEntry → β} {g : RobEntry → RobEntry}
    (hg : ∀ e, f (g e) = f e) (v : Bool) (p q : RobPtr) (m : RobPtr → RobEntry) :
    f (Ring.modifyIf v p g m q) = f (m q) := by
  unfold Ring.modifyIf writeIf
  split_ifs
  · by_cases hq : q = p
    · rw [hq, Function.update_self, hg]
    · rw [Function.update_of_ne hq]
  · rfl

theorem Stable.writeResults {β : Type*} {f : RobEntry → β} (hf : Stable f) (m : RobPtr → RobEntry)
    (q : RobPtr) : f (Core.writeResults i m q) = f (m q) := by
  unfold Core.writeResults
  rw [Stable.modifyIf (hf.2 _), Stable.modifyIf (hf.1 _), Stable.modifyIf (hf.1 _)]

/-- The buffer after the allocations of the cycle and before its results. -/
def robAllocated (s : Core) (i : CoreIn) : RobPtr → RobEntry :=
  writeIf (s.allocatesTwo i) (Ring.slot s.robNextTailPtr) s.tRobNextTail <|
    writeIf (s.allocates i) (Ring.slot s.robTailPtr) s.tRobTail s.rob

theorem step_rob (h : s.flushes = false) : (s.step i).rob = writeResults i (s.robAllocated i) := by
  simp [step, clock, nRob, h, robAllocated]

theorem contents_robAllocated (hp : s.Pointers) :
    Ring.contents (s.robAllocated i) s.robHeadPtr (s.robCount + s.allocCount i) =
      s.window ++ s.newEntries i :=
  Ring.contents_writeIf (fun h => (allocatesTwo_allocates h).1) hp.robNextTail (allocCount_room hp) _ _

/-- A cycle without a flush appends the allocated entries and drops the retired ones. -/
theorem step_window_map {β : Type*} {f : RobEntry → β} (hf : Stable f) (hp : s.Pointers)
    (hm : s.MonitorAllocated i) (h : s.flushes = false) :
    (s.step i).window.map f = ((s.window ++ s.newEntries i).map f).drop (s.retireCount i) := by
  rw [window, ← Ring.contents_map, step_rob h]
  simp only [hf.writeResults]
  rw [Ring.contents_map, step_robHeadPtr h, step_robCount hp hm h, ← Ring.contents_drop,
    contents_robAllocated hp, List.map_drop]

/-- A record of what is in the buffer stays one when it takes up what is allocated and drops what
retires. -/
theorem step_window_view {β γ : Type*} {f : RobEntry → β} {g : γ → β} {live new : List γ}
    (hf : Stable f) (hp : s.Pointers) (hm : s.MonitorAllocated i) (h : s.flushes = false)
    (hl : s.window.map f = live.map g) (hnew : (s.newEntries i).map f = new.map g) :
    (s.step i).window.map f = ((live ++ new).drop (s.retireCount i)).map g := by
  rw [step_window_map hf hp hm h, List.map_append, hl, hnew, ← List.map_append, ← List.map_drop]

theorem contents_nDq (hp : s.DqPointers) (h : s.clearsQueue i = false) :
    Ring.contents (s.step i).dq s.dqHeadPtr (s.dqCount + s.pushCount i) = s.queue ++ newUops s i := by
  have hdq : (s.step i).dq = writeIf (dqPushTwo s i) (Ring.slot s.dqNextTailPtr) (tDecUop2 i)
      (writeIf (dqPush s i) (Ring.slot s.dqTailPtr) (tDecUop i) s.dq) := by
    simp [step, clock, nDq, h]
  rw [hdq]
  exact Ring.contents_writeIf (fun h2 => by simp_all [dqPushTwo]) hp.dqNextTail (pushCount_room hp) _ _

/-- A cycle that keeps the decode queue appends the decoded uops and drops the allocated ones. -/
theorem step_queue (hp : s.DqPointers) (h : s.clearsQueue i = false) :
    (s.step i).queue = (s.queue ++ newUops s i).drop (s.allocCount i) := by
  rw [queue, step_dqHeadPtr h, step_dqCount hp h, ← Ring.contents_drop, contents_nDq hp h]

/-! ## Heads of the queues -/

theorem window_cons (h : s.tRobEmpty = false) : ∃ rest, s.window = s.tRobHead :: rest := by
  rw [window, Ring.contents_pop _ _ (robCount_pos.mp h)]
  exact ⟨_, rfl⟩

theorem window_cons_cons (hp : s.Pointers) (h : s.tRobEmpty = false) (hn : s.tRobNextEmpty = false) :
    ∃ rest, s.window = s.tRobHead :: s.tRobNextHead :: rest := by
  have hlt := (robCount_one_lt hp h).mp hn
  rw [window, Ring.contents_pop _ _ (by omega), Ring.contents_pop _ _ (by omega), ← hp.robNextHead]
  exact ⟨_, rfl⟩

theorem queue_cons (h : s.tDqEmpty = false) : ∃ rest, s.queue = s.tUop :: rest := by
  rw [queue, Ring.contents_pop _ _ (dqCount_pos.mp h)]
  exact ⟨_, rfl⟩

theorem queue_cons_cons (hp : s.DqPointers) (h : s.tDqEmpty = false) (hn : s.tDqNextEmpty = false) :
    ∃ rest, s.queue = s.tUop :: s.tUop2 :: rest := by
  have hlt := (dqCount_one_lt hp h).mp hn
  rw [queue, Ring.contents_pop _ _ (by omega), Ring.contents_pop _ _ (by omega), ← hp.dqNextHead]
  exact ⟨_, rfl⟩

/-! ## Waiting uops -/

/-- What the decoder guarantees of every uop holds of the waiting ones. -/
theorem step_queue_forall {P : Uop → Prop} (hP : ∀ m f, P (decodeMips32 m f)) (hp : s.DqPointers)
    (hq : ∀ u ∈ s.queue, P u) : ∀ u ∈ (s.step i).queue, P u := by
  intro u hu
  cases hc : s.clearsQueue i with
  | true => rw [(step_clearQueue hc).2] at hu; cases hu
  | false =>
    rw [step_queue hp hc] at hu
    rcases List.mem_append.mp (List.mem_of_mem_drop hu) with hu | hu
    · exact hq u hu
    · unfold newUops at hu
      split_ifs at hu <;> simp only [List.mem_cons, List.not_mem_nil, or_false] at hu
      · rcases hu with rfl | rfl
        · exact hP _ _
        · exact hP _ _
      · exact hu ▸ hP _ _

theorem tUop_mem (ha : s.allocates i = true) : s.tUop ∈ s.queue := by
  obtain ⟨rest, hq⟩ := queue_cons (allocates_room ha).2
  rw [hq]
  exact List.mem_cons_self

theorem tUop2_mem (hp : s.DqPointers) (ha : s.allocatesTwo i = true) : s.tUop2 ∈ s.queue := by
  obtain ⟨ha1, hn, -, -⟩ := allocatesTwo_allocates ha
  obtain ⟨rest, hq⟩ := queue_cons_cons hp (allocates_room ha1).2 hn
  rw [hq]
  simp

theorem reset_queue (rob : RobPtr → RobEntry) (dq : BitVec 2 → Uop) :
    (Core.reset rob dq).queue = [] := by
  rw [queue, show (Core.reset rob dq).dqCount = 0 by simp [dqCount, Core.reset]]
  rfl

end Core
end MipsCore
