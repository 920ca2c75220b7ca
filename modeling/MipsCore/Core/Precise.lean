import MipsCore.Core.Exceptions

/-! # Precise exceptions

Every decoded uop gets a fresh tag that travels with it through the decode queue
and the reorder buffer.  When an instruction raises an exception its own tag and
those behind it are dead, and a dead tag must not allocate or retire again.
-/
namespace MipsCore
open Clocked

namespace Core
variable {s : Core} {i : CoreIn}

/-- The entry at the head of the buffer retires with an exception: a terminal WAIT, a BREAK, an
illegal instruction, a trap or a TLB refill. -/
def raises (s : Core) (i : CoreIn) : Bool :=
  s.retires i && s.tRobHead.faulted && !s.tRobHead.isEret &&
    if s.tRobHead.isWait then !i.cpr0StatusReg.getLsbD 0
    else s.tRobHead.isBreak || s.tRobHead.isIi || s.tRobHead.takeTrap ||
      s.tRobHead.exceptionTlbRefill

/-- The register maps and free lists of the architecture. -/
def committed (s : Core) :=
  ((s.retireRat, s.fpRetireRat, s.hiloRetireRat, s.fcrRetireRat),
    s.retirePrfFree, s.retireFpPrfFree, s.retireHiloPrfFree, s.retireFcrPrfFree)

/-- The entry renames no register of any class. -/
def hasNoDst (e : RobEntry) : Bool :=
  !e.validDst && !e.validHiloDst && !e.validFcrDst && !e.validFpDst

/-- An exception is raised by an entry with a destination, or outside a drain in front of another
entry. -/
def disturbs (s : Core) (i : CoreIn) : Bool :=
  s.raises i && !(hasNoDst s.tRobHead && (s.state == .DRAIN || s.tRobNextEmpty))

/-- No exception is disturbed, and monitor calls retire what they allocated. -/
def Undisturbed (s : Core) (i : CoreIn) : Prop := s.MonitorAllocated i ∧ s.disturbs i = false

instance (s : Core) (i : CoreIn) : Decidable (s.Undisturbed i) :=
  inferInstanceAs (Decidable (_ ∧ _))

theorem raises_retires (h : s.raises i = true) : s.retires i = true := by
  simp only [raises, Bool.and_eq_true] at h
  exact h.1.1.1

theorem raises_faulted (h : s.raises i = true) : s.tRobHead.faulted = true := by
  simp only [raises, Bool.and_eq_true] at h
  exact h.1.1.2

theorem raises_faultState (h : s.raises i = true) :
    s.faultState i = .WRITE_EPC ∨ s.faultState i = .WRITE_BADVADDR := by
  simp only [raises, Bool.and_eq_true, Bool.not_eq_true'] at h
  obtain ⟨⟨-, he⟩, hx⟩ := h
  unfold faultState
  cases hw : s.tRobHead.isWait with
  | true => simp_all
  | false =>
    simp only [hw, Bool.false_eq_true, ↓reduceIte, Bool.or_eq_true] at hx
    simp only [he, Bool.false_eq_true, ↓reduceIte]
    rcases hx with hx | hx
    · left; simp [hx]
    · cases s.tRobHead.isBreak || s.tRobHead.isIi || s.tRobHead.takeTrap <;> simp [hx]

theorem Undisturbed.noDst (hg : s.Undisturbed i) (h : s.raises i = true) :
    hasNoDst s.tRobHead = true ∧ (s.state ≠ .DRAIN → s.tRobNextEmpty = true) := by
  have := hg.2
  simp only [disturbs, h, Bool.true_and, Bool.not_eq_eq_eq_not, Bool.not_false,
    Bool.and_eq_true, Bool.or_eq_true, beq_iff_eq] at this
  exact ⟨this.1, fun hs => this.2.resolve_left hs⟩

theorem raises_not_retiresTwo (h : s.raises i = true) : s.retiresTwo = false := by
  simp [retiresTwo, canRetireTwo, raises_faulted h]

/-- An entry without a destination leaves the architecture's maps and free lists alone. -/
theorem step_committed (h : s.raises i = true) (hd : hasNoDst s.tRobHead = true) :
    (s.step i).committed = s.committed := by
  have htwo := raises_not_retiresTwo h
  simp only [hasNoDst, Bool.and_eq_true, Bool.not_eq_true'] at hd
  obtain ⟨⟨⟨h1, h2⟩, h3⟩, h4⟩ := hd
  simp [committed, step, clock, nRetireRat, nFpRetireRat, nHiloRetireRat, nFcrRetireRat,
    nRetirePrfFree, nRetireFpPrfFree, nRetireHiloPrfFree, nRetireFcrPrfFree, retireMap, retireFree,
    tFreeReg, tFreeRegTwo, tFreeHilo, tFreeFcr, tFreeFpReg, tFreeFpRegTwo, htwo, h1, h2, h3, h4]

/-! ## States in which a queue holds dead instructions -/

/-- A drain whose delay slot is done, and the flush behind it. -/
def discards (s : Core) : Bool := s.state == .DRAIN && s.dsDone || s.state == .RAT

/-- From an exception to the resume that clears the decode queue. -/
def halts (s : Core) : Bool :=
  s.state == .WRITE_EPC || s.state == .WRITE_CAUSE || s.state == .WRITE_BADVADDR ||
    s.state == .FLUSH_FOR_HALT || s.state == .HALT

theorem discards_idle (h : s.discards = true) : s.retires i = false ∧ s.allocates i = false := by
  simp only [discards, Bool.or_eq_true, Bool.and_eq_true, beq_iff_eq] at h
  rcases h with ⟨hs, hd⟩ | hs <;> simp [retires, allocates, *]

theorem halts_idle (h : s.halts = true) : s.allocates i = false := by
  simp only [halts, Bool.or_eq_true, beq_iff_eq] at h
  rcases h with (((hs | hs) | hs) | hs) | hs <;> simp [allocates, hs]

theorem discards_step (h : s.discards = true) (hf : s.flushes = false) :
    (s.step i).discards = true := by
  simp only [discards, Bool.or_eq_true, Bool.and_eq_true, beq_iff_eq] at h
  rcases h with ⟨hs, hd⟩ | hs
  · cases hdr : s.drained i <;> simp [discards, nextState, nextDsDone, hs, hd, hdr]
  · simp [flushes, hs] at hf

theorem halts_step (h : s.halts = true) (hc : s.clearsQueue i = false) :
    (s.step i).halts = true := by
  simp only [halts, Bool.or_eq_true, beq_iff_eq] at h
  rcases h with (((hs | hs) | hs) | hs) | hs
  · simp [halts, nextState, hs]
  · simp [halts, nextState, hs]
  · simp [halts, nextState, hs]
  · cases hfl : s.flushed i <;> simp [halts, nextState, hs, hfl]
  · simp [clearsQueue, hs] at hc
    simp [halts, nextState, hs, hc]

/-- An exception in a drain is its delay slot, and the drain is then done. -/
theorem raises_drain (h : s.raises i = true) (hs : s.state = .DRAIN) :
    (s.step i).discards = true := by
  have hr := raises_retires h
  simp only [retires, hs, Bool.and_eq_true, Bool.not_eq_true'] at hr
  obtain ⟨⟨hc, hd⟩, hslot⟩ := hr
  cases hn : s.hasNullifyingDelaySlot <;> simp_all [discards, nextState, nextDsDone]

/-- Outside a drain an exception leads to the writing states or clears the decode queue. -/
theorem raises_step (h : s.raises i = true) (hs : s.state ≠ .DRAIN) :
    (s.step i).halts = true ∨ s.clearsQueue i = true := by
  have hr := raises_retires h
  have hf := raises_faulted h
  rcases retires_cases hr with hs' | hs' | hs'
  · left
    simp only [retires, hs', retiresActive, Bool.and_eq_true, Bool.not_eq_true'] at hr
    have hst : s.nextState i = s.faultState i := by
      simp [nextState, hs', activeState, hr.1, hr.2, hf]
    rcases raises_faultState h with hx | hx <;> simp [halts, hst, hx]
  · exact absurd hs' hs
  · right
    simp only [retires, hs', Bool.and_eq_true] at hr
    simp [clearsQueue, hs', hr.1]

theorem raises_idle (h : s.raises i = true) : s.allocates i = false := by
  have hr := raises_retires h
  rcases retires_cases hr with hs | hs | hs
  · simp only [retires, hs, retiresActive, Bool.and_eq_true] at hr
    simp [allocates, hs, offersAlloc, hr.2, raises_faulted h]
  · simp [allocates, hs]
  · simp [allocates, hs]

end Core

/-! ## Tags -/

/-- A core whose queues carry the tags of their uops and entries. -/
structure Tagged where
  core : Core
  dqTag : BitVec 2 → ℕ
  robTag : RobPtr → ℕ
  /-- the next fresh tag -/
  next : ℕ
  /-- the tags of the instructions that raised an exception and of those behind them -/
  dead : List ℕ

namespace Tagged
open MipsCore.Core
open Ring (writeIf)

def reset (rob : RobPtr → RobEntry) (dq : BitVec 2 → Uop) : Tagged where
  core := Core.reset rob dq
  dqTag := fun _ => 0
  robTag := fun _ => 0
  next := 0
  dead := []

variable (t : Tagged) (i : CoreIn)

/-- The tags of the un-retired entries, oldest first. -/
def window : List ℕ := Ring.contents t.robTag t.core.robHeadPtr t.core.robCount
/-- The tags of the uops in the decode queue. -/
def queue : List ℕ := Ring.contents t.dqTag t.core.dqHeadPtr t.core.dqCount

def headTag : ℕ := t.robTag (Ring.slot t.core.robHeadPtr)
def nextHeadTag : ℕ := t.robTag (Ring.slot t.core.robNextHeadPtr)
def uopTag : ℕ := t.dqTag (Ring.slot t.core.dqHeadPtr)
def uopTag2 : ℕ := t.dqTag (Ring.slot t.core.dqNextHeadPtr)

/-- The tags that retire in a cycle. -/
def retired : List ℕ :=
  if t.core.retires i then
    if t.core.retiresTwo then [t.headTag, t.nextHeadTag] else [t.headTag]
  else []
/-- The tags that are allocated in a cycle. -/
def allocated : List ℕ :=
  if t.core.allocates i then
    if t.core.allocatesTwo i then [t.uopTag, t.uopTag2] else [t.uopTag]
  else []

def fresh : List ℕ :=
  if dqPush t.core i then if dqPushTwo t.core i then [t.next, t.next + 1] else [t.next] else []

/-- A cycle of the core; the tags go where their uops and entries are written. -/
def step : Tagged where
  core := t.core.step i
  dqTag := writeIf (dqPushTwo t.core i) (Ring.slot t.core.dqNextTailPtr) (t.next + 1)
    (writeIf (dqPush t.core i) (Ring.slot t.core.dqTailPtr) t.next t.dqTag)
  robTag := writeIf (t.core.allocatesTwo i) (Ring.slot t.core.robNextTailPtr) t.uopTag2
    (writeIf (t.core.allocates i) (Ring.slot t.core.robTailPtr) t.uopTag t.robTag)
  next := t.next + 2
  dead := if t.core.raises i then t.dead ++ t.window ++ t.queue else t.dead

/-- An exception changes no committed map, and no dead tag retires or allocates. -/
def Precise : Prop :=
  (t.core.raises i = true → (t.core.step i).committed = t.core.committed) ∧
    ∀ tag ∈ t.retired i ++ t.allocated i, tag ∉ t.dead

variable {t i}

theorem window_step (hp : t.core.Pointers) (hm : t.core.MonitorAllocated i)
    (h : t.core.flushes = false) :
    (t.step i).window = (t.window ++ t.allocated i).drop (t.core.retireCount i) := by
  have hw : Ring.contents (t.step i).robTag t.core.robHeadPtr
      (t.core.robCount + t.core.allocCount i) = t.window ++ t.allocated i :=
    Ring.contents_writeIf (fun h => (allocatesTwo_allocates h).1) hp.robNextTail (allocCount_room hp) _ _
  change Ring.contents (t.step i).robTag (t.core.step i).robHeadPtr (t.core.step i).robCount = _
  rw [step_robHeadPtr h, step_robCount hp hm h, ← Ring.contents_drop, hw]

theorem queue_step (hp : t.core.DqPointers) (h : t.core.clearsQueue i = false) :
    (t.step i).queue = (t.queue ++ t.fresh i).drop (t.core.allocCount i) := by
  have hq : Ring.contents (t.step i).dqTag t.core.dqHeadPtr
      (t.core.dqCount + t.core.pushCount i) = t.queue ++ t.fresh i :=
    Ring.contents_writeIf (fun h2 => by simp_all [dqPushTwo]) hp.dqNextTail (pushCount_room hp) _ _
  change Ring.contents (t.step i).dqTag (t.core.step i).dqHeadPtr (t.core.step i).dqCount = _
  rw [step_dqHeadPtr h, step_dqCount hp h, ← Ring.contents_drop, hq]

theorem window_step_flush (h : t.core.flushes = true) : (t.step i).window = [] := by
  change Ring.contents (t.step i).robTag (t.core.step i).robHeadPtr (t.core.step i).robCount = _
  rw [(step_flush h).2.2.1]
  rfl

theorem queue_step_clear (h : t.core.clearsQueue i = true) : (t.step i).queue = [] := by
  change Ring.contents (t.step i).dqTag (t.core.step i).dqHeadPtr (t.core.step i).dqCount = _
  rw [(step_clearQueue h).1]
  rfl

/-- What retires leaves the buffer, and what allocates leaves the decode queue. -/
theorem retired_subset (hp : t.core.Pointers) (hm : t.core.MonitorAllocated i) :
    t.retired i ⊆ t.window := by
  have hle := retireCount_le hp hm
  unfold retireCount at hle
  unfold retired window headTag nextHeadTag
  split_ifs at hle ⊢
  · rw [hp.robNextHead, Ring.contents_pop _ _ (by omega), Ring.contents_pop _ _ (by omega)]
    simp
  · rw [Ring.contents_pop _ _ (by omega)]
    simp
  · simp

theorem allocated_subset (hp : t.core.DqPointers) : t.allocated i ⊆ t.queue := by
  have hle := allocCount_le (i := i) hp
  unfold allocCount at hle
  unfold allocated queue uopTag uopTag2
  split_ifs at hle ⊢
  · rw [hp.dqNextHead, Ring.contents_pop _ _ (by omega), Ring.contents_pop _ _ (by omega)]
    simp
  · rw [Ring.contents_pop _ _ (by omega)]
    simp
  · simp

/-! ## Dead tags stay dead -/

/-- Every tag is older than the next one, and a dead tag is only left where nothing moves. -/
structure Inv (t : Tagged) : Prop where
  pointers : t.core.Pointers
  window_lt : ∀ tag ∈ t.window, tag < t.next
  queue_lt : ∀ tag ∈ t.queue, tag < t.next
  dead_lt : ∀ tag ∈ t.dead, tag < t.next
  window_live : t.core.discards = false → ∀ tag ∈ t.window, tag ∉ t.dead
  queue_live : t.core.discards = false → t.core.halts = false → ∀ tag ∈ t.queue, tag ∉ t.dead

theorem reset_inv (rob : RobPtr → RobEntry) (dq : BitVec 2 → Uop) : (reset rob dq).Inv where
  pointers := reset_pointers rob dq
  window_lt := by simp [window, reset, robCount, Core.reset, Ring.contents]
  queue_lt := by simp [queue, reset, dqCount, Core.reset, Ring.contents]
  dead_lt := by simp [reset]
  window_live := by simp [reset]
  queue_live := by simp [reset]

theorem mem_window_step (hp : t.core.Pointers) (hm : t.core.MonitorAllocated i) {tag : ℕ}
    (h : tag ∈ (t.step i).window) :
    t.core.flushes = false ∧ (tag ∈ t.window ∨ tag ∈ t.allocated i) := by
  cases hf : t.core.flushes with
  | true => rw [window_step_flush hf] at h; cases h
  | false =>
    rw [window_step hp hm hf] at h
    exact ⟨rfl, List.mem_append.mp (List.mem_of_mem_drop h)⟩

theorem mem_queue_step (hp : t.core.DqPointers) {tag : ℕ} (h : tag ∈ (t.step i).queue) :
    t.core.clearsQueue i = false ∧ (tag ∈ t.queue ∨ tag ∈ t.fresh i) := by
  cases hc : t.core.clearsQueue i with
  | true => rw [queue_step_clear hc] at h; cases h
  | false =>
    rw [queue_step hp hc] at h
    exact ⟨rfl, List.mem_append.mp (List.mem_of_mem_drop h)⟩

theorem mem_fresh {tag : ℕ} (h : tag ∈ t.fresh i) : t.next ≤ tag ∧ tag < t.next + 2 := by
  unfold fresh at h
  split_ifs at h
  · simp only [List.mem_cons, List.not_mem_nil, or_false] at h; omega
  · simp only [List.mem_cons, List.not_mem_nil, or_false] at h; omega
  · cases h

theorem mem_dead_step {tag : ℕ} (h : tag ∈ (t.step i).dead) :
    tag ∈ t.dead ∨ tag ∈ t.window ∨ tag ∈ t.queue := by
  simp only [step] at h
  split_ifs at h
  · simpa only [List.mem_append, or_assoc] using h
  · exact Or.inl h

theorem allocates_of_mem {tag : ℕ} (h : tag ∈ t.allocated i) : t.core.allocates i = true := by
  by_contra hn
  simp [allocated, hn] at h

/-- Outside a drain, an exception of the only entry leaves an empty buffer. -/
theorem window_step_raises (hp : t.core.Pointers) (hg : t.core.Undisturbed i)
    (hr : t.core.raises i = true) (hs : t.core.state ≠ .DRAIN) (hf : t.core.flushes = false) :
    (t.step i).window = [] := by
  have hret := raises_retires hr
  have hne := retires_nonempty hp hg.1 hret
  have hone : t.core.robCount = 1 := by
    by_contra hlt
    have := (robCount_one_lt hp (robCount_pos.mpr hne)).mpr (by omega)
    simp [(hg.noDst hr).2 hs] at this
  have hcount : t.core.retireCount i = 1 := by
    simp [retireCount, hret, raises_not_retiresTwo hr]
  rw [window_step hp hg.1 hf, allocated, raises_idle hr, hcount]
  refine List.drop_eq_nil_of_le ?_
  simp [window, hone]

theorem step_inv (h : t.Inv) (hg : t.core.Undisturbed i) : (t.step i).Inv := by
  have hp := h.pointers
  have hm := hg.1
  have hdq := hp.toDqPointers
  have halloc := allocated_subset (i := i) hdq
  -- without a flush a discarding state stays one, and without a clear a halting one
  have hdis : t.core.flushes = false → (t.core.step i).discards = false →
      t.core.discards = false := fun hf hd => by
    by_contra hc
    simp [discards_step (by simpa using hc) hf] at hd
  have hhalt : t.core.clearsQueue i = false → (t.core.step i).halts = false →
      t.core.halts = false := fun hq hh => by
    by_contra hc
    simp [halts_step (by simpa using hc) hq] at hh
  refine ⟨step_pointers hp hm, fun tag ht => ?_, fun tag ht => ?_, fun tag ht => ?_,
    fun hd tag ht => ?_, fun hd hh tag ht => ?_⟩
  · rcases (mem_window_step hp hm ht).2 with ht | ht
    · have := h.window_lt tag ht; simp only [step]; omega
    · have := h.queue_lt tag (halloc ht); simp only [step]; omega
  · rcases (mem_queue_step hdq ht).2 with ht | ht
    · have := h.queue_lt tag ht; simp only [step]; omega
    · have := mem_fresh ht; simp only [step]; omega
  · rcases mem_dead_step ht with ht | ht | ht
    · have := h.dead_lt tag ht; simp only [step]; omega
    · have := h.window_lt tag ht; simp only [step]; omega
    · have := h.queue_lt tag ht; simp only [step]; omega
  · obtain ⟨hf, hmem⟩ := mem_window_step hp hm ht
    have hd0 := hdis hf hd
    cases hr : t.core.raises i with
    | true =>
      have hs : t.core.state ≠ .DRAIN := fun hs => by simp [step, raises_drain hr hs] at hd
      rw [window_step_raises hp hg hr hs hf] at ht
      cases ht
    | false =>
      simp only [step, hr, Bool.false_eq_true, ↓reduceIte]
      rcases hmem with hmem | hmem
      · exact h.window_live hd0 tag hmem
      · have hnh : t.core.halts = false := by
          by_contra hc
          have := halts_idle (i := i) (by simpa using hc)
          rw [allocates_of_mem hmem] at this
          cases this
        exact h.queue_live hd0 hnh tag (halloc hmem)
  · obtain ⟨hq, hmem⟩ := mem_queue_step hdq ht
    have hf : t.core.flushes = false := by
      by_contra hc
      simp only [flushes, Bool.not_eq_false, beq_iff_eq] at hc
      simp [clearsQueue, hc] at hq
    have hd0 := hdis hf hd
    have hh0 := hhalt hq hh
    cases hr : t.core.raises i with
    | true =>
      have hs : t.core.state ≠ .DRAIN := fun hs => by simp [step, raises_drain hr hs] at hd
      rcases raises_step hr hs with hx | hx
      · simp [step, hx] at hh
      · rw [hx] at hq; cases hq
    | false =>
      simp only [step, hr, Bool.false_eq_true, ↓reduceIte]
      rcases hmem with hmem | hmem
      · exact h.queue_live hd0 hh0 tag hmem
      · intro hdead
        have h1 := h.dead_lt tag hdead
        have h2 := mem_fresh hmem
        omega

theorem Inv.precise (h : t.Inv) (hg : t.core.Undisturbed i) : t.Precise i := by
  refine ⟨fun hr => step_committed hr (hg.noDst hr).1, fun tag ht => ?_⟩
  rcases List.mem_append.mp ht with ht | ht
  · have hd : t.core.discards = false := by
      by_contra hc
      have := (discards_idle (i := i) (by simpa using hc)).1
      simp [retired, this] at ht
    exact h.window_live hd tag (retired_subset h.pointers hg.1 ht)
  · have ha := allocates_of_mem ht
    have hd : t.core.discards = false := by
      by_contra hc
      have := (discards_idle (i := i) (by simpa using hc)).2
      rw [ha] at this
      cases this
    have hh : t.core.halts = false := by
      by_contra hc
      have := halts_idle (i := i) (by simpa using hc)
      rw [ha] at this
      cases this
    exact h.queue_live hd hh tag (allocated_subset h.pointers.toDqPointers ht)

/-- In every run from reset whose exceptions are raised undisturbed, no exception changes a
committed map and nothing it killed retires or allocates. -/
theorem guarded_precise (rob : RobPtr → RobEntry) (dq : BitVec 2 → Uop) (inputs : List CoreIn)
    (hg : Guarded step (fun t i => t.core.Undisturbed i) (reset rob dq) inputs) :
    Guarded step Precise (reset rob dq) inputs := by
  refine hg.of_invariant ?_ ?_ (reset_inv rob dq)
  · exact fun t i h hu => step_inv h hu
  · exact fun t i h hu => h.precise hu

/-- A lone illegal instruction, its halt, and the resume behind it. -/
def haltedRun : List CoreIn :=
  illegalRun 0x100 ++
    ([{}, {}, {}, {}, { l1iFlushComplete := true, l1dFlushComplete := true }, { resume := true },
      { restartAck := true }, { insnValid := true }, {}, {}] : List CoreIn)

theorem guarded_precise_halted :
    Guarded step Precise (reset (fun _ => {}) fun _ => {}) haltedRun :=
  guarded_precise _ _ _ (by decide +kernel)

/-- An illegal instruction and a NOP allocated together, the exception, its halt and the resume
behind it. -/
def staleRun : List CoreIn :=
  [{ resume := true }, { restartAck := true },
    { insn := illegalInsn 0x100, insnValid := true, insnTwo := { pc := 0x104 },
      insnValidTwo := true },
    {}, {}, {}, {}, { l1iFlushComplete := true, l1dFlushComplete := true }, { resume := true },
    { restartAck := true }]

/-- The NOP behind the illegal instruction retires after the resume. -/
theorem exists_not_precise :
    ¬∀ (rob : RobPtr → RobEntry) (dq : BitVec 2 → Uop) (inputs : List CoreIn),
      Guarded step Precise (reset rob dq) inputs := by
  intro h
  have hg := h (fun _ => {}) (fun _ => {}) (staleRun ++ [({} : CoreIn)])
  have hdead : ((run step (reset (fun _ => {}) fun _ => {}) staleRun).core.retires {} &&
      (run step (reset (fun _ => {}) fun _ => {}) staleRun).dead.contains
        (run step (reset (fun _ => {}) fun _ => {}) staleRun).headTag) = true := by decide +kernel
  have hp := (guarded_append.mp hg).2.1
  generalize run step (reset (fun _ => {}) fun _ => {}) staleRun = t at hdead hp
  simp only [Bool.and_eq_true, List.contains_iff_mem] at hdead
  refine hp.2 t.headTag (List.mem_append_left _ ?_) hdead.2
  unfold retired
  split_ifs <;> simp_all

end Tagged
end MipsCore
