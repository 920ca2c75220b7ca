import MipsCore.Core.ClassRename

/-! # The pointers and the dead mask of the reorder buffer

As long as the allocation of a monitor call is not refused, the four pointers
delimit the un-retired entries and the dead mask marks exactly these.
`ALLOC_FOR_MONITOR` moves on without its allocation, and the call then retires
from an empty buffer.
-/
namespace MipsCore
namespace Core
open BitMask Clocked
variable {s : Core} {i : CoreIn}

/-! ## The dead mask -/

/-- The mask after the retirements of a cycle. -/
theorem deadInsns_retire (hp : s.Pointers) (hm : s.MonitorAllocated i)
    (h : members s.robDeadInsns = Ring.occupied s.robHeadPtr s.robCount) :
    members (setBitIf s.retiresTwo (Ring.slot s.robNextHeadPtr) false
        (setBitIf (s.retires i) (Ring.slot s.robHeadPtr) false s.robDeadInsns)) =
      Ring.occupied (s.robHeadPtr + BitVec.ofNat _ (s.retireCount i))
        (s.robCount - s.retireCount i) := by
  have hle := retireCount_le hp hm
  have hcount := hp.robCount_le
  rw [members_setBitIf (by decide), members_setBitIf (by decide), h]
  unfold retireCount at hle ⊢
  cases hr : s.retires i with
  | false =>
    have h2 : s.retiresTwo = false := by
      by_contra hc
      simp [(retiresTwo_retires (i := i) (by simpa using hc)).1] at hr
    simp [h2]
  | true =>
    cases h2 : s.retiresTwo with
    | false =>
      simp only [hr, h2, Bool.false_eq_true, if_true, if_false] at hle ⊢
      obtain ⟨c, hc⟩ := Nat.exists_eq_add_of_le' hle
      rw [hc, Nat.add_sub_cancel]
      exact (Ring.occupied_pop (by omega)).symm
    | true =>
      simp only [hr, h2, Bool.false_eq_true, if_true, if_false] at hle ⊢
      obtain ⟨c, hc⟩ := Nat.exists_eq_add_of_le' hle
      have htwo : s.robHeadPtr + BitVec.ofNat _ 2 = s.robHeadPtr + 1 + 1 := by
        rw [BitVec.add_assoc]
        rfl
      rw [hc, Nat.add_sub_cancel, htwo, Ring.occupied_pop (by omega), Ring.occupied_pop (by omega),
        hp.robNextHead]

/-- The mask after the allocations of a cycle. -/
theorem deadInsns_alloc (hp : s.Pointers) {h : BitVec 6} {c : ℕ} {m : BitVec 32}
    (ht : s.robTailPtr = h + BitVec.ofNat _ c) (hm : members m = Ring.occupied h c) :
    members (setBitIf (s.allocatesTwo i) (Ring.slot s.robNextTailPtr) true
        (setBitIf (s.allocates i) (Ring.slot s.robTailPtr) true m)) =
      Ring.occupied h (c + s.allocCount i) := by
  rw [members_setBitIf (by decide), members_setBitIf (by decide), hm, allocCount]
  cases ha : s.allocates i with
  | false =>
    have ha2 : s.allocatesTwo i = false := by
      by_contra hc
      simp [(allocatesTwo_allocates (by simpa using hc)).1] at ha
    simp [ha2]
  | true =>
    cases s.allocatesTwo i with
    | false =>
      simp only [Bool.false_eq_true, if_true, if_false]
      rw [Ring.occupied_push, ← ht]
    | true =>
      have hnext : s.robNextTailPtr = h + BitVec.ofNat _ (c + 1) := by
        rw [hp.robNextTail, ht, BitVec.add_assoc, BitVec.ofNat_add]
        rfl
      simp only [if_true]
      rw [Ring.occupied_push, Ring.occupied_push, ← ht, ← hnext]

theorem step_robDeadInsns (hp : s.Pointers) (hm : s.MonitorAllocated i)
    (h : members s.robDeadInsns = Ring.occupied s.robHeadPtr s.robCount) :
    members (s.step i).robDeadInsns = Ring.occupied (s.step i).robHeadPtr (s.step i).robCount := by
  have hstep : (s.step i).robDeadInsns = s.nRobDeadInsns (s.comb i) := rfl
  cases hf : s.flushes with
  | true =>
    rw [(step_flush hf).2.2.1, Ring.occupied_zero, hstep, nRobDeadInsns, comb_tClrRob, hf, if_pos rfl]
    ext k
    simp [mem_members]
  | false =>
    have hle := retireCount_le hp hm
    have hret := deadInsns_retire hp hm h
    have htail : s.robTailPtr =
        s.robHeadPtr + BitVec.ofNat _ (s.retireCount i) +
          BitVec.ofNat _ (s.robCount - s.retireCount i) := by
      have hsum : s.retireCount i + (s.robCount - s.retireCount i) = s.robCount := by omega
      rw [BitVec.add_assoc, ← BitVec.ofNat_add, hsum]
      exact Ring.tail_eq _ _
    rw [hstep, nRobDeadInsns, comb_tClrRob, hf, comb_tAlloc, comb_tAllocTwo, comb_tRetire,
      comb_tRetireTwo, step_robCount hp hm hf, step_robHeadPtr hf]
    have hsub : s.robCount + s.allocCount i - s.retireCount i =
        s.robCount - s.retireCount i + s.allocCount i := by omega
    rw [hsub]
    exact deadInsns_alloc hp htail hret

/-! ## Monitor calls -/

/-- The states between a monitor call's arrival at the head and its allocation. -/
def monitorPending : CoreFsm → Bool
  | .MONITOR_FLUSH_CACHE | .HANDLE_MONITOR | .ALLOC_FOR_MONITOR => true
  | _ => false

/-- The allocation of a monitor call is not refused for want of room in the execution unit or of a
register. -/
def MonitorRoom (s : Core) (i : CoreIn) : Prop :=
  s.state = .ALLOC_FOR_MONITOR → i.uqFull = false ∧ s.prfFree ≠ 0

instance : Decidable (s.MonitorRoom i) := inferInstanceAs (Decidable (_ → _))

/-- The pointers, the mask, and a buffer that is empty until a monitor call has been allocated. -/
structure RobInv (s : Core) : Prop where
  pointers : s.Pointers
  serial : s.SerialHead
  pending : monitorPending s.state = true → s.robCount = 0
  waiting : s.state = .WAIT_FOR_MONITOR → 0 < s.robCount
  dead : members s.robDeadInsns = Ring.occupied s.robHeadPtr s.robCount

theorem RobInv.monitorAllocated (h : s.RobInv) : s.MonitorAllocated i := by
  intro hs _
  exact robCount_pos.mpr (h.waiting hs)

theorem reset_robInv (rob : RobPtr → RobEntry) (dq : BitVec 2 → Uop) :
    (Core.reset rob dq).RobInv := by
  have hcount : (Core.reset rob dq).robCount = 0 := by simp [robCount, Core.reset]
  refine ⟨reset_pointers rob dq, fun hm => ?_, fun _ => hcount, fun hm => ?_, ?_⟩
  · cases hm
  · cases hm
  rw [hcount, Ring.occupied_zero]
  ext k
  simp [mem_members, Core.reset]

theorem step_robCount_idle (h : s.RobInv) (hf : s.flushes = false) (ha : s.allocates i = false)
    (hr : s.retires i = false) : (s.step i).robCount = s.robCount := by
  rw [step_robCount h.pointers h.monitorAllocated hf, allocCount, retireCount, ha, hr]
  rfl

theorem faultState_not_monitor :
    monitorPending (s.faultState i) = false ∧ s.faultState i ≠ .WAIT_FOR_MONITOR := by
  unfold faultState
  split_ifs <;> exact ⟨rfl, nofun⟩

theorem serialState_ne : s.serialState ≠ .WAIT_FOR_MONITOR := by
  unfold serialState
  split_ifs <;> exact nofun

/-- The buffer stays empty while a monitor call waits for its allocation. -/
theorem step_pending (h : s.RobInv) (hs : monitorPending (s.nextState i) = true) :
    (s.step i).robCount = 0 := by
  cases hst : s.state with
  | ACTIVE =>
    have hf : s.flushes = false := by simp [flushes, hst]
    simp only [nextState, hst, activeState] at hs
    split_ifs at hs with h1 h2 h3 h4
    · cases hs
    · rw [faultState_not_monitor.1] at hs
      cases hs
    · cases hs
    · simp only [Bool.and_eq_true, Bool.not_eq_true'] at h4
      obtain ⟨⟨-, hser⟩, hempty⟩ := h4
      have hcount : s.robCount = 0 := by
        rw [tRobEmpty, beq_iff_eq] at hempty
        exact Ring.count_eq_zero.mpr hempty
      rw [step_robCount_idle h hf (by simp [allocates, hst, offersAlloc, hser])
        (by simp [retires, hst, retiresActive, h2]), hcount]
    · cases hs
  | MONITOR_FLUSH_CACHE =>
    rw [step_robCount_idle h (by simp [flushes, hst]) (by simp [allocates, hst])
      (by simp [retires, hst])]
    exact h.pending (by rw [hst]; rfl)
  | HANDLE_MONITOR =>
    rw [step_robCount_idle h (by simp [flushes, hst]) (by simp [allocates, hst])
      (by simp [retires, hst])]
    exact h.pending (by rw [hst]; rfl)
  | _ =>
    simp only [nextState, hst] at hs
    first
    | cases hs
    | (split_ifs at hs <;> cases hs)

theorem allocates_monitor (h : s.RobInv) (hg : s.MonitorRoom i) (hs : s.state = .ALLOC_FOR_MONITOR) :
    s.allocates i = true := by
  obtain ⟨hu, hprf⟩ := hg hs
  have hempty : s.tRobFull = false := by
    have hcount := h.pending (by rw [hs]; rfl)
    have heq : s.robHeadPtr = s.robTailPtr := Ring.count_eq_zero.mp hcount
    simp [tRobFull, heq]
  have hdq : s.tDqEmpty = false := by
    obtain ⟨u, rest, hq, -⟩ := h.serial (by rw [hs]; rfl)
    rw [dqCount_pos]
    have hlen := congrArg List.length hq
    rw [queue, Ring.length_contents, List.length_cons] at hlen
    omega
  simp [allocates, hs, canAllocSerial, hempty, hu, hdq]
  exact hprf

/-- A monitor call that is waited for is in the buffer. -/
theorem step_waiting (h : s.RobInv) (hg : s.MonitorRoom i)
    (hs : s.nextState i = .WAIT_FOR_MONITOR) : 0 < (s.step i).robCount := by
  cases hst : s.state with
  | ACTIVE =>
    simp only [nextState, hst, activeState] at hs
    split_ifs at hs with h1 h2 h3 h4
    · exact absurd hs faultState_not_monitor.2
    · exact absurd hs serialState_ne
  | ALLOC_FOR_MONITOR =>
    have hf : s.flushes = false := by simp [flushes, hst]
    have hr : s.retires i = false := by simp [retires, hst]
    have ha2 : s.allocatesTwo i = false := by simp [allocatesTwo, hst]
    rw [step_robCount h.pointers h.monitorAllocated hf, allocCount, retireCount,
      allocates_monitor h hg hst, ha2, hr]
    exact Nat.succ_pos _
  | WAIT_FOR_MONITOR =>
    have hr : s.retires i = false := by
      simp only [nextState, hst] at hs
      split_ifs at hs with hc
      simpa [retires, hst] using hc
    rw [step_robCount_idle h (by simp [flushes, hst]) (by simp [allocates, hst]) hr]
    exact h.waiting hst
  | _ =>
    simp only [nextState, hst] at hs
    first
    | cases hs
    | split_ifs at hs

theorem step_robInv (h : s.RobInv) (hg : s.MonitorRoom i) : (s.step i).RobInv where
  pointers := step_pointers h.pointers h.monitorAllocated
  serial := step_serialHead h.pointers.toDqPointers h.serial
  pending := by
    intro hs
    rw [step_state] at hs
    exact step_pending h hs
  waiting := by
    intro hs
    rw [step_state] at hs
    exact step_waiting h hg hs
  dead := step_robDeadInsns h.pointers h.monitorAllocated h.dead

/-! ## Every run -/

/-- The pointers of the reorder buffer and its dead mask are true to its contents, and the cycle
keeps to them. -/
structure RobIntegrity (s : Core) (i : CoreIn) : Prop where
  nextHead : s.robNextHeadPtr = s.robHeadPtr + 1
  nextTail : s.robNextTailPtr = s.robTailPtr + 1
  count_le : s.robCount ≤ 2 ^ 5
  alloc : (s.comb i).tAlloc = true →
    Ring.slot s.robTailPtr ∉ Ring.occupied s.robHeadPtr s.robCount
  allocTwo : (s.comb i).tAllocTwo = true →
    Ring.slot s.robNextTailPtr ∉ Ring.occupied s.robHeadPtr (s.robCount + 1)
  retire : (if (s.comb i).tRetire || (s.comb i).tBumpRobHead then
    if (s.comb i).tRetireTwo then 2 else 1 else 0) ≤ s.robCount
  dead : ∀ k : RobPtr, s.robDeadInsns.getLsbD k.toNat = true ↔
    k ∈ Ring.occupied s.robHeadPtr s.robCount

theorem RobInv.integrity (h : s.RobInv) : s.RobIntegrity i where
  nextHead := h.pointers.robNextHead
  nextTail := h.pointers.robNextTail
  count_le := h.pointers.robCount_le
  alloc ha := by
    have hroom := robCount_lt_of_not_full h.pointers (allocates_room (i := i) (by simpa using ha)).1
    rw [Ring.tail_eq s.robHeadPtr s.robTailPtr]
    exact Ring.slot_notMem le_rfl (by change s.robCount < 2 ^ 5; omega)
  allocTwo ha := by
    have ha2 : s.allocatesTwo i = true := by simpa using ha
    obtain ⟨h1, -, hn, -⟩ := allocatesTwo_allocates ha2
    have hroom := robCount_lt_of_not_next_full h.pointers (allocates_room h1).1 hn
    have hnext : s.robNextTailPtr = s.robHeadPtr + BitVec.ofNat _ (s.robCount + 1) := by
      rw [h.pointers.robNextTail, BitVec.ofNat_add, ← BitVec.add_assoc]
      congr 1
      exact Ring.tail_eq _ _
    rw [hnext]
    exact Ring.slot_notMem le_rfl (by omega)
  retire := by
    have hle := retireCount_le h.pointers (h.monitorAllocated (i := i))
    have hb : (s.retires i || s.bumps) = s.retires i := by
      cases hb : s.bumps with
      | false => simp
      | true => simp [bumps_retires (i := i) hb]
    rw [comb_tRetire, comb_tBumpRobHead, comb_tRetireTwo, hb]
    exact hle
  dead k := by
    rw [← h.dead]
    exact Iff.rfl

/-- Pairs of NOPs, a system call behind them, and its handling with the queue of the execution unit
full or not in the cycle of its allocation. -/
def syscallRun (pairs : ℕ) (full : Bool) : List CoreIn :=
  [{ resume := true }, { restartAck := true }] ++
    List.replicate pairs { insnValid := true, insnValidTwo := true } ++
    ([{ insnValid := true, insn := { data := 0x0000000c#32 } }, {}, {},
      { l1iFlushComplete := true, l1dFlushComplete := true }, { monitorRspValid := true },
      { uqFull := full }, { restartAck := true }] : List CoreIn)

end Core
end MipsCore
