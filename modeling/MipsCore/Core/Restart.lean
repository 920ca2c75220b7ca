import MipsCore.Core.Windows

/-! # Restart and flush requests of the core

Which cycles ask the front end for a restart or for a flush, and what the core
remembers of its answers.
-/
namespace MipsCore
namespace Core
variable {s : Core} {i : CoreIn}

section Frames
variable (c : Comb)

@[simp] theorem withDelaySlot_restart : (withDelaySlot s c).nRestartValid = c.nRestartValid ∧
    (withDelaySlot s c).nRestartPc = c.nRestartPc ∧
    (withDelaySlot s c).nGotRestartAck = c.nGotRestartAck := by
  unfold withDelaySlot; split_ifs <;> exact ⟨rfl, rfl, rfl⟩
@[simp] theorem withDelaySlot_flush : (withDelaySlot s c).nFlushReq = c.nFlushReq ∧
    (withDelaySlot s c).nL1iFlushComplete = c.nL1iFlushComplete := by
  unfold withDelaySlot; split_ifs <;> exact ⟨rfl, rfl⟩

end Frames

/-- The front-end requests of a cycle: a restart, a flush of the instruction cache, and the flag
that such a flush is complete. -/
structure Asks (c : Comb) (restart flush complete : Bool) : Prop where
  restart : c.nRestartValid = restart
  flush : c.nFlushReq = flush
  complete : c.nL1iFlushComplete = complete

theorem asks_iff {c : Comb} {restart flush complete : Bool} :
    Asks c restart flush complete ↔
      c.nRestartValid = restart ∧ c.nFlushReq = flush ∧ c.nL1iFlushComplete = complete :=
  ⟨fun h => ⟨h.restart, h.flush, h.complete⟩, fun h => ⟨h.1, h.2.1, h.2.2⟩⟩

/-- The flag that the instruction cache has been flushed, as the cycle sees it. -/
def l1iFlushed (s : Core) (i : CoreIn) : Bool := s.l1iFlushComplete || i.l1iFlushComplete

theorem Asks.comb {restart flush complete : Bool}
    (h : Asks (combState s i (combDefault s i)) restart flush complete) :
    (s.step i).restartValid = restart ∧ (s.step i).flushReq = flush ∧
      (s.step i).l1iFlushComplete = complete := by
  refine ⟨?_, ?_, ?_⟩
  · exact withDelaySlot_restart (s := s) _ |>.1.trans h.restart
  · exact withDelaySlot_flush (s := s) _ |>.1.trans h.flush
  · exact withDelaySlot_flush (s := s) _ |>.2.trans h.complete

/-- Where `ACTIVE` goes, and what it asks for on the way. -/
inductive ActiveCases (s : Core) (i : CoreIn) : Prop
  | stays (hn : s.nextState i = .ACTIVE)
      (ha : Asks (combState s i (combDefault s i)) false false (s.l1iFlushed i))
  | drains (hn : s.nextState i = .DRAIN ∨ s.nextState i = .EXCEPTION_DRAIN)
      (hal : s.allocates i = false)
      (ha : Asks (combState s i (combDefault s i)) true false (s.l1iFlushed i))
  | traps (hn : s.nextState i = .WRITE_EPC ∨ s.nextState i = .WRITE_BADVADDR)
      (ha : Asks (combState s i (combDefault s i)) false true (s.l1iFlushed i))
  | stops (hn : s.nextState i = .ARCH_WAIT)
  | serializes (hn : s.nextState i = .ALLOC_FOR_SERIALIZE ∨ s.nextState i = .HANDLE_MONITOR)
      (hal : s.allocates i = false) (hq : s.tDqEmpty = false)
      (ha : Asks (combState s i (combDefault s i)) false false (s.l1iFlushed i))
  | monitors (hn : s.nextState i = .MONITOR_FLUSH_CACHE) (hal : s.allocates i = false)
      (hq : s.tDqEmpty = false)
      (ha : Asks (combState s i (combDefault s i)) false true (s.l1iFlushed i) ∨
        Asks (combState s i (combDefault s i)) false false true)

theorem faultDispatch_asks (c : Comb) (hr : c.nRestartValid = false) (hf : c.nFlushReq = false) :
    (faultDispatch s i c).nL1iFlushComplete = c.nL1iFlushComplete ∧
      ((faultDispatch s i c).nRestartValid = (s.faultState i == .DRAIN)) ∧
      ((faultDispatch s i c).nFlushReq =
        (s.faultState i == .WRITE_EPC || s.faultState i == .WRITE_BADVADDR)) := by
  obtain ⟨_, _, _, he⟩ := faultDispatch_eq s i c
  rw [he, hr, hf, Bool.or_false, Bool.or_false]
  exact ⟨rfl, rfl, rfl⟩

theorem faultState_cases : s.faultState i = .ACTIVE ∨ s.faultState i = .ARCH_WAIT ∨
    s.faultState i = .DRAIN ∨ s.faultState i = .WRITE_EPC ∨ s.faultState i = .WRITE_BADVADDR := by
  unfold faultState
  split_ifs <;> simp

theorem combSerialize_asks (c : Comb) (hr : c.nRestartValid = false) (hf : c.nFlushReq = false) :
    s.serialState = .MONITOR_FLUSH_CACHE ∧
        (Asks (combSerialize s c) false true c.nL1iFlushComplete ∨
          Asks (combSerialize s c) false false true) ∨
      (s.serialState = .ALLOC_FOR_SERIALIZE ∨ s.serialState = .HANDLE_MONITOR) ∧
        Asks (combSerialize s c) false false c.nL1iFlushComplete := by
  unfold combSerialize serialState
  split_ifs <;> simp [asks_iff, hr, hf]

/-- A faulted head leaves `ACTIVE` for a drain or for an exception. -/
theorem active_fault (hs : s.state = .ACTIVE) (hirq : s.takesIrq = false)
    (hret : s.tCanRetireRobHead = true) (hf : s.tRobHead.faulted = true) : ActiveCases s i := by
  have hn : s.nextState i = s.faultState i := by
    rw [nextState, hs]
    simp [activeState, hirq, hret, hf]
  have hal : s.allocates i = false := by simp [allocates, hs, offersAlloc, hret, hf]
  have hirq : (s.externIrq && !s.tRobEmpty && !s.tRobHead.inDelaySlot) = false := hirq
  obtain ⟨h1, h2, h3⟩ := @faultDispatch_asks s i (combDefault s i) rfl rfl
  have ha : Asks (combState s i (combDefault s i)) (s.faultState i == .DRAIN)
      (s.faultState i == .WRITE_EPC || s.faultState i == .WRITE_BADVADDR) (s.l1iFlushed i) := by
    simp only [combState, hs, combActive, hirq, Bool.false_eq_true, if_false, hret, if_true, hf]
    exact ⟨h2, h3, h1⟩
  rcases @faultState_cases s i with h | h | h | h | h <;> rw [h] at hn ha
  · exact .stays hn ha
  · exact .stops hn
  · exact .drains (Or.inl hn) hal ha
  · exact .traps (Or.inl hn) ha
  · exact .traps (Or.inr hn) ha

/-- A serializing uop leaves `ACTIVE` once the reorder buffer is empty. -/
theorem active_serializes (hs : s.state = .ACTIVE) (hirq : s.takesIrq = false)
    (hret : s.tCanRetireRobHead = false) (hdq : s.tDqEmpty = false)
    (hser : (s.tUop.serializingOp && s.tRobEmpty) = true) : ActiveCases s i := by
  obtain ⟨hop, hre⟩ := Bool.and_eq_true_iff.mp hser
  have hn : s.nextState i = s.serialState := by
    rw [nextState, hs]
    simp [activeState, hirq, hret, hdq, hop, hre]
  have hal : s.allocates i = false := by simp [allocates, hs, offersAlloc, hop]
  have hirq : (s.externIrq && !s.tRobEmpty && !s.tRobHead.inDelaySlot) = false := hirq
  have hc : combState s i (combDefault s i) = combSerialize s (combDefault s i) := by
    simp only [combState, hs, combActive, hirq, Bool.false_eq_true, if_false, hret, hdq,
      Bool.not_false, if_true, combAllocIdle, hser]
  rcases @combSerialize_asks s (combDefault s i) rfl rfl with ⟨h, ha⟩ | ⟨h, ha⟩
  · rw [← hc] at ha
    exact .monitors (hn.trans h) hal hdq ha
  · rw [← hc] at ha
    exact .serializes (h.imp hn.trans hn.trans) hal hdq ha

theorem active_cases (hs : s.state = .ACTIVE) : ActiveCases s i := by
  have hn : s.nextState i = s.activeState i := by rw [nextState, hs]
  have hc : combState s i (combDefault s i) = combActive s i (combDefault s i) := by
    rw [combState, hs]
  cases hirq : s.takesIrq with
  | true =>
    have hirq' : (s.externIrq && !s.tRobEmpty && !s.tRobHead.inDelaySlot) = true := hirq
    refine .drains (Or.inr ?_) ?_ ?_
    · rw [hn, activeState, if_pos hirq]
    · simp [allocates, hs, offersAlloc, hirq]
    · rw [hc, combActive, if_pos hirq']
      exact ⟨rfl, rfl, rfl⟩
  | false =>
    have hirq' : (s.externIrq && !s.tRobEmpty && !s.tRobHead.inDelaySlot) = false := hirq
    cases hret : s.tCanRetireRobHead with
    | true =>
      cases hf : s.tRobHead.faulted with
      | true => exact active_fault hs hirq hret hf
      | false =>
        refine .stays ?_ ?_
        · simp [hn, activeState, hirq, hret, hf]
        · simp only [hc, combActive, hirq', Bool.false_eq_true, if_false, hret, if_true, hf]
          unfold combAllocRetire
          split_ifs <;> exact ⟨rfl, rfl, rfl⟩
    | false =>
      cases hser : !s.tDqEmpty && (s.tUop.serializingOp && s.tRobEmpty) with
      | true =>
        rw [Bool.and_eq_true, Bool.not_eq_true'] at hser
        exact active_serializes hs hirq hret hser.1 hser.2
      | false =>
        refine .stays ?_ ?_
        · rw [← Bool.and_assoc] at hser
          simp [hn, activeState, hirq, hret, hser]
        · rw [hc, combActive, if_neg (by simp [hirq']), if_neg (by simp [hret])]
          split_ifs with hdq
          · rw [hdq, Bool.true_and] at hser
            rw [combAllocIdle, if_neg (by simp [hser])]
            split_ifs <;> exact ⟨rfl, rfl, rfl⟩
          · exact ⟨rfl, rfl, rfl⟩

/-! ## The other states -/

/-- The restart pc holds while a restart is waited for. -/
theorem step_restartPc_waits (hs : s.state = .DRAIN ∨ s.state = .EXCEPTION_DRAIN ∨ s.state = .RAT ∨
    s.state = .HALT_WAIT_FOR_RESTART) : (s.step i).restartPc = s.restartPc := by
  have h : (combState s i (combDefault s i)).nRestartPc = s.restartPc := by
    rcases hs with hs | hs | hs | hs <;>
      simp only [combState, hs, combDrain, combExceptionDrain, combRat, combHaltWaitForRestart] <;>
      split_ifs <;> rfl
  exact (withDelaySlot_restart (s := s) _).2.1.trans h

theorem step_gotRestartAck : (s.step i).gotRestartAck = s.gotAck i := by
  have hfault : ∀ c : Comb, (combFault s i c).nGotRestartAck = c.nGotRestartAck := by
    intro c
    obtain ⟨_, _, _, he⟩ := faultDispatch_eq s i c
    rw [combFault, he]
  have hserial : ∀ c : Comb, (combSerialize s c).nGotRestartAck = c.nGotRestartAck := by
    intro c
    unfold combSerialize
    split_ifs <;> rfl
  have h : (combState s i (combDefault s i)).nGotRestartAck = s.gotAck i := by
    rw [combState]
    cases hs : s.state with
    | ACTIVE =>
      simp only [combActive, combAllocRetire, combAllocIdle]
      split_ifs <;> first | rfl | exact hfault _ | exact hserial _
    | ALLOC_FOR_SERIALIZE | ALLOC_FOR_MONITOR | WRITE_EPC | WRITE_CAUSE | WRITE_BADVADDR | ARCH_WAIT
    | DELAY_SLOT => rfl
    | _ =>
      simp only [combDrain, combExceptionDrain, combRat, combWaitForSerialize, combMonitorFlushCache,
        combHandleMonitor, combWaitForMonitor, combFlushForHalt, combHalt, combHaltWaitForRestart]
      split_ifs <;> rfl
  exact (withDelaySlot_restart (s := s) _).2.2.trans h

/-- The restart request outside `ACTIVE`. -/
def asksRestart (s : Core) (i : CoreIn) : Bool :=
  match s.state with
  | .WAIT_FOR_SERIALIZE_AND_RESTART | .WAIT_FOR_MONITOR => s.tRobHeadComplete
  | .HALT => i.resume
  | _ => false

/-- What is remembered of the flush outside `ACTIVE`. -/
def keepsFlushed (s : Core) (i : CoreIn) : Bool :=
  match s.state with
  | .MONITOR_FLUSH_CACHE | .FLUSH_FOR_HALT => s.l1iFlushed i && !s.flushed i
  | _ => s.l1iFlushed i

theorem combState_asks (hs : s.state ≠ .ACTIVE) :
    Asks (combState s i (combDefault s i)) (s.asksRestart i) false (s.keepsFlushed i) := by
  rw [combState, asksRestart, keepsFlushed]
  cases h : s.state with
  | ACTIVE => exact absurd h hs
  | MONITOR_FLUSH_CACHE | FLUSH_FOR_HALT =>
    simp only [combMonitorFlushCache, combFlushForHalt, flushed, l1iFlushed]
    split_ifs with hf
    · have hf : (s.l1iFlushComplete || i.l1iFlushComplete) = true ∧
        (s.l1dFlushComplete || i.l1dFlushComplete) = true := Bool.and_eq_true_iff.mp hf
      exact ⟨rfl, rfl, by simp [hf]⟩
    · refine ⟨rfl, rfl, ?_⟩
      change (s.l1iFlushComplete || i.l1iFlushComplete) = _
      simp only [combDefault] at hf
      simp [hf]
  | WAIT_FOR_SERIALIZE_AND_RESTART | WAIT_FOR_MONITOR =>
    simp only [combWaitForSerialize, combWaitForMonitor]
    split_ifs with hc <;> simp only [hc] <;> exact ⟨rfl, rfl, rfl⟩
  | HALT =>
    simp only [combHalt]
    split_ifs with hc <;> simp only [hc] <;> exact ⟨rfl, rfl, rfl⟩
  | ALLOC_FOR_SERIALIZE | ALLOC_FOR_MONITOR | WRITE_EPC | WRITE_CAUSE | WRITE_BADVADDR | ARCH_WAIT
  | DELAY_SLOT => exact ⟨rfl, rfl, rfl⟩
  | _ =>
    simp only [combDrain, combExceptionDrain, combRat, combHandleMonitor, combHaltWaitForRestart]
    split_ifs <;> exact ⟨rfl, rfl, rfl⟩

/-! ## The decode queue -/

/-- The uops that the cycle allocates, as the decode queue holds them. -/
def allocUops (s : Core) (i : CoreIn) : List Uop :=
  if s.allocates i then if s.allocatesTwo i then [s.tUop, s.tUop2] else [s.tUop] else []

theorem length_allocUops : (s.allocUops i).length = s.allocCount i := by
  unfold allocUops allocCount
  split_ifs <;> rfl

/-- What is allocated comes from the head of the queue. -/
theorem queue_eq_allocUops (hp : s.DqPointers) : ∃ rest, s.queue = s.allocUops i ++ rest := by
  unfold allocUops
  split_ifs with h1 h2
  · exact queue_cons_cons hp (allocates_room h1).2 (allocatesTwo_allocates h2).2.1
  · exact queue_cons (allocates_room h1).2
  · exact ⟨_, rfl⟩

/-- A complete head stays complete while its restart is waited for. -/
theorem step_headComplete
    (hs : s.state = .WAIT_FOR_SERIALIZE_AND_RESTART ∨ s.state = .WAIT_FOR_MONITOR)
    (hack : s.gotAck i = false) (hc : s.tRobHeadComplete = true)
    (h1 : i.completeValid1 = true → i.completeBundle1.complete = true)
    (h2 : i.completeValid2 = true → i.completeBundle2.complete = true) :
    (s.step i).tRobHeadComplete = true := by
  have hfl : s.flushes = false := by rcases hs with hs | hs <;> simp [flushes, hs]
  have hal : s.allocates i = false := by rcases hs with hs | hs <;> simp [allocates, hs]
  have htwo : s.allocatesTwo i = false := by rcases hs with hs | hs <;> simp [allocatesTwo, hs]
  have hret : s.retireCount i = 0 := by
    rcases hs with hs | hs <;> simp [retireCount, retires, hs, hack]
  have hhead : (s.step i).robHeadPtr = s.robHeadPtr := by rw [step_robHeadPtr hfl, hret]; simp
  have hrob : (s.step i).robComplete = s.nRobComplete i (s.comb i) := rfl
  have hkeep : ∀ (v b : Bool) (p : RobPtr) (m : BitVec 32), (v = true → b = true) →
      m.getLsbD (Ring.slot s.robHeadPtr).toNat = true →
      (BitMask.setBitIf v p b m).getLsbD (Ring.slot s.robHeadPtr).toNat = true := by
    intro v b p m hb hm
    rw [BitMask.getLsbD_setBitIf le_rfl]
    split_ifs with h
    · exact hb h.1
    · exact hm
  rw [tRobHeadComplete, hhead, hrob, nRobComplete, comb_tClrRob, hfl, comb_tAlloc, comb_tAllocTwo,
    hal, htwo, if_neg Bool.false_ne_true]
  exact hkeep _ _ _ _ (fun _ => rfl) (hkeep _ _ _ _ h2 (hkeep _ _ _ _ h1 hc))

end Core
end MipsCore
