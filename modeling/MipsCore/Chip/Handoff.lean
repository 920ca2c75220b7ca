import MipsCore.Chip.FrontEnd

/-! # The hand-off from fetch to allocation

Between two entries of the core into its active state the uops that it allocates are
the instructions that the cache has pushed since the restart, in order and each once,
and the first of them carries the restart pc.
-/
namespace MipsCore
namespace Handoff
open MipsCore.Core (l1iFlushed)
open Clocked (run run_invariant)
variable {h : Handoff} {i : FrontEndIn}

/-- A uop is decoded from an instruction, in one of the two register modes. -/
def Decodes (u : Uop) (f : InsnFetch) : Prop := ∃ m, u = decodeMips32 m f

/-- The uops are the first of the instructions that have been pushed. -/
def Taken (us : List Uop) (fs : List InsnFetch) : Prop :=
  ∃ gs, gs <+: fs ∧ List.Forall₂ Decodes us gs

/-! ## The requests between the core and the cache -/

/-- No flush of the instruction cache is asked for, under way or just complete. -/
structure NoFlush (h : Handoff) : Prop where
  asked : h.core.flushReq = false
  pending : h.l1i.flushReq = false
  state : h.l1i.state ≠ .FLUSH_CACHE
  seen : h.core.l1iFlushComplete = false
  done : h.l1i.flushComplete = false

/-- A flush that the core has asked for: the cache has yet to begin, is at it, or is idle with
an empty queue, and the core has been told or is being told. -/
inductive Flushing (h : Handoff) : Prop
  | asked (ha : h.core.flushReq = true ∨ h.l1i.flushReq = true) (hs : h.l1i.state ≠ .FLUSH_CACHE)
      (hc : h.core.l1iFlushComplete = false) (hd : h.l1i.flushComplete = false)
  | flushing (ha : h.core.flushReq = false) (hp : h.l1i.flushReq = false)
      (hs : h.l1i.state = .FLUSH_CACHE) (hq : h.l1i.fqWindow = [])
      (hc : h.core.l1iFlushComplete = false) (hd : h.l1i.flushComplete = false)
  | done (ha : h.core.flushReq = false) (hp : h.l1i.flushReq = false) (hs : h.l1i.state = .IDLE)
      (hq : h.l1i.fqWindow = []) (hd : h.core.l1iFlushComplete = true ∨ h.l1i.flushComplete = true)

/-- A core that finds the flush complete on its way in has asked for none. -/
structure Flushed (h : Handoff) : Prop where
  asked : h.core.flushReq = false
  pending : h.l1i.flushReq = false
  state : h.l1i.state ≠ .FLUSH_CACHE
  seen : h.core.l1iFlushComplete = true
  done : h.l1i.flushComplete = false

/-- No restart is asked for or pending. -/
structure NoRestart (h : Handoff) : Prop where
  asked : h.core.restartValid = false
  pending : h.l1i.restartReq = false

/-- No restart is asked for, pending or acknowledged. -/
structure Silent (h : Handoff) : Prop extends NoRestart h where
  ack : h.l1i.restartAck = false
  got : h.core.gotRestartAck = false

/-- The cache has just been restarted and nothing has been pushed since. -/
structure Still (h : Handoff) : Prop extends L1i.Restarted h.l1i where
  fetched : h.fetched = []

/-- What has been pushed begins at the pc. -/
structure Begins (h : Handoff) (p : Word) : Prop where
  starts : h.fetched = [] → h.l1i.Starts p
  first : ∀ f fs, h.fetched = f :: fs → f.pc = p

/-! ## The phases of the core -/

/-- The first active cycle after a serialized instruction, in which its request is still held. -/
structure Held (h : Handoff) : Prop extends Still h where
  asked : h.core.restartValid = true
  queue : h.core.queue = []
  taken : h.taken = []
  pc : h.core.restartPc = h.entryPc

/-- The core is fed by the cache: what has been taken, what waits in the decode queue and what
waits in the fetch queue are what has been pushed. -/
structure Fed (h : Handoff) : Prop extends NoRestart h, Begins h h.entryPc where
  runs : h.l1i.Runs
  link : ∃ fs, h.fetched = fs ++ h.l1i.fqWindow ∧ List.Forall₂ Decodes (h.taken ++ h.core.queue) fs
  ack : h.l1i.restartAck = true → h.core.queue = [] ∧ Still h

/-- A restart that is waited for has not been served. -/
structure Asked (h : Handoff) : Prop where
  asked : h.core.restartValid = true ∨ h.l1i.restartReq = true
  got : h.core.gotRestartAck = false
  ack : h.l1i.restartAck = true → h.core.restartValid = true ∧ h.l1i.state = .ACTIVE
  rat : h.core.state = .RAT → h.core.restartValid = false

/-- A restart that is waited for has been served. -/
structure Served (h : Handoff) : Prop extends NoRestart h, Begins h h.core.restartPc where
  runs : h.l1i.Runs
  ack : h.l1i.restartAck = true ∨ h.core.gotRestartAck = true
  fetched : h.fetched = h.l1i.fqWindow

/-- The uop at the head of the decode queue is the next one to be taken. -/
structure Serializing (h : Handoff) : Prop extends Silent h where
  nonempty : h.core.tDqEmpty = false
  next : Taken (h.taken ++ [h.core.tUop]) h.fetched
  first : ∀ f fs, h.fetched = f :: fs → f.pc = h.entryPc

/-- The request of a serialized instruction is made in every cycle until it is acknowledged. -/
structure Requests (h : Handoff) : Prop where
  complete : h.core.tRobHeadComplete = true
  asked : h.core.restartValid = true
  got : h.core.gotRestartAck = false
  ack : h.l1i.restartAck = true → Still h

/-- The two cycles of a resumed core: the request, and its acknowledgement. -/
structure Resuming (h : Handoff) : Prop where
  queue : h.core.queue = []
  window : h.l1i.fqWindow = []
  pending : h.l1i.restartReq = false
  phase : h.core.restartValid = true ∧ h.l1i.state = .IDLE ∧ h.l1i.restartAck = false ∨
    h.core.restartValid = false ∧ h.l1i.restartAck = true ∧ Still h ∧ h.l1i.Starts h.core.restartPc

/-- What each state of the core knows of the hand-off. -/
def Phase (h : Handoff) : Prop :=
  match h.core.state with
  | .ACTIVE => NoFlush h ∧ (Held h ∨ Fed h)
  | .DRAIN | .EXCEPTION_DRAIN | .RAT => NoFlush h ∧ (Asked h ∨ Served h)
  | .ALLOC_FOR_SERIALIZE | .HANDLE_MONITOR | .ALLOC_FOR_MONITOR => NoFlush h ∧ Serializing h
  | .MONITOR_FLUSH_CACHE =>
    Serializing h ∧ (Flushing h ∨ Flushed h)
  | .WAIT_FOR_SERIALIZE_AND_RESTART | .WAIT_FOR_MONITOR => NoFlush h ∧ (Silent h ∨ Requests h)
  | .WRITE_BADVADDR | .WRITE_EPC | .WRITE_CAUSE | .FLUSH_FOR_HALT => NoRestart h ∧ Flushing h
  | .HALT => NoFlush h ∧ NoRestart h ∧ h.l1i.restartAck = false ∧ h.l1i.state = .IDLE ∧
      h.l1i.fqWindow = []
  | .HALT_WAIT_FOR_RESTART => NoFlush h ∧ Resuming h
  | .ARCH_WAIT | .DELAY_SLOT => True

/-- The invariant of the hand-off. -/
structure Inv (h : Handoff) : Prop where
  dq : h.core.DqPointers
  fq : h.l1i.FqOk
  bubble : h.l1i.resteerBubble = false
  complete1 : h.front.pipe.exec.completeValid1 = true → h.front.pipe.exec.completeBundle1.complete = true
  complete2 : h.front.pipe.exec.completeValid2 = true → h.front.pipe.exec.completeBundle2.complete = true
  phase : h.Phase

/-! ## One cycle -/

theorem step_core : (h.step i).core = h.core.step (h.coreIn i) := rfl
theorem step_l1i : (h.step i).l1i = h.l1i.step (h.l1iIn i) := rfl

theorem insnAck_window (h : Handoff) (i : FrontEndIn) : (h.l1iIn i).insnAck = true →
    h.l1i.fqEmpty = false ∧ ((h.l1iIn i).insnAckTwo = true → h.l1i.fqNextEmpty = false) := by
  intro ha
  have ha : h.core.insnAck (h.coreIn i) = true := ha
  simp only [Core.insnAck, Bool.and_eq_true] at ha
  refine ⟨by simpa [L1i.insnValid] using (show h.l1i.insnValid = true from ha.1.2), fun h2 => ?_⟩
  have h2 : h.core.insnAckTwo (h.coreIn i) = true := h2
  simp only [Core.insnAckTwo, Bool.and_eq_true] at h2
  have hv : h.l1i.insnValidTwo = true := h2.1.2
  simp only [L1i.insnValidTwo, Bool.not_eq_true', Bool.or_eq_false_iff] at hv
  exact hv.1

theorem Inv.window (hi : h.Inv) : (h.step i).l1i.FqOk ∧ (h.step i).l1i.fqWindow =
    if h.l1i.tClearFq (h.l1iIn i) then []
    else h.l1i.fqWindow.drop (L1i.popStep (h.l1iIn i)).toNat ++ h.pushed i :=
  L1i.step_fqWindow hi.fq hi.bubble (insnAck_window h i)

theorem popStep_idle (hs : h.core.state ≠ .ACTIVE) : L1i.popStep (h.l1iIn i) = 0 := by
  have : (h.l1iIn i).insnAck = false := by
    change h.core.insnAck (h.coreIn i) = false
    simp [Core.insnAck, hs]
  rw [L1i.popStep, this, if_neg Bool.false_ne_true]

theorem wantsFlush_eq :
    h.l1i.wantsFlush (h.l1iIn i) = (h.l1i.flushReq || h.core.flushReq) := rfl
theorem wantsRestart_eq :
    h.l1i.wantsRestart (h.l1iIn i) = (h.core.restartValid || h.l1i.restartReq) := rfl

theorem NoFlush.wants (hn : h.NoFlush) : h.l1i.wantsFlush (h.l1iIn i) = false := by
  rw [wantsFlush_eq, hn.pending, hn.asked]
  rfl

theorem NoFlush.flushes (hn : h.NoFlush) : h.l1i.flushes (h.l1iIn i) = false := by
  rw [← Bool.not_eq_true]
  intro hc
  have := L1i.flushes_wants hc
  rw [hn.wants] at this
  cases this

theorem NoFlush.l1iFlushed (hn : h.NoFlush) : h.core.l1iFlushed (h.coreIn i) = false := by
  change (h.core.l1iFlushComplete || h.l1i.flushComplete) = false
  rw [hn.seen, hn.done]
  rfl

theorem NoRestart.restarts (hr : h.NoRestart) : h.l1i.restarts (h.l1iIn i) = false := by
  rw [← Bool.not_eq_true]
  intro hc
  have := L1i.restarts_wants hc
  rw [wantsRestart_eq, hr.asked, hr.pending] at this
  cases this

theorem step_fetched (hr : h.l1i.restarts (h.l1iIn i) = false) :
    (h.step i).fetched = h.fetched ++ h.pushed i := by
  change (if h.l1i.restarts (h.l1iIn i) && h.core.state != .ACTIVE then [] else _) = _
  rw [hr, Bool.false_and, if_neg Bool.false_ne_true]

theorem step_taken_active (hs : h.core.state = .ACTIVE) :
    (h.step i).taken = h.taken ++ h.allocated i ∧ (h.step i).entryPc = h.entryPc := by
  have hre : h.front.reenters i = false := by
    change (h.core.state != .ACTIVE && _) = false
    rw [hs]
    rfl
  refine ⟨?_, ?_⟩
  · change (if h.front.reenters i then [] else _) = _
    rw [hre, if_neg Bool.false_ne_true]
  · change (if h.front.reenters i then _ else h.entryPc) = _
    rw [hre, if_neg Bool.false_ne_true]

theorem step_reenters (hs : h.core.state ≠ .ACTIVE) (hn : h.core.nextState (h.coreIn i) = .ACTIVE) :
    (h.step i).taken = [] ∧ (h.step i).entryPc = (h.step i).core.restartPc := by
  have hre : h.front.reenters i = true := by
    change (h.core.state != .ACTIVE && h.core.nextState (h.coreIn i) == .ACTIVE) = true
    rw [hn]
    simpa using hs
  refine ⟨?_, ?_⟩
  · change (if h.front.reenters i then [] else _) = _
    rw [hre, if_pos rfl]
  · change (if h.front.reenters i then _ else h.entryPc) = _
    rw [hre, if_pos rfl]
    rfl

theorem step_taken_idle (hn : h.core.nextState (h.coreIn i) ≠ .ACTIVE) :
    (h.step i).taken = h.taken ++ h.allocated i ∧ (h.step i).entryPc = h.entryPc := by
  have hre : h.front.reenters i = false := by
    change (h.core.state != .ACTIVE && h.core.nextState (h.coreIn i) == .ACTIVE) = false
    simp [hn]
  refine ⟨?_, ?_⟩
  · change (if h.front.reenters i then [] else _) = _
    rw [hre, if_neg Bool.false_ne_true]
  · change (if h.front.reenters i then _ else h.entryPc) = _
    rw [hre, if_neg Bool.false_ne_true]

/-- The requests after a cycle outside `ACTIVE`. -/
theorem step_asks (hs : h.core.state ≠ .ACTIVE) :
    (h.step i).core.restartValid = h.core.asksRestart (h.coreIn i) ∧
      (h.step i).core.flushReq = false ∧
      (h.step i).core.l1iFlushComplete = h.core.keepsFlushed (h.coreIn i) :=
  (Core.combState_asks hs).comb

theorem NoFlush.step_l1i (hn : h.NoFlush) : (h.step i).l1i.flushReq = false ∧
    (h.step i).l1i.state ≠ .FLUSH_CACHE ∧ (h.step i).l1i.flushComplete = false := by
  refine ⟨?_, L1i.step_not_flush hn.state hn.flushes, ?_⟩
  · change (h.l1i.wantsFlush (h.l1iIn i) && _) = false
    rw [hn.wants, Bool.false_and]
  · change (h.l1i.state == .FLUSH_CACHE && _) = false
    simp [hn.state]

theorem NoFlush.step (hn : h.NoFlush) (hf : (h.step i).core.flushReq = false)
    (hc : (h.step i).core.l1iFlushComplete = false) : (h.step i).NoFlush where
  asked := hf
  pending := hn.step_l1i.1
  state := hn.step_l1i.2.1
  seen := hc
  done := hn.step_l1i.2.2

/-- Outside `ACTIVE` no flush is asked for. -/
theorem NoFlush.step_idle (hn : h.NoFlush) (hs : h.core.state ≠ .ACTIVE) : (h.step i).NoFlush := by
  obtain ⟨-, hf, hc⟩ := step_asks (i := i) hs
  refine hn.step hf ?_
  rw [hc, Core.keepsFlushed]
  split <;> simp [hn.l1iFlushed]

theorem NoRestart.step (hr : h.NoRestart) (hv : (h.step i).core.restartValid = false) :
    (h.step i).NoRestart ∧ (h.step i).l1i.restartAck = false := by
  obtain ⟨ha, hq⟩ := L1i.step_not_restarts (i := h.l1iIn i) hr.restarts
  refine ⟨⟨hv, ?_⟩, ha⟩
  rw [step_l1i, hq, wantsRestart_eq, hr.asked, hr.pending]
  rfl

/-- The acknowledgement outside `ACTIVE`. -/
theorem gotAck_idle (hs : h.core.state ≠ .ACTIVE) : h.core.gotAck (h.coreIn i) =
    (h.core.gotRestartAck || h.l1i.restartAck) := by
  change (if h.core.state = .ACTIVE then false else if !h.core.gotRestartAck then h.l1i.restartAck
    else h.core.gotRestartAck) = _
  rw [if_neg hs]
  cases h.core.gotRestartAck <;> rfl

theorem step_gotRestartAck : (h.step i).core.gotRestartAck = h.core.gotAck (h.coreIn i) :=
  Core.step_gotRestartAck

theorem step_gotRestartAck_active (hs : h.core.state = .ACTIVE) :
    (h.step i).core.gotRestartAck = false := by
  rw [step_gotRestartAck]
  change (if h.core.state = .ACTIVE then false else _) = false
  rw [if_pos hs]

/-- A restart served outside `ACTIVE` leaves nothing behind. -/
theorem Inv.step_restarts (hi : h.Inv) (hr : h.l1i.restarts (h.l1iIn i) = true) :
    (h.step i).l1i.Restarted ∧ (h.step i).l1i.restartAck = true ∧
      (h.step i).l1i.pc = h.core.restartPc :=
  L1i.step_restarts hi.fq hi.bubble hr (insnAck_window h i)

theorem Inv.step_still (hi : h.Inv) (hr : h.l1i.restarts (h.l1iIn i) = true)
    (hs : h.core.state ≠ .ACTIVE ∨ h.fetched = []) : (h.step i).Still where
  toRestarted := (hi.step_restarts hr).1
  fetched := by
    change (if h.l1i.restarts (h.l1iIn i) && h.core.state != .ACTIVE then [] else
      h.fetched ++ h.pushed i) = []
    split_ifs with hc
    · rfl
    · rw [Bool.and_eq_true, bne_iff_ne] at hc
      have hf := hs.resolve_left fun hs => hc ⟨hr, hs⟩
      rw [hf, pushed, L1i.restarts_pushed hr]
      rfl

/-- A cache that has just been restarted serves a request at once. -/
theorem Still.restarts (hs : h.Still) (hi : h.Inv) (hn : h.NoFlush)
    (hv : h.core.restartValid = true) : h.l1i.restarts (h.l1iIn i) = true := by
  refine L1i.active_restarts hs.state hi.bubble hn.wants ?_
  rw [wantsRestart_eq, hv]
  rfl

theorem Still.pushed (hs : h.Still) : h.pushed i = [] := L1i.active_pushed hs.req

/-- What has been pushed keeps beginning at the pc. -/
theorem Begins.step {p : Word} (hb : h.Begins p) (hi : h.Inv) (hn : h.NoFlush)
    (hr : h.l1i.restarts (h.l1iIn i) = false) : (h.step i).Begins p := by
  have hf := step_fetched hr
  refine ⟨fun he => ?_, fun f fs he => ?_⟩
  · rw [hf, List.append_eq_nil_iff] at he
    rcases L1i.step_starts (hb.starts he.1) hi.bubble hn.wants hr with ⟨-, hst⟩ | ⟨f, fs, hp, -⟩
    · exact hst
    · rw [Handoff.pushed, hp] at he
      cases he.2
  · rw [hf] at he
    cases hfe : h.fetched with
    | cons f' fs' =>
      rw [hfe, List.cons_append] at he
      obtain ⟨rfl, -⟩ := List.cons_eq_cons.mp he
      exact hb.first _ _ hfe
    | nil =>
      rw [hfe, List.nil_append] at he
      rcases L1i.step_starts (hb.starts hfe) hi.bubble hn.wants hr with ⟨hp, -⟩ | ⟨f', fs', hp, hpc⟩
      · rw [Handoff.pushed, hp] at he
        cases he
      · rw [Handoff.pushed, hp] at he
        obtain ⟨rfl, -⟩ := List.cons_eq_cons.mp he
        exact hpc

/-! ## The queues -/

theorem insnAck_eq (hs : h.core.state = .ACTIVE) :
    (h.l1iIn i).insnAck = Core.dqPush h.core (h.coreIn i) ∧
      (h.l1iIn i).insnAckTwo = Core.dqPushTwo h.core (h.coreIn i) := by
  refine ⟨?_, ?_⟩
  · change h.core.insnAck (h.coreIn i) = _
    rw [Core.insnAck, Core.dqPush, hs, Bool.and_comm (!_)]
    simp
  · change h.core.insnAckTwo (h.coreIn i) = _
    rw [Core.insnAckTwo, Core.dqPushTwo, Core.dqPush, hs, Bool.and_comm (!_) (CoreIn.insnValid _)]
    simp

/-- The decode queue takes what the fetch queue gives. -/
theorem newUops_decodes (hi : h.Inv) (hs : h.core.state = .ACTIVE) :
    List.Forall₂ Decodes (Core.newUops h.core (h.coreIn i))
      (h.l1i.fqWindow.take (L1i.popStep (h.l1iIn i)).toNat) := by
  obtain ⟨h1, h2⟩ := insnAck_eq (i := i) hs
  have hd : ∀ f, (h.coreIn i).insn = f → Decodes (Core.tDecUop (h.coreIn i)) f := by
    rintro f rfl
    exact ⟨_, rfl⟩
  have hd2 : ∀ f, (h.coreIn i).insnTwo = f → Decodes (Core.tDecUop2 (h.coreIn i)) f := by
    rintro f rfl
    exact ⟨_, rfl⟩
  unfold Core.newUops L1i.popStep
  rw [h1, h2]
  cases hp : Core.dqPush h.core (h.coreIn i) with
  | false => simp
  | true =>
    have hv : h.l1i.insnValid = true := (Bool.and_eq_true_iff.mp hp).1
    cases hp2 : Core.dqPushTwo h.core (h.coreIn i) with
    | true =>
      have hv2 : h.l1i.insnValidTwo = true := (Bool.and_eq_true_iff.mp hp2).2
      obtain ⟨rest, hw⟩ := L1i.fqWindow_cons_cons hi.fq hv2
      rw [hw]
      exact .cons (hd _ rfl) (.cons (hd2 _ rfl) .nil)
    | false =>
      obtain ⟨rest, hw⟩ := L1i.fqWindow_cons hv
      rw [hw]
      exact .cons (hd _ rfl) .nil

theorem newUops_nil (hw : h.l1i.fqWindow = []) : Core.newUops h.core (h.coreIn i) = [] := by
  have hv : (h.coreIn i).insnValid = false := L1i.insnValid_false hw
  simp [Core.newUops, Core.dqPush, hv]

/-- What a cycle takes and what it leaves in the queue are what the queue held and what is new. -/
theorem step_queue_taken (hi : h.Inv) (hc : h.core.clearsQueue (h.coreIn i) = false) :
    h.allocated i ++ (h.step i).core.queue = h.core.queue ++ Core.newUops h.core (h.coreIn i) := by
  obtain ⟨rest, hq⟩ := Core.queue_eq_allocUops (i := h.coreIn i) hi.dq
  rw [step_core, Core.step_queue hi.dq hc, ← Core.length_allocUops, hq, List.append_assoc,
    List.drop_left, ← List.append_assoc, ← List.append_assoc]
  rfl

theorem clearsQueue_active (hs : h.core.state = .ACTIVE) :
    h.core.clearsQueue (h.coreIn i) = false := by
  rw [Core.clearsQueue, hs]

/-- The hand-off of an active cycle. -/
theorem Fed.step_link (hf : h.Fed) (hi : h.Inv) (hn : h.NoFlush) (hs : h.core.state = .ACTIVE) :
    ∃ fs, (h.step i).fetched = fs ++ (h.step i).l1i.fqWindow ∧
      List.Forall₂ Decodes ((h.step i).taken ++ (h.step i).core.queue) fs := by
  obtain ⟨fs, hfe, hdec⟩ := hf.link
  have hr := hf.toNoRestart.restarts (i := i)
  have hclear : h.l1i.tClearFq (h.l1iIn i) = false := by
    rw [L1i.tClearFq, hn.flushes, hr]
    rfl
  refine ⟨fs ++ h.l1i.fqWindow.take (L1i.popStep (h.l1iIn i)).toNat, ?_, ?_⟩
  · rw [hi.window.2, hclear, if_neg Bool.false_ne_true, step_fetched hr, hfe, List.append_assoc,
      List.append_assoc, ← List.append_assoc (List.take _ _), List.take_append_drop]
  · rw [(step_taken_active hs).1, List.append_assoc, step_queue_taken hi (clearsQueue_active hs),
      ← List.append_assoc]
    exact List.rel_append hdec (newUops_decodes hi hs)

/-! ## The active state -/

theorem step_state : (h.step i).core.state = h.core.nextState (h.coreIn i) :=
  Core.step_state ..

/-- The flush that an active cycle asks for. -/
theorem NoFlush.asks (hn : h.NoFlush) (ha : (h.step i).core.flushReq = true)
    (hc : (h.step i).core.l1iFlushComplete = false) : (h.step i).Flushing :=
  .asked (Or.inl ha) hn.step_l1i.2.1 hc hn.step_l1i.2.2

/-- The head of the decode queue stays where nothing is allocated. -/
theorem step_tUop (hi : h.Inv) (hal : h.core.allocates (h.coreIn i) = false)
    (hc : h.core.clearsQueue (h.coreIn i) = false) (hq : h.core.tDqEmpty = false) :
    (h.step i).core.tDqEmpty = false ∧ (h.step i).core.tUop = h.core.tUop := by
  have htaken : h.allocated i = [] := by simp [allocated, Core.allocUops, hal]
  have hqueue := step_queue_taken (i := i) hi hc
  obtain ⟨rest, hcons⟩ := Core.queue_cons hq
  rw [htaken, List.nil_append, hcons, List.cons_append] at hqueue
  have hne : (h.step i).core.tDqEmpty = false := by
    rw [Core.dqCount_pos]
    refine Nat.pos_of_ne_zero fun h0 => ?_
    rw [Core.queue, h0] at hqueue
    cases hqueue
  obtain ⟨rest', hcons'⟩ := Core.queue_cons hne
  rw [hcons'] at hqueue
  exact ⟨hne, (List.cons_eq_cons.mp hqueue).1⟩

theorem queue_empty (hq : h.core.queue = []) : h.core.tDqEmpty = true := by
  cases he : h.core.tDqEmpty with
  | true => rfl
  | false =>
    obtain ⟨rest, hc⟩ := Core.queue_cons he
    rw [hq] at hc
    cases hc

theorem allocates_nonempty (hq : h.core.queue = []) : h.core.allocates (h.coreIn i) = false := by
  rw [← Bool.not_eq_true]
  intro ha
  have := (Core.allocates_room ha).2
  rw [queue_empty hq] at this
  cases this

/-- The first active cycle after a serialized instruction. -/
theorem Held.step_phase (hh : h.Held) (hi : h.Inv) (hn : h.NoFlush) (hs : h.core.state = .ACTIVE) :
    (h.step i).Phase := by
  have hr := hh.toStill.restarts (i := i) hi hn hh.asked
  have hst := hi.step_still hr (Or.inr hh.fetched)
  obtain ⟨-, hack, hpc⟩ := hi.step_restarts hr
  have hal := allocates_nonempty (i := i) hh.queue
  have htaken : h.allocated i = [] := by simp [allocated, Core.allocUops, hal]
  have hqueue : (h.step i).core.queue = [] := by
    have := step_queue_taken (i := i) hi (clearsQueue_active hs)
    rwa [htaken, hh.queue, newUops_nil hh.window] at this
  obtain ⟨htk, hen⟩ := step_taken_active (i := i) hs
  rw [hh.taken, htaken] at htk
  have hf := hn.l1iFlushed (i := i)
  rcases Core.active_cases (i := h.coreIn i) hs with
    ⟨hnext, ha⟩ | ⟨hnext, -, ha⟩ | ⟨hnext, ha⟩ | hnext | ⟨-, -, hq, -⟩ | ⟨-, -, hq, -⟩
  · obtain ⟨hv, hfr, hc⟩ := ha.comb
    rw [Phase, step_state, hnext]
    refine ⟨hn.step hfr (hc.trans hf), Or.inr ⟨⟨hv, hst.served⟩, ⟨fun _ => ?_, ?_⟩, hst.runs, ?_,
      fun _ => ⟨hqueue, hst⟩⟩⟩
    · have := hst.toRestarted.starts
      rwa [hpc, hh.pc, ← hen] at this
    · intro f fs he
      rw [hst.fetched] at he
      cases he
    · refine ⟨[], by rw [hst.fetched, hst.window]; rfl, ?_⟩
      rw [htk, hqueue]
      exact .nil
  · obtain ⟨hv, hfr, hc⟩ := ha.comb
    have hasked : (h.step i).Asked := by
      refine ⟨Or.inl hv, ?_, fun _ => ⟨hv, hst.state⟩, fun hrat => ?_⟩
      · exact step_gotRestartAck_active hs
      · rw [step_state] at hrat
        rcases hnext with hnext | hnext <;> rw [hnext] at hrat <;> cases hrat
    rw [Phase, step_state]
    rcases hnext with hnext | hnext <;> rw [hnext] <;>
      exact ⟨hn.step hfr (hc.trans hf), Or.inl hasked⟩
  · obtain ⟨hv, hfr, hc⟩ := ha.comb
    have hfl := hn.asks hfr (hc.trans hf)
    rw [Phase, step_state]
    rcases hnext with hnext | hnext <;> rw [hnext] <;> exact ⟨⟨hv, hst.served⟩, hfl⟩
  · rw [Phase, step_state, hnext]
    trivial
  · rw [queue_empty hh.queue] at hq
    cases hq
  · rw [queue_empty hh.queue] at hq
    cases hq

/-- The first of what follows a hand-off. -/
theorem Taken.of_append {us vs : List Uop} {fs ws : List InsnFetch}
    (hd : List.Forall₂ Decodes (us ++ vs) fs) : Taken us (fs ++ ws) := by
  refine ⟨fs.take us.length, (List.take_prefix _ _).trans (List.prefix_append _ _), ?_⟩
  have := List.forall₂_take us.length hd
  rwa [List.take_left] at this

theorem Taken.mono {us : List Uop} {fs gs : List InsnFetch} (ht : Taken us fs) :
    Taken us (fs ++ gs) := by
  obtain ⟨ls, hp, hd⟩ := ht
  exact ⟨ls, hp.trans (List.prefix_append _ _), hd⟩

/-- A serializing uop that has become the oldest one. -/
theorem Fed.serializing (hf : h.Fed) (hi : h.Inv) (hn : h.NoFlush) (hs : h.core.state = .ACTIVE)
    (hal : h.core.allocates (h.coreIn i) = false) (hq : h.core.tDqEmpty = false)
    (hv : (h.step i).core.restartValid = false) : (h.step i).Serializing := by
  obtain ⟨hnr, hack⟩ := hf.toNoRestart.step (i := i) hv
  obtain ⟨hne, -⟩ := step_tUop (i := i) hi hal (clearsQueue_active hs) hq
  obtain ⟨fs, hfe, hdec⟩ := hf.step_link (i := i) hi hn hs
  obtain ⟨rest, hcons⟩ := Core.queue_cons hne
  refine ⟨⟨hnr, hack, ?_⟩, hne, ?_, ?_⟩
  · exact step_gotRestartAck_active hs
  · rw [hcons, List.append_cons] at hdec
    rw [hfe]
    exact Taken.of_append hdec
  · rw [(step_taken_active hs).2]
    exact (hf.toBegins.step hi hn hf.toNoRestart.restarts).first

/-- An active cycle that is fed by the cache. -/
theorem Fed.step_phase (hf : h.Fed) (hi : h.Inv) (hn : h.NoFlush) (hs : h.core.state = .ACTIVE) :
    (h.step i).Phase := by
  have hr := hf.toNoRestart.restarts (i := i)
  have hfl := hn.l1iFlushed (i := i)
  rcases Core.active_cases (i := h.coreIn i) hs with
    ⟨hnext, ha⟩ | ⟨hnext, -, ha⟩ | ⟨hnext, ha⟩ | hnext | ⟨hnext, hal, hq, ha⟩ | ⟨hnext, hal, hq, ha⟩
  · obtain ⟨hv, hfr, hc⟩ := ha.comb
    obtain ⟨hnr, hack⟩ := hf.toNoRestart.step (i := i) hv
    have hb := hf.toBegins.step hi hn hr
    rw [← (step_taken_active hs).2] at hb
    rw [Phase, step_state, hnext]
    refine ⟨hn.step hfr (hc.trans hfl), Or.inr ⟨hnr, hb, L1i.step_runs hf.runs hn.flushes,
      hf.step_link hi hn hs, fun h => ?_⟩⟩
    rw [hack] at h
    cases h
  · obtain ⟨hv, hfr, hc⟩ := ha.comb
    have hasked : (h.step i).Asked := by
      refine ⟨Or.inl hv, ?_, fun h => ?_, fun hrat => ?_⟩
      · exact step_gotRestartAck_active hs
      · rw [step_l1i, (L1i.step_not_restarts hr).1] at h
        cases h
      · rw [step_state] at hrat
        rcases hnext with hnext | hnext <;> rw [hnext] at hrat <;> cases hrat
    rw [Phase, step_state]
    rcases hnext with hnext | hnext <;> rw [hnext] <;>
      exact ⟨hn.step hfr (hc.trans hfl), Or.inl hasked⟩
  · obtain ⟨hv, hfr, hc⟩ := ha.comb
    have hflush := hn.asks hfr (hc.trans hfl)
    have hnr := (hf.toNoRestart.step (i := i) hv).1
    rw [Phase, step_state]
    rcases hnext with hnext | hnext <;> rw [hnext] <;> exact ⟨hnr, hflush⟩
  · rw [Phase, step_state, hnext]
    trivial
  · obtain ⟨hv, hfr, hc⟩ := ha.comb
    have hser := hf.serializing (i := i) hi hn hs hal hq hv
    rw [Phase, step_state]
    rcases hnext with hnext | hnext <;> rw [hnext] <;> exact ⟨hn.step hfr (hc.trans hfl), hser⟩
  · rw [Phase, step_state, hnext]
    rcases ha with ha | ha
    · obtain ⟨hv, hfr, hc⟩ := ha.comb
      exact ⟨hf.serializing hi hn hs hal hq hv, Or.inl (hn.asks hfr (hc.trans hfl))⟩
    · obtain ⟨hv, hfr, hc⟩ := ha.comb
      obtain ⟨hp, hst, hd⟩ := hn.step_l1i (i := i)
      exact ⟨hf.serializing hi hn hs hal hq hv, Or.inr ⟨hfr, hp, hst, hc, hd⟩⟩

/-! ## Restarts that are waited for -/

/-- The states between a fault and the restart. -/
def Drains (c : CoreFsm) : Prop := c = .DRAIN ∨ c = .EXCEPTION_DRAIN ∨ c = .RAT

theorem Drains.ne_active {c : CoreFsm} (hd : Drains c) : c ≠ .ACTIVE := by
  rcases hd with rfl | rfl | rfl <;> decide

theorem phase_drains (hd : Drains h.core.state) :
    h.Phase ↔ h.NoFlush ∧ (h.Asked ∨ h.Served) := by
  rcases hd with hs | hs | hs <;> rw [Phase, hs]

theorem drains_next (hd : Drains h.core.state) :
    Drains (h.core.nextState (h.coreIn i)) ∧
        (h.core.state = .RAT → h.core.gotAck (h.coreIn i) = false) ∨
      h.core.state = .RAT ∧ h.core.nextState (h.coreIn i) = .ACTIVE ∧
        h.core.gotAck (h.coreIn i) = true := by
  rcases hd with hs | hs | hs
  · refine Or.inl ⟨?_, fun hr => by rw [hs] at hr; cases hr⟩
    rw [Core.nextState, hs]
    dsimp only
    split_ifs <;> simp [Drains]
  · refine Or.inl ⟨?_, fun hr => by rw [hs] at hr; cases hr⟩
    rw [Core.nextState, hs]
    dsimp only
    split_ifs <;> simp [Drains]
  · cases hg : h.core.gotAck (h.coreIn i) with
    | true =>
      refine Or.inr ⟨hs, ?_, rfl⟩
      rw [Core.nextState, hs]
      exact if_pos hg
    | false =>
      refine Or.inl ⟨?_, fun _ => rfl⟩
      rw [Core.nextState, hs]
      dsimp only
      rw [hg]
      exact Or.inr (Or.inr rfl)

theorem drains_asks (hd : Drains h.core.state) :
    (h.step i).core.restartValid = false ∧ (h.step i).core.restartPc = h.core.restartPc := by
  obtain ⟨hv, -, -⟩ := step_asks (i := i) hd.ne_active
  refine ⟨?_, ?_⟩
  · rw [hv, Core.asksRestart]
    rcases hd with hs | hs | hs <;> rw [hs]
  · refine Core.step_restartPc_waits ?_
    rcases hd with hs | hs | hs
    · exact Or.inl hs
    · exact Or.inr (Or.inl hs)
    · exact Or.inr (Or.inr (Or.inl hs))

/-- A request is served, or it stays pending. -/
theorem Asked.step (ha : h.Asked) (hi : h.Inv) (hn : h.NoFlush) (hd : Drains h.core.state) :
    (h.step i).Asked ∨ (h.step i).Served := by
  obtain ⟨hv, hpc⟩ := drains_asks (i := i) hd
  cases hr : h.l1i.restarts (h.l1iIn i) with
  | true =>
    have hst := hi.step_still hr (Or.inl hd.ne_active)
    obtain ⟨-, hack, hpc'⟩ := hi.step_restarts hr
    refine Or.inr ⟨⟨hv, hst.served⟩, ⟨fun _ => ?_, ?_⟩, hst.runs, Or.inl hack, ?_⟩
    · have := hst.toRestarted.starts
      rwa [hpc', ← hpc] at this
    · intro f fs he
      rw [hst.fetched] at he
      cases he
    · rw [hst.fetched, hst.window]
  | false =>
    obtain ⟨hack, hreq⟩ := L1i.step_not_restarts hr
    refine Or.inl ⟨Or.inr ?_, ?_, fun hc => ?_, fun _ => hv⟩
    · rw [step_l1i, hreq, wantsRestart_eq, Bool.or_eq_true]
      exact ha.asked
    · -- an acknowledgement now answers an older request, and this one is served in the same cycle
      rw [step_gotRestartAck, gotAck_idle hd.ne_active, ha.got, Bool.false_or]
      rw [← Bool.not_eq_true]
      intro hc
      obtain ⟨hval, hst⟩ := ha.ack hc
      have := L1i.active_restarts (i := h.l1iIn i) hst hi.bubble hn.wants
        (by rw [wantsRestart_eq, hval]; rfl)
      rw [hr] at this
      cases this
    · rw [step_l1i, hack] at hc
      cases hc

theorem Served.step (hv : h.Served) (hi : h.Inv) (hn : h.NoFlush) (hd : Drains h.core.state) :
    (h.step i).NoRestart ∧ (h.step i).Begins (h.step i).core.restartPc ∧ (h.step i).l1i.Runs ∧
      (h.step i).l1i.restartAck = false ∧ (h.step i).fetched = (h.step i).l1i.fqWindow := by
  obtain ⟨hval, hpc⟩ := drains_asks (i := i) hd
  have hr := hv.toNoRestart.restarts (i := i)
  obtain ⟨hnr, hack⟩ := hv.toNoRestart.step hval
  refine ⟨hnr, hpc ▸ hv.toBegins.step hi hn hr, L1i.step_runs hv.runs hn.flushes, hack, ?_⟩
  have hclear : h.l1i.tClearFq (h.l1iIn i) = false := by
    rw [L1i.tClearFq, hn.flushes, hr]
    rfl
  rw [step_fetched hr, hi.window.2, hclear, if_neg Bool.false_ne_true, popStep_idle hd.ne_active,
    hv.fetched]
  rfl

/-- A drain that ends has been answered, and all that has been pushed waits in the fetch queue. -/
theorem drains_step_phase (hw : h.Asked ∨ h.Served) (hi : h.Inv) (hn : h.NoFlush)
    (hd : Drains h.core.state) : (h.step i).Phase := by
  have hn' := hn.step_idle (i := i) hd.ne_active
  have hgot := step_gotRestartAck (h := h) (i := i)
  rcases drains_next (i := i) hd with ⟨hnext, -⟩ | ⟨hrat, hnext, hg⟩
  · rw [phase_drains (by rw [step_state]; exact hnext)]
    refine ⟨hn', ?_⟩
    rcases hw with ha | hv
    · exact ha.step hi hn hd
    · obtain ⟨hnr, hb, hrun, -, hfe⟩ := hv.step (i := i) hi hn hd
      refine Or.inr ⟨hnr, hb, hrun, Or.inr ?_, hfe⟩
      rw [hgot, gotAck_idle hd.ne_active, Bool.or_eq_true]
      exact hv.ack.symm
  · obtain ⟨htk, hen⟩ := step_reenters hd.ne_active hnext
    have hqueue : (h.step i).core.queue = [] := by
      have hclear : h.core.clearsQueue (h.coreIn i) = true := by rw [Core.clearsQueue, hrat]
      exact (Core.step_clearQueue hclear).2
    rw [gotAck_idle hd.ne_active] at hg
    rw [Phase, step_state, hnext]
    refine ⟨hn', Or.inr ?_⟩
    rcases hw with ha | hv
    · rw [ha.got, Bool.false_or] at hg
      have := (ha.ack hg).1
      rw [ha.rat hrat] at this
      cases this
    · obtain ⟨hnr, hb, hrun, hack, hfe⟩ := hv.step (i := i) hi hn hd
      refine ⟨hnr, hen ▸ hb, hrun, ⟨[], hfe, ?_⟩, fun hc => ?_⟩
      · rw [htk, hqueue]
        exact .nil
      · rw [hack] at hc
        cases hc

/-! ## Serialized instructions -/

/-- A cycle without a request leaves the hand-off silent. -/
theorem Silent.step (hz : h.Silent) (hs : h.core.state ≠ .ACTIVE)
    (ha : h.core.asksRestart (h.coreIn i) = false) : (h.step i).Silent := by
  obtain ⟨hnr, hack⟩ := hz.toNoRestart.step ((step_asks (i := i) hs).1.trans ha)
  refine ⟨hnr, hack, ?_⟩
  rw [step_gotRestartAck, gotAck_idle hs, hz.got, hz.ack]
  rfl

/-- The uop at the head waits to be taken. -/
theorem Serializing.step (hz : h.Serializing) (hi : h.Inv) (hs : h.core.state ≠ .ACTIVE)
    (hn : h.core.nextState (h.coreIn i) ≠ .ACTIVE)
    (ha : h.core.asksRestart (h.coreIn i) = false) (hal : h.core.allocates (h.coreIn i) = false)
    (hc : h.core.clearsQueue (h.coreIn i) = false) : (h.step i).Serializing := by
  obtain ⟨hne, huop⟩ := step_tUop hi hal hc hz.nonempty
  obtain ⟨htk, hen⟩ := step_taken_idle hn
  have htaken : h.allocated i = [] := by simp [allocated, Core.allocUops, hal]
  have hf := step_fetched (i := i) hz.toNoRestart.restarts
  refine ⟨hz.toSilent.step hs ha, hne, ?_, ?_⟩
  · rw [htk, htaken, List.append_nil, huop, hf]
    exact hz.next.mono
  · intro f fs he
    rw [hen]
    rw [hf] at he
    cases hfe : h.fetched with
    | nil =>
      obtain ⟨gs, hp, hd⟩ := hz.next
      rw [hfe] at hp
      rw [List.prefix_nil.mp hp] at hd
      have := hd.length_eq
      simp at this
    | cons f' fs' =>
      rw [hfe, List.cons_append] at he
      obtain ⟨rfl, -⟩ := List.cons_eq_cons.mp he
      exact hz.first _ _ hfe

theorem serialize_step_phase (hz : h.Serializing) (hi : h.Inv) (hn : h.NoFlush)
    (hs : h.core.state = .ALLOC_FOR_SERIALIZE) : (h.step i).Phase := by
  have hne : h.core.state ≠ .ACTIVE := by simp [hs]
  have hn' := hn.step_idle (i := i) hne
  have ha : h.core.asksRestart (h.coreIn i) = false := by rw [Core.asksRestart, hs]
  have hnext : h.core.nextState (h.coreIn i) = if Core.canAllocSerial h.core (h.coreIn i)
      then .WAIT_FOR_SERIALIZE_AND_RESTART else .ALLOC_FOR_SERIALIZE := by
    rw [Core.nextState, hs]
  cases hal : Core.canAllocSerial h.core (h.coreIn i) with
  | true =>
    rw [hal, if_pos rfl] at hnext
    rw [Phase, step_state, hnext]
    exact ⟨hn', Or.inl (hz.toSilent.step hne ha)⟩
  | false =>
    rw [hal, if_neg Bool.false_ne_true] at hnext
    have hal : h.core.allocates (h.coreIn i) = false := by rw [Core.allocates, hs]; exact hal
    rw [Phase, step_state, hnext]
    refine ⟨hn', hz.step hi hne ?_ ha hal ?_⟩
    · rw [hnext]
      decide
    · rw [Core.clearsQueue, hs]

theorem monitor_step_phase (hz : h.Serializing) (hi : h.Inv) (hn : h.NoFlush)
    (hs : h.core.state = .HANDLE_MONITOR) : (h.step i).Phase := by
  have hne : h.core.state ≠ .ACTIVE := by simp [hs]
  have hn' := hn.step_idle (i := i) hne
  have hnext : h.core.nextState (h.coreIn i) = .ALLOC_FOR_MONITOR ∨
      h.core.nextState (h.coreIn i) = .HANDLE_MONITOR := by
    rw [Core.nextState, hs]
    dsimp only
    split_ifs
    · exact Or.inl rfl
    · exact Or.inr rfl
  have hstep : (h.step i).Serializing := by
    refine hz.step hi hne ?_ ?_ ?_ ?_
    · rcases hnext with hnext | hnext <;> rw [hnext] <;> decide
    · rw [Core.asksRestart, hs]
    · rw [Core.allocates, hs]
    · rw [Core.clearsQueue, hs]
  rw [Phase, step_state]
  rcases hnext with hnext | hnext <;> rw [hnext] <;> exact ⟨hn', hstep⟩

theorem allocMonitor_step_phase (hz : h.Serializing) (hn : h.NoFlush)
    (hs : h.core.state = .ALLOC_FOR_MONITOR) : (h.step i).Phase := by
  have hne : h.core.state ≠ .ACTIVE := by simp [hs]
  have hnext : h.core.nextState (h.coreIn i) = .WAIT_FOR_MONITOR := by rw [Core.nextState, hs]
  rw [Phase, step_state, hnext]
  refine ⟨hn.step_idle hne, Or.inl (hz.toSilent.step hne ?_)⟩
  rw [Core.asksRestart, hs]

/-- The states that wait for a serialized instruction. -/
def Waits (c : CoreFsm) : Prop := c = .WAIT_FOR_SERIALIZE_AND_RESTART ∨ c = .WAIT_FOR_MONITOR

theorem Waits.ne_active {c : CoreFsm} (hw : Waits c) : c ≠ .ACTIVE := by
  rcases hw with rfl | rfl <;> decide

theorem waits_next (hw : Waits h.core.state) : h.core.nextState (h.coreIn i) =
    if h.core.tRobHeadComplete && h.core.gotAck (h.coreIn i) then .ACTIVE else h.core.state := by
  rcases hw with hs | hs <;> rw [Core.nextState, hs]

theorem waits_asks (hw : Waits h.core.state) :
    h.core.asksRestart (h.coreIn i) = h.core.tRobHeadComplete ∧
      h.core.clearsQueue (h.coreIn i) = h.core.tRobHeadComplete := by
  rcases hw with hs | hs <;> rw [Core.asksRestart, Core.clearsQueue, hs] <;> exact ⟨rfl, rfl⟩

theorem phase_waits (hw : Waits h.core.state) :
    h.Phase ↔ h.NoFlush ∧ (h.Silent ∨ h.Requests) := by
  rcases hw with hs | hs <;> rw [Phase, hs]

theorem Inv.step_headComplete (hi : h.Inv) (hw : Waits h.core.state)
    (hg : h.core.gotAck (h.coreIn i) = false) (hc : h.core.tRobHeadComplete = true) :
    (h.step i).core.tRobHeadComplete = true :=
  Core.step_headComplete hw hg hc hi.complete1 hi.complete2

/-- The cycle after a request sees it acknowledged, or makes it again. -/
theorem waits_step_phase (hw : h.Silent ∨ h.Requests) (hi : h.Inv) (hn : h.NoFlush)
    (hs : Waits h.core.state) : (h.step i).Phase := by
  have hn' := hn.step_idle (i := i) hs.ne_active
  have hnext := waits_next (i := i) hs
  obtain ⟨hask, hclear⟩ := waits_asks (i := i) hs
  have hval := (step_asks (i := i) hs.ne_active).1.trans hask
  have hgot := gotAck_idle (i := i) hs.ne_active
  have hgot' := step_gotRestartAck (h := h) (i := i)
  rcases hw with hz | hr
  · rw [hz.got, hz.ack] at hgot
    rw [hgot, Bool.or_false, Bool.and_false, if_neg Bool.false_ne_true] at hnext
    rw [phase_waits (by rw [step_state, hnext]; exact hs)]
    refine ⟨hn', ?_⟩
    cases hc : h.core.tRobHeadComplete with
    | false => exact Or.inl (hz.step hs.ne_active (hask.trans hc))
    | true =>
      refine Or.inr ⟨hi.step_headComplete hs hgot hc, hval.trans hc, hgot'.trans hgot, fun hack => ?_⟩
      rw [step_l1i, (L1i.step_not_restarts hz.toNoRestart.restarts).1] at hack
      cases hack
  · rw [hr.got, Bool.false_or] at hgot
    cases hack : h.l1i.restartAck with
    | true =>
      rw [hgot, hr.complete, hack, Bool.and_true, if_pos rfl] at hnext
      have hrs := (hr.ack hack).restarts (i := i) hi hn hr.asked
      obtain ⟨htk, hen⟩ := step_reenters hs.ne_active hnext
      rw [Phase, step_state, hnext]
      refine ⟨hn', Or.inl ⟨hi.step_still hrs (Or.inl hs.ne_active), hval.trans hr.complete, ?_, htk,
        hen.symm⟩⟩
      exact (Core.step_clearQueue (hclear.trans hr.complete)).2
    | false =>
      rw [hack] at hgot
      rw [hgot, Bool.and_false, if_neg Bool.false_ne_true] at hnext
      rw [phase_waits (by rw [step_state, hnext]; exact hs)]
      exact ⟨hn', Or.inr ⟨hi.step_headComplete hs hgot hr.complete, hval.trans hr.complete,
        hgot'.trans hgot, fun hack' => hi.step_still hack' (Or.inl hs.ne_active)⟩⟩

/-! ## Flushes of the instruction cache -/

theorem pushed_idle (hs : h.l1i.state ≠ .ACTIVE) : h.pushed i = [] := by
  refine L1i.pushed_of_not ?_
  rw [L1i.pushes, Bool.and_eq_false_imp, beq_iff_eq]
  exact fun h => absurd h hs

theorem Flushing.seen (hf : h.Flushing) : h.core.l1iFlushed (h.coreIn i) = true →
    h.core.flushReq = false ∧ h.l1i.flushReq = false ∧ h.l1i.state = .IDLE ∧ h.l1i.fqWindow = [] := by
  intro hs
  have hs : (h.core.l1iFlushComplete || h.l1i.flushComplete) = true := hs
  cases hf with
  | asked _ _ hc hd | flushing _ _ _ _ hc hd =>
    rw [hc, hd] at hs
    cases hs
  | done ha hp hst hq => exact ⟨ha, hp, hst, hq⟩

/-- An idle cache that is not asked for anything stays idle. -/
theorem idle_step (hi : h.Inv) (hr : h.NoRestart) (hw : h.l1i.wantsFlush (h.l1iIn i) = false)
    (hst : h.l1i.state = .IDLE) (hq : h.l1i.fqWindow = []) :
    (h.step i).l1i.flushReq = false ∧ (h.step i).l1i.state = .IDLE ∧
      (h.step i).l1i.fqWindow = [] ∧ (h.step i).l1i.flushComplete = false := by
  have hfl : h.l1i.flushes (h.l1iIn i) = false := by rw [L1i.flushes, hst]
  have hrs := hr.restarts (i := i)
  refine ⟨?_, ?_, ?_, ?_⟩
  · change (h.l1i.wantsFlush (h.l1iIn i) && _) = false
    rw [hw, Bool.false_and]
  · change h.l1i.nState (h.l1iIn i) = _
    rw [L1i.nState, hfl, hrs, if_neg Bool.false_ne_true, if_neg Bool.false_ne_true, hst]
  · rw [hi.window.2, hq, pushed_idle (by simp [hst])]
    simp
  · change (h.l1i.state == .FLUSH_CACHE && _) = false
    rw [hst]
    rfl

/-- A flush goes on until the core has seen it complete. -/
theorem Flushing.step (hf : h.Flushing) (hi : h.Inv) (hr : h.NoRestart)
    (hs : h.core.state ≠ .ACTIVE)
    (hk : h.core.keepsFlushed (h.coreIn i) = h.core.l1iFlushed (h.coreIn i)) :
    (h.step i).Flushing := by
  obtain ⟨-, hfr, hc'⟩ := step_asks (i := i) hs
  rw [hk] at hc'
  have hseen : h.core.l1iFlushed (h.coreIn i) = (h.core.l1iFlushComplete || h.l1i.flushComplete) :=
    rfl
  have hdone : (h.step i).l1i.flushComplete =
      (h.l1i.state == .FLUSH_CACHE && h.l1i.cacheIdx == lastSet) := rfl
  have hreq : (h.step i).l1i.flushReq =
      ((h.l1i.flushReq || h.core.flushReq) && !h.l1i.flushes (h.l1iIn i)) := rfl
  cases hf with
  | asked ha hst hc hd =>
    rw [hseen, hc, hd] at hc'
    have hd' : (h.step i).l1i.flushComplete = false := by
      rw [hdone]
      simp [hst]
    cases hfl : h.l1i.flushes (h.l1iIn i) with
    | false =>
      refine .asked (Or.inr ?_) (L1i.step_not_flush hst hfl) hc' hd'
      rw [hreq, hfl, Bool.not_false, Bool.and_true, Bool.or_eq_true]
      exact ha.symm
    | true =>
      refine .flushing hfr ?_ ?_ ?_ hc' hd'
      · rw [hreq, hfl, Bool.not_true, Bool.and_false]
      · change h.l1i.nState (h.l1iIn i) = _
        rw [L1i.nState, if_pos hfl]
      · rw [hi.window.2, L1i.tClearFq, hfl]
        rfl
  | flushing ha hp hst hq hc hd =>
    rw [hseen, hc, hd] at hc'
    have hfl : h.l1i.flushes (h.l1iIn i) = false := by rw [L1i.flushes, hst]
    have hq' : (h.step i).l1i.fqWindow = [] := by
      rw [hi.window.2, hq, pushed_idle (by simp [hst])]
      simp
    have hp' : (h.step i).l1i.flushReq = false := by
      rw [hreq, hp, ha]
      rfl
    have hst' : (h.step i).l1i.state =
        if h.l1i.cacheIdx == lastSet then .IDLE else .FLUSH_CACHE := by
      change h.l1i.nState (h.l1iIn i) = _
      rw [L1i.nState, hfl, hr.restarts, if_neg Bool.false_ne_true, if_neg Bool.false_ne_true, hst]
    rw [hst, beq_self_eq_true, Bool.true_and] at hdone
    cases hl : h.l1i.cacheIdx == lastSet with
    | true =>
      rw [hl, if_pos rfl] at hst'
      exact .done hfr hp' hst' hq' (Or.inr (hdone.trans hl))
    | false =>
      rw [hl, if_neg Bool.false_ne_true] at hst'
      exact .flushing hfr hp' hst' hq' hc' (hdone.trans hl)
  | done ha hp hst hq hd =>
    have hw : h.l1i.wantsFlush (h.l1iIn i) = false := by
      rw [wantsFlush_eq, hp, ha]
      rfl
    obtain ⟨hp', hst', hq', -⟩ := idle_step hi hr hw hst hq
    refine .done hfr hp' hst' hq' (Or.inl ?_)
    rw [hc', hseen, Bool.or_eq_true]
    exact hd

/-- The core goes on when it has seen the flush complete. -/
theorem Flushing.finished (hf : h.Flushing) (hi : h.Inv) (hr : h.NoRestart)
    (hs : h.core.state = .MONITOR_FLUSH_CACHE ∨ h.core.state = .FLUSH_FOR_HALT)
    (hd : h.core.flushed (h.coreIn i) = true) :
    (h.step i).NoFlush ∧ (h.step i).l1i.state = .IDLE ∧ (h.step i).l1i.fqWindow = [] := by
  have hne : h.core.state ≠ .ACTIVE := by rcases hs with hs | hs <;> simp [hs]
  obtain ⟨-, hfr, hc'⟩ := step_asks (i := i) hne
  have hkeep : h.core.keepsFlushed (h.coreIn i) = false := by
    rw [Core.keepsFlushed]
    rcases hs with hs | hs <;> rw [hs] <;> simp [hd]
  obtain ⟨ha, hp, hst, hq⟩ := hf.seen (i := i) (Bool.and_eq_true_iff.mp hd).1
  have hw : h.l1i.wantsFlush (h.l1iIn i) = false := by
    rw [wantsFlush_eq, hp, ha]
    rfl
  obtain ⟨hp', hst', hq', hd'⟩ := idle_step hi hr hw hst hq
  exact ⟨⟨hfr, hp', by simp [hst'], hc'.trans hkeep, hd'⟩, hst', hq'⟩

theorem Flushed.step (hf : h.Flushed) (hs : h.core.state = .MONITOR_FLUSH_CACHE) :
    if h.core.flushed (h.coreIn i) then (h.step i).NoFlush else (h.step i).Flushed := by
  obtain ⟨-, hfr, hc'⟩ := step_asks (h := h) (i := i) (by simp [hs])
  have hseen : h.core.l1iFlushed (h.coreIn i) = true := by
    change (h.core.l1iFlushComplete || _) = true
    rw [hf.seen]
    rfl
  rw [Core.keepsFlushed, hs] at hc'
  dsimp only at hc'
  rw [hseen, Bool.true_and] at hc'
  have hfl : h.l1i.flushes (h.l1iIn i) = false := by
    rw [← Bool.not_eq_true]
    intro hc
    have := L1i.flushes_wants hc
    rw [wantsFlush_eq, hf.pending, hf.asked] at this
    cases this
  have hp : (h.step i).l1i.flushReq = false := by
    change ((h.l1i.flushReq || h.core.flushReq) && _) = false
    rw [hf.pending, hf.asked]
    rfl
  have hd : (h.step i).l1i.flushComplete = false := by
    change (h.l1i.state == .FLUSH_CACHE && _) = false
    simp [hf.state]
  have hst := L1i.step_not_flush hf.state hfl
  split_ifs with hfin <;> simp only [hfin] at hc'
  · exact ⟨hfr, hp, hst, hc', hd⟩
  · simp only [Bool.not_eq_true] at hfin
    exact ⟨hfr, hp, hst, by simpa [hfin] using hc', hd⟩

theorem flushCache_step_phase (hz : h.Serializing) (hf : h.Flushing ∨ h.Flushed) (hi : h.Inv)
    (hs : h.core.state = .MONITOR_FLUSH_CACHE) : (h.step i).Phase := by
  have hnext : h.core.nextState (h.coreIn i) =
      if h.core.flushed (h.coreIn i) then .HANDLE_MONITOR else .MONITOR_FLUSH_CACHE := by
    rw [Core.nextState, hs]
  have hz' : (h.step i).Serializing := by
    refine hz.step hi (by simp [hs]) ?_ ?_ ?_ ?_
    · rw [hnext]
      split_ifs <;> decide
    · rw [Core.asksRestart, hs]
    · rw [Core.allocates, hs]
    · rw [Core.clearsQueue, hs]
  cases hd : h.core.flushed (h.coreIn i) with
  | true =>
    rw [hd, if_pos rfl] at hnext
    rw [Phase, step_state, hnext]
    refine ⟨?_, hz'⟩
    rcases hf with hf | hf
    · exact (hf.finished hi hz.toNoRestart (Or.inl hs) hd).1
    · have := hf.step (i := i) hs
      rwa [if_pos hd] at this
  | false =>
    rw [hd, if_neg Bool.false_ne_true] at hnext
    rw [Phase, step_state, hnext]
    refine ⟨hz', ?_⟩
    rcases hf with hf | hf
    · refine Or.inl (hf.step hi hz.toNoRestart (by simp [hs]) ?_)
      rw [Core.keepsFlushed, hs]
      dsimp only
      rw [hd, Bool.not_false, Bool.and_true]
    · have := hf.step (i := i) hs
      rw [hd, if_neg Bool.false_ne_true] at this
      exact Or.inr this

/-! ## Traps and halts -/

/-- The states that write the exception registers. -/
def Writes (c : CoreFsm) : Prop := c = .WRITE_BADVADDR ∨ c = .WRITE_EPC ∨ c = .WRITE_CAUSE

theorem writes_step_phase (hr : h.NoRestart) (hf : h.Flushing) (hi : h.Inv)
    (hs : Writes h.core.state) : (h.step i).Phase := by
  have hne : h.core.state ≠ .ACTIVE := by rcases hs with hs | hs | hs <;> simp [hs]
  have hnext : Writes (h.core.nextState (h.coreIn i)) ∨
      h.core.nextState (h.coreIn i) = .FLUSH_FOR_HALT := by
    rcases hs with hs | hs | hs <;> rw [Core.nextState, hs] <;> simp [Writes]
  have hask : h.core.asksRestart (h.coreIn i) = false := by
    rcases hs with hs | hs | hs <;> rw [Core.asksRestart, hs]
  have hr' := (hr.step (i := i) ((step_asks hne).1.trans hask)).1
  have hf' : (h.step i).Flushing := by
    refine hf.step hi hr hne ?_
    rcases hs with hs | hs | hs <;> rw [Core.keepsFlushed, hs]
  rw [Phase, step_state]
  rcases hnext with (hnext | hnext | hnext) | hnext <;> rw [hnext] <;> exact ⟨hr', hf'⟩

theorem flushForHalt_step_phase (hr : h.NoRestart) (hf : h.Flushing) (hi : h.Inv)
    (hs : h.core.state = .FLUSH_FOR_HALT) : (h.step i).Phase := by
  have hne : h.core.state ≠ .ACTIVE := by simp [hs]
  have hnext : h.core.nextState (h.coreIn i) =
      if h.core.flushed (h.coreIn i) then .HALT else .FLUSH_FOR_HALT := by
    rw [Core.nextState, hs]
  have hask : h.core.asksRestart (h.coreIn i) = false := by rw [Core.asksRestart, hs]
  obtain ⟨hr', hack⟩ := hr.step (i := i) ((step_asks hne).1.trans hask)
  cases hd : h.core.flushed (h.coreIn i) with
  | true =>
    rw [hd, if_pos rfl] at hnext
    obtain ⟨hn', hst, hq⟩ := hf.finished (i := i) hi hr (Or.inr hs) hd
    rw [Phase, step_state, hnext]
    exact ⟨hn', hr', hack, hst, hq⟩
  | false =>
    rw [hd, if_neg Bool.false_ne_true] at hnext
    rw [Phase, step_state, hnext]
    refine ⟨hr', hf.step hi hr hne ?_⟩
    rw [Core.keepsFlushed, hs]
    dsimp only
    rw [hd, Bool.not_false, Bool.and_true]

/-- A halted core asks for a restart only when it is resumed. -/
theorem halt_step_phase (hr : h.NoRestart) (hst : h.l1i.state = .IDLE) (hq : h.l1i.fqWindow = [])
    (hi : h.Inv) (hn : h.NoFlush) (hs : h.core.state = .HALT) : (h.step i).Phase := by
  have hne : h.core.state ≠ .ACTIVE := by simp [hs]
  have hn' := hn.step_idle (i := i) hne
  have hnext : h.core.nextState (h.coreIn i) =
      if (h.coreIn i).resume then .HALT_WAIT_FOR_RESTART else .HALT := by
    rw [Core.nextState, hs]
  have hval : (h.step i).core.restartValid = (h.coreIn i).resume := by
    rw [(step_asks (i := i) hne).1, Core.asksRestart, hs]
  obtain ⟨hack, hreq⟩ := L1i.step_not_restarts (i := h.l1iIn i) hr.restarts
  rw [wantsRestart_eq, hr.asked, hr.pending] at hreq
  obtain ⟨-, hst', hq', -⟩ := idle_step hi hr hn.wants hst hq
  cases hres : (h.coreIn i).resume with
  | true =>
    rw [hres, if_pos rfl] at hnext
    have hclear : h.core.clearsQueue (h.coreIn i) = true := by rw [Core.clearsQueue, hs]; exact hres
    rw [Phase, step_state, hnext]
    exact ⟨hn', (Core.step_clearQueue hclear).2, hq', hreq, Or.inl ⟨hval.trans hres, hst', hack⟩⟩
  | false =>
    rw [hres, if_neg Bool.false_ne_true] at hnext
    rw [Phase, step_state, hnext]
    exact ⟨hn', ⟨hval.trans hres, hreq⟩, hack, hst', hq'⟩

/-- Nothing enters an empty decode queue from an empty fetch queue. -/
theorem Inv.step_queue_nil (hi : h.Inv) (hs : h.core.state = .HALT_WAIT_FOR_RESTART)
    (hq : h.core.queue = []) (hw : h.l1i.fqWindow = []) : (h.step i).core.queue = [] := by
  have hclear : h.core.clearsQueue (h.coreIn i) = false := by rw [Core.clearsQueue, hs]
  have hal : h.core.allocates (h.coreIn i) = false := by rw [Core.allocates, hs]
  have := step_queue_taken (i := i) hi hclear
  rwa [show h.allocated i = [] by simp [allocated, Core.allocUops, hal], hq, newUops_nil hw] at this

/-- The idle cache of a resumed core restarts at once. -/
theorem Resuming.step_phase (hr : h.Resuming) (hi : h.Inv) (hn : h.NoFlush)
    (hs : h.core.state = .HALT_WAIT_FOR_RESTART) : (h.step i).Phase := by
  have hne : h.core.state ≠ .ACTIVE := by simp [hs]
  have hn' := hn.step_idle (i := i) hne
  have hpc : (h.step i).core.restartPc = h.core.restartPc :=
    Core.step_restartPc_waits (Or.inr (Or.inr (Or.inr hs)))
  have hval : (h.step i).core.restartValid = false := by
    rw [(step_asks (i := i) hne).1, Core.asksRestart, hs]
  have hnext : h.core.nextState (h.coreIn i) =
      if h.core.gotAck (h.coreIn i) then .ACTIVE else .HALT_WAIT_FOR_RESTART := by
    rw [Core.nextState, hs]
  have hqueue := hi.step_queue_nil (i := i) hs hr.queue hr.window
  rcases hr.phase with ⟨hask, hst, hack⟩ | ⟨hask, hack, hstill, hstarts⟩
  · have hrs : h.l1i.restarts (h.l1iIn i) = true := by
      rw [L1i.restarts, hst]
      dsimp only
      rw [wantsRestart_eq, hask]
      rfl
    have hstill := hi.step_still hrs (Or.inl hne)
    obtain ⟨hrd, hack', hpc'⟩ := hi.step_restarts hrs
    have hst' := hrd.starts
    rw [hpc', ← hpc] at hst'
    cases hg : h.core.gotAck (h.coreIn i) with
    | true =>
      rw [hg, if_pos rfl] at hnext
      obtain ⟨htk, hen⟩ := step_reenters hne hnext
      rw [Phase, step_state, hnext]
      refine ⟨hn', Or.inr ⟨⟨hval, hrd.served⟩, ⟨fun _ => hen ▸ hst', fun f fs he => ?_⟩, hrd.runs, ?_,
        fun _ => ⟨hqueue, hstill⟩⟩⟩
      · rw [hstill.fetched] at he
        cases he
      · refine ⟨[], by rw [hstill.fetched, hrd.window]; rfl, ?_⟩
        rw [htk, hqueue]
        exact .nil
    | false =>
      rw [hg, if_neg Bool.false_ne_true] at hnext
      rw [Phase, step_state, hnext]
      exact ⟨hn', hqueue, hrd.window, hrd.served, Or.inr ⟨hval, hack', hstill, hst'⟩⟩
  · have hnr : h.NoRestart := ⟨hask, hr.pending⟩
    obtain ⟨hnr', hack'⟩ := hnr.step (i := i) hval
    have hg : h.core.gotAck (h.coreIn i) = true := by
      rw [gotAck_idle hne, hack, Bool.or_true]
    rw [hg, if_pos rfl] at hnext
    obtain ⟨htk, hen⟩ := step_reenters hne hnext
    have hb : h.Begins h.core.restartPc := by
      refine ⟨fun _ => hstarts, fun f fs he => ?_⟩
      rw [hstill.fetched] at he
      cases he
    have hb' := hb.step (i := i) hi hn hnr.restarts
    have hwin : (h.step i).l1i.fqWindow = [] := by
      rw [hi.window.2, hr.window, hstill.pushed]
      simp
    have hfe : (h.step i).fetched = [] := by
      rw [step_fetched hnr.restarts, hstill.fetched, hstill.pushed]
      rfl
    rw [Phase, step_state, hnext]
    refine ⟨hn', Or.inr ⟨hnr', ?_, L1i.step_runs hstill.toRestarted.runs hn.flushes, ?_, fun hc => ?_⟩⟩
    · rw [hen, hpc]
      exact hb'
    · refine ⟨[], by rw [hfe, hwin]; rfl, ?_⟩
      rw [htk, hqueue]
      exact .nil
    · rw [hack'] at hc
      cases hc

/-! ## Runs -/

/-- What the execution unit reports as valid is complete. -/
theorem exec_complete (e : Exec) (j : ExecIn) :
    ((e.step j).completeValid1 = true → (e.step j).completeBundle1.complete = true) ∧
      ((e.step j).completeValid2 = true → (e.step j).completeBundle2.complete = true) := by
  refine ⟨fun hv => ?_, fun _ => ?_⟩
  · have hv : (e.startInt && (e.alu j).aluValid || e.mul2.complete || j.divComplete) = true := hv
    change (e.nCompleteBundle1 j).complete = true
    unfold Exec.nCompleteBundle1
    cases hm : e.mul2.complete || j.divComplete with
    | true => rfl
    | false =>
      rw [Bool.or_assoc, hm, Bool.or_false, Bool.and_eq_true] at hv
      exact hv.2
  · change (e.nCompleteBundle2 j).complete = true
    unfold Exec.nCompleteBundle2
    cases j.fpuResultValid || j.fpuFcrValid <;> rfl

theorem Inv.step_phase (hi : h.Inv) : (h.step i).Phase := by
  have hp := hi.phase
  rw [Phase] at hp
  cases hs : h.core.state with
  | ACTIVE =>
    rw [hs] at hp
    rcases hp with ⟨hn, hh | hf⟩
    · exact hh.step_phase hi hn hs
    · exact hf.step_phase hi hn hs
  | DRAIN | EXCEPTION_DRAIN | RAT =>
    rw [hs] at hp
    exact drains_step_phase hp.2 hi hp.1 (by simp [Drains, hs])
  | ALLOC_FOR_SERIALIZE =>
    rw [hs] at hp
    exact serialize_step_phase hp.2 hi hp.1 hs
  | HANDLE_MONITOR =>
    rw [hs] at hp
    exact monitor_step_phase hp.2 hi hp.1 hs
  | ALLOC_FOR_MONITOR =>
    rw [hs] at hp
    exact allocMonitor_step_phase hp.2 hp.1 hs
  | MONITOR_FLUSH_CACHE =>
    rw [hs] at hp
    exact flushCache_step_phase hp.1 hp.2 hi hs
  | WAIT_FOR_SERIALIZE_AND_RESTART | WAIT_FOR_MONITOR =>
    rw [hs] at hp
    exact waits_step_phase hp.2 hi hp.1 (by simp [Waits, hs])
  | WRITE_BADVADDR | WRITE_EPC | WRITE_CAUSE =>
    rw [hs] at hp
    exact writes_step_phase hp.1 hp.2 hi (by simp [Writes, hs])
  | FLUSH_FOR_HALT =>
    rw [hs] at hp
    exact flushForHalt_step_phase hp.1 hp.2 hi hs
  | HALT =>
    rw [hs] at hp
    exact halt_step_phase hp.2.1 hp.2.2.2.1 hp.2.2.2.2 hi hp.1 hs
  | HALT_WAIT_FOR_RESTART =>
    rw [hs] at hp
    exact hp.2.step_phase hi hp.1 hs
  | ARCH_WAIT | DELAY_SLOT =>
    have hnext : h.core.nextState (h.coreIn i) = h.core.state := by rw [Core.nextState, hs]
    rw [Phase, step_state, hnext, hs]
    trivial

theorem Inv.step (hi : h.Inv) : (h.step i).Inv where
  dq := Core.step_dqPointers hi.dq
  fq := hi.window.1
  bubble := rfl
  complete1 := (exec_complete _ _).1
  complete2 := (exec_complete _ _).2
  phase := hi.step_phase

theorem reset_inv (rob : RobPtr → RobEntry) (dq : BitVec 2 → Uop) (m : ExecInit) (d : L1iInit) :
    (Handoff.reset rob dq m d).Inv where
  dq := Core.reset_dqPointers ..
  fq := L1i.reset_fqOk d
  bubble := rfl
  complete1 := fun h => by cases h
  complete2 := fun h => by cases h
  phase := ⟨⟨rfl, rfl, nofun, rfl, rfl⟩, ⟨rfl, rfl⟩, rfl, rfl, L1i.reset_fqWindow d⟩

theorem run_inv (rob : RobPtr → RobEntry) (dq : BitVec 2 → Uop) (m : ExecInit) (d : L1iInit)
    (inputs : List FrontEndIn) : (run Handoff.step (Handoff.reset rob dq m d) inputs).Inv :=
  run_invariant (fun _ _ hi => Inv.step hi) (reset_inv rob dq m d) inputs

/-- What an active core has taken, what waits in its decode queue and what waits in the fetch
queue are what has been pushed. -/
theorem Inv.conserved (hi : h.Inv) (hs : h.core.state = .ACTIVE) :
    ∃ fs, h.fetched = fs ++ h.l1i.fqWindow ∧
      List.Forall₂ Decodes (h.taken ++ h.core.queue) fs := by
  have hp := hi.phase
  rw [Phase, hs] at hp
  rcases hp.2 with hh | hf
  · refine ⟨[], by rw [hh.fetched, hh.window]; rfl, ?_⟩
    rw [hh.taken, hh.queue]
    exact .nil
  · exact hf.link

/-- The first of what has been taken carries the pc at which the record begins. -/
theorem Taken.first {u : Uop} {us : List Uop} {fs : List InsnFetch} {p : Word}
    (ht : Taken (u :: us) fs) (hb : ∀ f gs, fs = f :: gs → f.pc = p) : u.pc = p := by
  obtain ⟨gs, ⟨ws, hp⟩, hd⟩ := ht
  cases hd with
  | cons hu _ =>
    obtain ⟨m, rfl⟩ := hu
    rw [decode_pc]
    exact hb _ _ hp.symm

/-- What a cycle allocates is next in what has been pushed. -/
theorem Inv.allocated_taken (hi : h.Inv) (ha : h.allocated i ≠ []) :
    Taken (h.taken ++ h.allocated i) h.fetched ∧ ∀ f fs, h.fetched = f :: fs → f.pc = h.entryPc := by
  have hp := hi.phase
  have hal : h.core.allocates (h.coreIn i) = true := by
    rw [← Bool.not_eq_false]
    intro hal
    simp [allocated, Core.allocUops, hal] at ha
  cases hs : h.core.state with
  | ACTIVE =>
    rw [Phase, hs] at hp
    rcases hp.2 with hh | hf
    · rw [allocates_nonempty hh.queue] at hal
      cases hal
    · obtain ⟨fs, hfe, hd⟩ := hf.link
      obtain ⟨rest, hq⟩ := Core.queue_eq_allocUops (i := h.coreIn i) hi.dq
      rw [hq, ← List.append_assoc] at hd
      rw [hfe]
      exact ⟨Taken.of_append hd, hfe ▸ hf.first⟩
  | ALLOC_FOR_SERIALIZE | ALLOC_FOR_MONITOR =>
    rw [Phase, hs] at hp
    have htwo : h.core.allocatesTwo (h.coreIn i) = false := by simp [Core.allocatesTwo, hs]
    have huop : h.allocated i = [h.core.tUop] := by simp [allocated, Core.allocUops, hal, htwo]
    rw [huop]
    exact ⟨hp.2.next, hp.2.first⟩
  | _ => simp [Core.allocates, hs] at hal

/-- In every run, what the core has allocated since it became active are the first of the
instructions that have been pushed since the restart, the first of them carries the restart pc,
and what is pushed and not yet allocated waits in the two queues. -/
theorem allocated_exact (rob : RobPtr → RobEntry) (dq : BitVec 2 → Uop) (m : ExecInit)
    (d : L1iInit) (inputs : List FrontEndIn) :
    let h := run Handoff.step (Handoff.reset rob dq m d) inputs
    (∀ i, h.allocated i ≠ [] → Taken (h.taken ++ h.allocated i) h.fetched ∧
      ∃ u us, h.taken ++ h.allocated i = u :: us ∧ u.pc = h.entryPc) ∧
    (h.core.state = .ACTIVE → ∃ fs, h.fetched = fs ++ h.l1i.fqWindow ∧
      List.Forall₂ Decodes (h.taken ++ h.core.queue) fs) := by
  intro h
  have hi : h.Inv := run_inv rob dq m d inputs
  refine ⟨fun i ha => ?_, hi.conserved⟩
  obtain ⟨ht, hb⟩ := hi.allocated_taken ha
  refine ⟨ht, ?_⟩
  cases hus : h.taken ++ h.allocated i with
  | nil => exact absurd (List.append_eq_nil_iff.mp hus).2 ha
  | cons u us =>
    rw [hus] at ht
    exact ⟨u, us, rfl, ht.first hb⟩

end Handoff
end MipsCore
