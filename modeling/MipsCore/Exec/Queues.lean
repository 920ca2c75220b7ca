import MipsCore.Exec.Step
import MipsCore.FairSched

/-! # Uops in flight in the execution unit

The uop queues as lists, and what follows for a property that every pushed uop
has: it holds of the waiting uops, of the valid scheduler entries and of the uop
that is issued.  Stale uops, which the scheduler may still latch, are not covered.
-/
namespace MipsCore
namespace Exec
open Ring (writeIf)
variable {e : Exec} {i : ExecIn} {cls : Uop → Bool}

/-- The pointers of a uop queue are consistent. -/
structure QueuePtrs (h t nt : BitVec 4) : Prop where
  nextTail : nt = t + 1
  count_le : Ring.count h t ≤ 2 ^ 3

/-- The pointers of the three uop queues are consistent. -/
structure QueuesOk (e : Exec) : Prop where
  uq : QueuePtrs e.uqHeadPtr e.uqTailPtr e.uqNextTailPtr
  memUq : QueuePtrs e.memUqHeadPtr e.memUqTailPtr e.memUqNextTailPtr
  fpUq : QueuePtrs e.fpUqHeadPtr e.fpUqTailPtr e.fpUqNextTailPtr

/-- Uops are pushed only when no queue is full, and two only when none is full behind the first. -/
structure Offered (e : Exec) (i : ExecIn) : Prop where
  push : i.uqPush = true → e.uqFull = false
  pushTwo : i.uqPushTwo = true → i.uqPush = true ∧ e.uqNextFull = false

/-- The uops of a class that a cycle pushes. -/
def pushed (i : ExecIn) (cls : Uop → Bool) : List Uop :=
  if pushTwo i cls then [i.uqUop, i.uqUopTwo] else if pushOne i cls then [pushUop i cls] else []

def uqWindow (e : Exec) : List Uop :=
  Ring.contents e.uq e.uqHeadPtr (Ring.count e.uqHeadPtr e.uqTailPtr)
def memUqWindow (e : Exec) : List Uop :=
  Ring.contents e.memUq e.memUqHeadPtr (Ring.count e.memUqHeadPtr e.memUqTailPtr)

/-! ## Queues -/

theorem ptrFull_false {h t : BitVec 4} (hf : ptrFull h t = false) :
    ¬(Ring.slot h = Ring.slot t ∧ h ≠ t) := by
  rintro ⟨h1, h2⟩
  simp [ptrFull, h1, h2] at hf

theorem offered_full (ho : Offered e i) (h : i.uqPush = true ∨ i.uqPushTwo = true) :
    ptrFull e.uqHeadPtr e.uqTailPtr = false ∧ ptrFull e.memUqHeadPtr e.memUqTailPtr = false ∧
      ptrFull e.fpUqHeadPtr e.fpUqTailPtr = false := by
  have hf := h.elim ho.push fun h2 => ho.push (ho.pushTwo h2).1
  simpa only [uqFull, Bool.or_eq_false_iff, and_assoc] using hf

theorem offered_nextFull (ho : Offered e i) (h : i.uqPushTwo = true) :
    ptrFull e.uqHeadPtr e.uqNextTailPtr = false ∧
      ptrFull e.memUqHeadPtr e.memUqNextTailPtr = false ∧
      ptrFull e.fpUqHeadPtr e.fpUqNextTailPtr = false := by
  have hf := (ho.pushTwo h).2
  simpa only [uqNextFull, Bool.or_eq_false_iff, and_assoc] using hf

theorem pushOne_push (h : pushOne i cls = true) : i.uqPush = true ∨ i.uqPushTwo = true := by
  simp only [pushOne, Bool.and_eq_true, Bool.or_eq_true] at h
  exact h.1.imp And.left And.left

theorem pushTwo_pushTwo (h : pushTwo i cls = true) : i.uqPushTwo = true := by
  simp only [pushTwo, Bool.and_eq_true] at h
  exact h.1.1.2

/-- Room for what is pushed, and what is pushed is appended. -/
theorem queue_push {h t nt : BitVec 4} {q : BitVec 3 → Uop} (hq : QueuePtrs h t nt)
    (h1 : i.uqPush = true ∨ i.uqPushTwo = true → ptrFull h t = false)
    (h2 : i.uqPushTwo = true → ptrFull h nt = false) :
    Ring.count h t + (pushed i cls).length ≤ 2 ^ 3 ∧
      Ring.contents (nUopQueue i cls t nt q) h (Ring.count h t + (pushed i cls).length) =
        Ring.contents q h (Ring.count h t) ++ pushed i cls := by
  have hle := hq.count_le
  unfold pushed nUopQueue writeIf
  cases htwo : pushTwo i cls with
  | true =>
    have hp2 := pushTwo_pushTwo htwo
    have hroom := Ring.count_lt_of_not_full hle (ptrFull_false (h1 (Or.inr hp2)))
    have hroom2 : Ring.count h t + 2 ≤ 2 ^ 3 :=
      Ring.count_lt_of_not_next_full hroom (hq.nextTail ▸ ptrFull_false (h2 hp2))
    refine ⟨hroom2, ?_⟩
    rw [hq.nextTail]
    exact Ring.contents_push_two hroom2 _ _
  | false =>
    cases hone : pushOne i cls with
    | true =>
      have hroom := Ring.count_lt_of_not_full hle (ptrFull_false (h1 (pushOne_push hone)))
      exact ⟨hroom, Ring.contents_push hroom _⟩
    | false => exact ⟨hle, by simp⟩

theorem pushStep_eq : pushStep i cls = BitVec.ofNat 4 (pushed i cls).length := by
  unfold pushStep pushed
  split_ifs <;> rfl

theorem nPtr_flush (h : i.dsDone = true) (r d p : BitVec 4) : nPtr i r d p = r := by simp [nPtr, h]
theorem nPtr_step (h : i.dsDone = false) (r d p : BitVec 4) : nPtr i r d p = p + d := by
  simp [nPtr, h]

/-- A cycle keeps a queue's pointers consistent.  A flush empties the queue, and any other cycle
appends what is pushed and drops what is popped. -/
theorem queue_cycle {h t nt : BitVec 4} {q : BitVec 3 → Uop} {pop : Bool} (hq : QueuePtrs h t nt)
    (h1 : i.uqPush = true ∨ i.uqPushTwo = true → ptrFull h t = false)
    (h2 : i.uqPushTwo = true → ptrFull h nt = false) (hpop : pop = true → h ≠ t) :
    QueuePtrs (nPtr i 0 (Ring.bump pop) h) (nPtr i 0 (pushStep i cls) t) (nPtr i 1 (pushStep i cls) nt) ∧
      Ring.contents (nUopQueue i cls t nt q) (nPtr i 0 (Ring.bump pop) h)
          (Ring.count (nPtr i 0 (Ring.bump pop) h) (nPtr i 0 (pushStep i cls) t)) =
        if i.dsDone then []
        else (Ring.contents q h (Ring.count h t) ++ pushed i cls).drop pop.toNat := by
  cases hd : i.dsDone with
  | true =>
    simp only [nPtr_flush hd]
    exact ⟨⟨rfl, by simp⟩, by simp [Ring.contents]⟩
  | false =>
    obtain ⟨hroom, hcont⟩ := @queue_push i cls h t nt q hq h1 h2
    have hle : pop.toNat ≤ Ring.count h t := by
      cases hp : pop with
      | false => exact Nat.zero_le _
      | true => exact Nat.pos_of_ne_zero (mt Ring.count_eq_zero.mp (hpop hp))
    have hpush : Ring.count h (t + BitVec.ofNat _ (pushed i cls).length) =
        Ring.count h t + (pushed i cls).length := Ring.count_push (by omega)
    simp only [nPtr_step hd, pushStep_eq, Ring.bump_eq]
    rw [Ring.count_pop (by omega), hpush]
    refine ⟨⟨?_, ?_⟩, ?_⟩
    · rw [hq.nextTail]; ac_rfl
    · rw [Ring.count_pop (by omega), hpush]; omega
    · rw [← Ring.contents_drop, hcont]
      rfl

/-- What waits in a queue after a cycle waited before or is pushed. -/
theorem queue_step {h t nt : BitVec 4} {q : BitVec 3 → Uop} {pop : Bool} (hq : QueuePtrs h t nt)
    (h1 : i.uqPush = true ∨ i.uqPushTwo = true → ptrFull h t = false)
    (h2 : i.uqPushTwo = true → ptrFull h nt = false) (hpop : pop = true → h ≠ t) :
    QueuePtrs (nPtr i 0 (Ring.bump pop) h) (nPtr i 0 (pushStep i cls) t) (nPtr i 1 (pushStep i cls) nt) ∧
      ∀ u ∈ Ring.contents (nUopQueue i cls t nt q) (nPtr i 0 (Ring.bump pop) h)
          (Ring.count (nPtr i 0 (Ring.bump pop) h) (nPtr i 0 (pushStep i cls) t)),
        u ∈ Ring.contents q h (Ring.count h t) ∨ u ∈ pushed i cls := by
  obtain ⟨hptrs, hcont⟩ := @queue_cycle i cls h t nt q pop hq h1 h2 hpop
  refine ⟨hptrs, fun u hu => ?_⟩
  rw [hcont] at hu
  split_ifs at hu
  · cases hu
  · exact List.mem_append.mp (List.mem_of_mem_drop hu)

theorem reset_queuesOk (m : ExecInit) : (Exec.reset m).QueuesOk :=
  ⟨⟨rfl, by simp [Exec.reset]⟩, ⟨rfl, by simp [Exec.reset]⟩, ⟨rfl, by simp [Exec.reset]⟩⟩

theorem tPopUq_nonempty (h : e.tPopUq i = true) : e.uqHeadPtr ≠ e.uqTailPtr := by
  simp only [tPopUq, tUqEmpty, Bool.not_eq_true', Bool.or_eq_false_iff, beq_eq_false_iff_ne] at h
  exact h.1.2

theorem tPopMemUq_nonempty (h : e.tPopMemUq i = true) : e.memUqHeadPtr ≠ e.memUqTailPtr := by
  simp only [tPopMemUq, tMemUqEmpty, Bool.and_eq_true, Bool.not_eq_true', Bool.or_eq_false_iff,
    beq_eq_false_iff_ne] at h
  exact h.1.1

theorem tPopFpUq_nonempty (h : e.tPopFpUq i = true) : e.fpUqHeadPtr ≠ e.fpUqTailPtr := by
  simp only [tPopFpUq, tFpUqEmpty, Bool.and_eq_true, Bool.not_eq_true', Bool.or_eq_false_iff,
    beq_eq_false_iff_ne] at h
  exact h.1.1

theorem step_queuesOk (hq : e.QueuesOk) (ho : Offered e i) : (e.step i).QueuesOk := by
  refine ⟨?_, ?_, ?_⟩
  · exact (queue_step (q := e.uq) hq.uq (fun h => (offered_full ho h).1)
      (fun h => (offered_nextFull ho h).1) tPopUq_nonempty).1
  · exact (queue_step (q := e.memUq) hq.memUq (fun h => (offered_full ho h).2.1)
      (fun h => (offered_nextFull ho h).2.1) tPopMemUq_nonempty).1
  · exact (queue_step (q := e.fpUq) hq.fpUq (fun h => (offered_full ho h).2.2)
      (fun h => (offered_nextFull ho h).2.2) tPopFpUq_nonempty).1

theorem mem_uqWindow_step (hq : e.QueuesOk) (ho : Offered e i) {u : Uop}
    (h : u ∈ (e.step i).uqWindow) : u ∈ e.uqWindow ∨ u ∈ pushed i Uop.isInt :=
  (queue_step hq.uq (fun h => (offered_full ho h).1) (fun h => (offered_nextFull ho h).1)
    tPopUq_nonempty).2 u h

theorem mem_memUqWindow_step (hq : e.QueuesOk) (ho : Offered e i) {u : Uop}
    (h : u ∈ (e.step i).memUqWindow) : u ∈ e.memUqWindow ∨ u ∈ pushed i Uop.isMem :=
  (queue_step hq.memUq (fun h => (offered_full ho h).2.1) (fun h => (offered_nextFull ho h).2.1)
    tPopMemUq_nonempty).2 u h

theorem uqHead_mem (h : e.tPopUq i = true) : e.uqHead ∈ e.uqWindow := by
  have hc : 0 < Ring.count e.uqHeadPtr e.uqTailPtr :=
    Nat.pos_of_ne_zero (mt Ring.count_eq_zero.mp (tPopUq_nonempty h))
  rw [uqWindow, Ring.contents_pop _ _ hc]
  exact List.mem_cons_self

theorem memUqHead_mem (h : e.tMemUqEmpty = false) : e.memUqHead ∈ e.memUqWindow := by
  have hc : 0 < Ring.count e.memUqHeadPtr e.memUqTailPtr := by
    rw [tMemUqEmpty, beq_eq_false_iff_ne] at h
    exact Nat.pos_of_ne_zero (mt Ring.count_eq_zero.mp h)
  rw [memUqWindow, Ring.contents_pop _ _ hc]
  exact List.mem_cons_self

/-! ## Memory requests -/

/-- The requests that wait for the data cache. -/
def memQWindow (e : Exec) : List MemReq :=
  Ring.contents e.memQ e.mqHeadPtr (Ring.count e.mqHeadPtr e.mqTailPtr)

/-- The request queue fits. -/
def MqFits (e : Exec) : Prop := Ring.count e.mqHeadPtr e.mqTailPtr ≤ 2 ^ 3

theorem reset_memQ (m : ExecInit) : (Exec.reset m).MqFits ∧ (Exec.reset m).memQWindow = [] := by
  have hc : Ring.count (Exec.reset m).mqHeadPtr (Exec.reset m).mqTailPtr = 0 := by simp [Exec.reset]
  refine ⟨by simp [MqFits, hc], ?_⟩
  rw [memQWindow, hc]
  rfl

/-- Nothing issues into a full request queue. -/
theorem headIssue_notFull (h : e.headIssue.srcsRdy = true) : e.memQFull = false := by
  have hmem : ∀ (b : Bool) (r : MemReq), (e.memIssue b r).srcsRdy = true → e.memQFull = false := by
    intro b r hr
    by_contra hf
    rw [Bool.not_eq_false] at hf
    simp [memIssue, hf] at hr
  unfold headIssue at h
  split at h <;> first
    | exact hmem _ _ h
    | (split_ifs at h with he
       simp only [memQEmpty, beq_iff_eq] at he
       simp [memQFull, ptrFull, he])
    | cases h

theorem tPushMq_room (hf : e.MqFits) :
    Ring.count e.mqHeadPtr e.mqTailPtr + e.tPushMq.toNat ≤ 2 ^ 3 := by
  cases h : e.tPushMq with
  | false => exact hf
  | true =>
    simp only [tPushMq, Bool.and_eq_true] at h
    exact Ring.count_lt_of_not_full hf (ptrFull_false (headIssue_notFull h.2))

theorem step_memQ (hf : e.MqFits) (hack : i.memReqAck = true → e.memReqValid = true) :
    (e.step i).MqFits ∧ ∀ r ∈ (e.step i).memQWindow,
      r ∈ e.memQWindow ∨ e.tMemUqEmpty = false ∧ r = e.headIssue.tail := by
  have hne : i.memReqAck = true → e.mqHeadPtr ≠ e.mqTailPtr := fun h => by
    simpa [memReqValid, memQEmpty] using hack h
  obtain ⟨hc, hw⟩ := @Ring.contents_step _ _ e.memQ _ _ _ _ hne (tPushMq_room hf) e.headIssue.tail
  refine ⟨?_, fun r hr => ?_⟩
  · have := tPushMq_room hf
    change Ring.count (e.mqHeadPtr + _) (e.mqTailPtr + _) ≤ _
    omega
  · have hr := hw ▸ (show r ∈ Ring.contents _ _ _ from hr)
    rw [List.mem_append] at hr
    rcases hr with hr | hr
    · exact Or.inl (List.mem_of_mem_drop hr)
    · split_ifs at hr with hp
      · simp only [tPushMq, Bool.and_eq_true, Bool.not_eq_true'] at hp
        exact Or.inr ⟨hp.1, List.mem_singleton.mp hr⟩
      · cases hr

theorem memReq_mem (h : e.memReqValid = true) : e.memReq ∈ e.memQWindow := by
  have hc : 0 < Ring.count e.mqHeadPtr e.mqTailPtr := by
    simp only [memReqValid, memQEmpty, Bool.not_eq_true', beq_eq_false_iff_ne] at h
    exact Nat.pos_of_ne_zero (mt Ring.count_eq_zero.mp h)
  rw [memQWindow, Ring.contents_pop _ _ hc]
  exact List.mem_cons_self

/-! ## Scheduler -/

theorem getLsbD_entryMask (f : BitVec 2 → Bool) (k : BitVec 2) :
    (entryMask f).getLsbD k.toNat = f k := by
  have : ∀ b0 b1 b2 b3 : Bool, ∀ k : BitVec 2,
      (BitVec.ofBool b3 ++ BitVec.ofBool b2 ++ BitVec.ofBool b1 ++ BitVec.ofBool b0).getLsbD k.toNat =
        if k = 0 then b0 else if k = 1 then b1 else if k = 2 then b2 else b3 := by decide
  rw [entryMask, this]
  have hk : ∀ k : BitVec 2, k = 0 ∨ k = 1 ∨ k = 2 ∨ k = 3 := by decide
  rcases hk k with rfl | rfl | rfl | rfl <;> rfl

/-- The fair scheduler names an entry that is ready when there is one. -/
theorem fairSched_ready (cnt : BitVec 2) {x : BitVec 4} (hx : x ≠ 0) :
    x.getLsbD ((fairSched 0 cnt x).setWidth 2 : BitVec 2).toNat = true := by
  obtain ⟨y, hy, hlt, hbit, -⟩ := fairSched_spec (c := cnt) hx
  rw [BitVec.toNat_setWidth, hy, Nat.mod_eq_of_lt hlt]
  exact hbit

/-- What is selected is ready. -/
theorem selects_entryRdy (h : e.selects i = true) : e.entryRdy i (e.selectPtr i) = true := by
  have hx : e.tAluEntryRdy i ≠ 0 := by simpa [selects] using h
  rw [← getLsbD_entryMask (e.entryRdy i)]
  exact fairSched_ready _ hx

theorem selects_valid (h : e.selects i = true) :
    e.aluSchedValid.getLsbD (e.selectPtr i).toNat = true := by
  have hr := selects_entryRdy h
  simp only [entryRdy, Bool.and_eq_true] at hr
  exact hr.1.1

/-- What is in flight to the integer unit has the property. -/
structure IntInFlight (P : Uop → Prop) (e : Exec) : Prop where
  uq : ∀ u ∈ e.uqWindow, P u
  sched : ∀ k : BitVec 2, e.aluSchedValid.getLsbD k.toNat = true → P (e.aluSchedUops k)
  issued : e.startInt = true → P e.intUop

theorem reset_intInFlight (P : Uop → Prop) (m : ExecInit) : IntInFlight P (Exec.reset m) where
  uq := by simp [uqWindow, Exec.reset, Ring.contents]
  sched := by simp [Exec.reset]
  issued := by simp [Exec.reset]

/-- A scheduler entry is valid after the cycle unless it is selected, when it was valid or takes
the head of the queue. -/
theorem step_aluSchedValid {k : BitVec 2} :
    (e.step i).aluSchedValid.getLsbD k.toNat = true ↔
      i.dsDone = false ∧ ¬(e.selects i = true ∧ k = e.selectPtr i) ∧
        (e.tPopUq i = true ∧ k = e.allocPtr ∨ e.aluSchedValid.getLsbD k.toNat = true) := by
  have hv : (e.step i).aluSchedValid = e.nAluSchedValid i := rfl
  rw [hv, nAluSchedValid]
  cases i.dsDone with
  | true => simp
  | false =>
    rw [if_neg Bool.false_ne_true, BitMask.getLsbD_setBitIf le_rfl, BitMask.getLsbD_setBitIf le_rfl]
    split_ifs with hs ha
    · simp [hs]
    · exact iff_of_true rfl ⟨rfl, hs, Or.inl ha⟩
    · exact ⟨fun h => ⟨rfl, hs, Or.inr h⟩, fun h => h.2.2.resolve_left ha⟩

/-- A scheduler entry that is valid after the cycle was valid with its uop, or takes the head of
the queue. -/
theorem sched_step {k : BitVec 2} (h : (e.step i).aluSchedValid.getLsbD k.toNat = true) :
    e.tPopUq i = true ∧ (e.step i).aluSchedUops k = e.uqHead ∨
      e.aluSchedValid.getLsbD k.toNat = true ∧ (e.step i).aluSchedUops k = e.aluSchedUops k := by
  have hu : (e.step i).aluSchedUops = writeIf (e.tPopUq i) e.allocPtr e.uqHead e.aluSchedUops := rfl
  have hv := (step_aluSchedValid.mp h).2.2
  rw [hu, writeIf]
  cases hp : e.tPopUq i with
  | false => exact Or.inr ⟨hv.resolve_left (by simp [hp]), rfl⟩
  | true =>
    by_cases hka : k = e.allocPtr
    · exact Or.inl ⟨rfl, by simp [hka]⟩
    · exact Or.inr ⟨hv.resolve_left fun h => hka h.2, by simp [Function.update_of_ne hka]⟩

theorem step_intInFlight {P : Uop → Prop} (h : IntInFlight P e) (hq : e.QueuesOk)
    (ho : Offered e i) (hP : ∀ u ∈ pushed i Uop.isInt, P u) : IntInFlight P (e.step i) where
  uq := fun u hu => (mem_uqWindow_step hq ho hu).elim (h.uq u) (hP u)
  sched := fun k hk => by
    rcases sched_step hk with ⟨hp, he⟩ | ⟨hv, he⟩
    · exact he ▸ h.uq _ (uqHead_mem hp)
    · exact he ▸ h.sched k hv
  issued := fun hs => by
    have hsel : e.selects i = true := (Bool.and_eq_true_iff.mp hs).1
    exact h.sched _ (selects_valid hsel)

theorem mem_pushed (ho : Offered e i) {u : Uop} (h : u ∈ pushed i cls) :
    cls u = true ∧ (i.uqPush = true ∧ u = i.uqUop ∨ i.uqPushTwo = true ∧ u = i.uqUopTwo) := by
  unfold pushed at h
  split_ifs at h with h2 h1
  · simp only [pushTwo, Bool.and_eq_true] at h2
    simp only [List.mem_cons, List.not_mem_nil, or_false] at h
    rcases h with rfl | rfl
    · exact ⟨h2.1.2, Or.inl ⟨h2.1.1.1, rfl⟩⟩
    · exact ⟨h2.2, Or.inr ⟨h2.1.1.2, rfl⟩⟩
  · have hpush := (pushOne_push h1).elim id fun h => (ho.pushTwo h).1
    simp only [List.mem_cons, List.not_mem_nil, or_false] at h
    simp only [pushOne, Bool.and_eq_true, Bool.or_eq_true] at h1
    rw [h, pushUop]
    cases hc : cls i.uqUop with
    | true => exact ⟨hc, Or.inl ⟨hpush, rfl⟩⟩
    | false =>
      simp only [hc, Bool.false_eq_true, and_false, false_or] at h1
      exact ⟨h1.1.2, Or.inr ⟨h1.1.1, rfl⟩⟩
  · cases h

end Exec
end MipsCore
