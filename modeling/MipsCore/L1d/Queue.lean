import MipsCore.L1d.Step

/-! # The miss queue

A request is accepted only when two slots are free, one for the request that the
second port may queue in the same cycle, so the queue never overflows.
-/
namespace MipsCore
namespace L1d
variable {s : L1d} {i : L1dIn}

/-- The queued requests, oldest first. -/
def mqWindow (s : L1d) : List MemReq :=
  Ring.contents s.memQ s.mqHeadPtr (Ring.count s.mqHeadPtr s.mqTailPtr)

def mqCount (s : L1d) : ℕ := Ring.count s.mqHeadPtr s.mqTailPtr

@[simp] theorem length_mqWindow : s.mqWindow.length = s.mqCount := Ring.length_contents ..

/-- The queue fits, with a slot for the request at the second port. -/
structure MqRoom (s : L1d) : Prop where
  count_le : s.mqCount ≤ 8
  room : s.gotReq2 = true → s.mqCount ≤ 7

theorem reset_mqRoom (m : L1dInit) : (L1d.reset m).MqRoom :=
  ⟨by simp [mqCount, L1d.reset], by simp [L1d.reset]⟩

theorem reset_mqWindow (m : L1dInit) : (L1d.reset m).mqWindow = [] := by
  rw [← List.length_eq_zero_iff, length_mqWindow]
  simp [mqCount, L1d.reset]

theorem considers_nonempty (h : s.considers = true) : s.memQEmpty = false := by
  simp only [considers, Bool.and_eq_true, Bool.not_eq_true'] at h
  exact h.1.1.1.2

theorem fires_considers (h : s.fires = true) : s.considers = true := by
  simp only [fires, firesStore, firesLoad, Bool.or_eq_true, Bool.and_eq_true] at h
  exact h.elim (fun h => h.1.1) And.left

theorem tForceClearBusy_considers (h : s.tForceClearBusy i = true) : s.considers = true := by
  simp only [tForceClearBusy, Bool.and_eq_true] at h
  exact h.1.1.1.1

/-- Only a nonempty queue is popped. -/
theorem tPopMq_nonempty (h : s.tPopMq i = true) : s.mqHeadPtr ≠ s.mqTailPtr := by
  have hc : s.considers = true := by
    rw [tPopMq, Bool.or_eq_true] at h
    exact h.elim fires_considers tForceClearBusy_considers
  simpa [memQEmpty] using considers_nonempty hc

theorem tPushMiss_gotReq2 (h : s.tPushMiss i = true) : s.gotReq2 = true := by
  simp only [tPushMiss, looksUp2, serves2, Bool.and_eq_true] at h
  exact h.1.1.1.1.2

theorem coreMemReqAck_room (hr : s.MqRoom) (h : s.coreMemReqAck i = true) : s.mqCount ≤ 6 := by
  simp only [coreMemReqAck, Bool.and_eq_true, Bool.not_eq_true', Bool.or_eq_false_iff] at h
  obtain ⟨ha, hf⟩ := h.1.1.1.1.2
  have h1 : Ring.count s.mqHeadPtr s.mqTailPtr + 1 ≤ 2 ^ 3 := by
    refine Ring.count_lt_of_not_full hr.count_le fun hc => ?_
    simp [memQFull, hc.1, hc.2] at hf
  have h2 : Ring.count s.mqHeadPtr s.mqTailPtr + 2 ≤ 2 ^ 3 := by
    refine Ring.count_lt_of_not_next_full h1 fun hc => ?_
    rw [memQAlmostFull, bne_iff_ne.mpr hc.2, beq_iff_eq.mpr hc.1] at ha
    cases ha
  exact Nat.le_of_add_le_add_right h2

theorem mqCount_push (hr : s.MqRoom) : s.mqCount + (s.tPushMiss i).toNat ≤ 8 := by
  cases h : s.tPushMiss i with
  | false => exact hr.count_le
  | true => exact Nat.succ_le_succ (hr.room (tPushMiss_gotReq2 h))

theorem step_mqCount (hr : s.MqRoom) :
    (s.step i).mqCount = s.mqCount + (s.tPushMiss i).toNat - (s.tPopMq i).toNat :=
  (@Ring.contents_step _ _ s.memQ _ _ _ _ tPopMq_nonempty (mqCount_push hr) s.req2).1

/-- A cycle takes the head from the queue and appends the request of the second port. -/
theorem step_mqWindow (hr : s.MqRoom) :
    (s.step i).mqWindow =
      s.mqWindow.drop (s.tPopMq i).toNat ++ if s.tPushMiss i then [s.req2] else [] :=
  (@Ring.contents_step _ _ s.memQ _ _ _ _ tPopMq_nonempty (mqCount_push hr) s.req2).2

theorem step_mqRoom (hr : s.MqRoom) : (s.step i).MqRoom := by
  have hc := step_mqCount (i := i) hr
  have hp := mqCount_push (i := i) hr
  refine ⟨by omega, fun hg => ?_⟩
  have h6 := coreMemReqAck_room hr (show s.coreMemReqAck i = true from hg)
  have : (s.tPushMiss i).toNat ≤ 1 := Bool.toNat_le _
  omega

theorem tMemHead_cons (h : s.memQEmpty = false) :
    ∃ rest, s.mqWindow = s.tMemHead :: rest := by
  have hc : 0 < Ring.count s.mqHeadPtr s.mqTailPtr := by
    rw [memQEmpty, beq_eq_false_iff_ne] at h
    exact Nat.pos_of_ne_zero (mt Ring.count_eq_zero.mp h)
  exact ⟨_, Ring.contents_pop _ _ hc⟩

/-! ## The two ports -/

/-- What is accepted was offered and is latched at the second port. -/
theorem coreMemReqAck_accepts (h : s.coreMemReqAck i = true) :
    i.coreMemReqValid = true ∧ s.nReq2 i = i.coreMemReq := by
  refine ⟨?_, if_pos h⟩
  simp only [coreMemReqAck, Bool.and_eq_true] at h
  exact h.1.1.1.1.1.1.2

theorem considers_active (h : s.considers = true) : s.state = .ACTIVE := by
  simp only [considers, Bool.and_eq_true, beq_iff_eq] at h
  exact h.1.1.1.1

theorem considers_noMiss (h : s.considers = true) : s.tGotMiss = false := by
  simp only [considers, Bool.and_eq_true, Bool.not_eq_true'] at h
  exact h.1.1.2

theorem not_active_idle (h : s.state ≠ .ACTIVE) : s.fires = false ∧ s.coreMemReqAck i = false := by
  refine ⟨?_, ?_⟩
  · by_contra hf
    exact h (considers_active (fires_considers (by simpa using hf)))
  · by_contra ha
    simp only [Bool.not_eq_false, coreMemReqAck, Bool.and_eq_true, beq_iff_eq] at ha
    exact h ha.1.1.1.1.1.1.1

theorem coreMemReqAck_active (h : s.coreMemReqAck i = true) : s.state = .ACTIVE := by
  by_contra hs
  rw [(not_active_idle hs).2] at h
  cases h

/-- A load is not replayed while a request is accepted, so the ports do not answer at once. -/
def PortsApart (s : L1d) : Prop := s.gotReq2 = true → s.gotReq = true → s.req.isStore = true

theorem step_portsApart : (s.step i).PortsApart := by
  intro h2 h1
  have h2 : s.coreMemReqAck i = true := h2
  have hs := coreMemReqAck_active h2
  have h1 : s.fires = true := by
    have : s.tGotReq = true := h1
    simpa [tGotReq, hs] using this
  have hst : s.firesStore = true := by
    have hl : s.firesLoad = false := by
      simp only [coreMemReqAck, Bool.and_eq_true, Bool.not_eq_true'] at h2
      exact h2.1.1.1.2
    simpa [fires, hl] using h1
  change s.nReq.isStore = true
  rw [nReq, if_pos h1]
  simp only [firesStore, Bool.and_eq_true] at hst
  exact hst.1.2

/-- The first port holds a request: it is looked up, or its line is being replaced. -/
def busy1 (s : L1d) : Bool :=
  s.state == .ACTIVE && s.gotReq || s.state == .INJECT_RELOAD || s.state == .WAIT_INJECT_RELOAD ||
    s.state == .HANDLE_RELOAD

/-- The first port holds its request until it takes the next one from the queue. -/
theorem step_busy1 (h : (s.step i).busy1 = true) :
    s.fires = true ∧ (s.step i).req = s.tMemHead ∨
      s.fires = false ∧ s.busy1 = true ∧ (s.step i).req = s.req := by
  cases hf : s.fires with
  | true => exact Or.inl ⟨rfl, if_pos hf⟩
  | false =>
    have hreq : (s.step i).req = s.req := by
      change s.nReq = _
      simp [nReq, hf]
    refine Or.inr ⟨rfl, ?_, hreq⟩
    have hst : (s.step i).state = s.nState i := rfl
    have hgot : (s.step i).gotReq = s.tGotReq := rfl
    rw [busy1, hst, hgot, tGotReq, hf] at h
    cases hs : s.state with
    | ACTIVE =>
      have hm : s.tGotMiss = true := by
        simp only [nState, hs] at h
        by_contra hm
        rw [Bool.not_eq_true] at hm
        simp only [evicts, refills, hm, Bool.false_and, Bool.or_self] at h
        split_ifs at h <;> simp_all
      simp only [tGotMiss, serves, Bool.and_eq_true] at hm
      simp [busy1, hs, hm.1.2]
    | INJECT_RELOAD => simp [busy1, hs]
    | WAIT_INJECT_RELOAD => simp [busy1, hs]
    | HANDLE_RELOAD => simp [busy1, hs]
    | _ =>
      simp only [nState, hs] at h
      split_ifs at h <;> simp at h

/-! ## Properties of requests -/

/-- A property of the requests that the cache holds. -/
structure Holds (P : MemReq → Prop) (s : L1d) : Prop where
  room : s.MqRoom
  apart : s.PortsApart
  queue : ∀ r ∈ s.mqWindow, P r
  first : s.busy1 = true → P s.req
  second : s.gotReq2 = true → P s.req2

theorem reset_holds (P : MemReq → Prop) (m : L1dInit) : Holds P (L1d.reset m) where
  room := reset_mqRoom m
  apart := by simp [PortsApart, L1d.reset]
  queue := by simp [reset_mqWindow]
  first := by simp [busy1, L1d.reset]
  second := by simp [L1d.reset]

theorem step_holds {P : MemReq → Prop} (h : Holds P s)
    (hreq : s.accepts i = true → P i.coreMemReq) : Holds P (s.step i) where
  room := step_mqRoom h.room
  apart := step_portsApart
  queue := fun r hr => by
    rw [step_mqWindow h.room, List.mem_append] at hr
    rcases hr with hr | hr
    · exact h.queue r (List.mem_of_mem_drop hr)
    · split_ifs at hr with hp
      · exact List.mem_singleton.mp hr ▸ h.second (tPushMiss_gotReq2 hp)
      · cases hr
  first := fun hb => by
    rcases step_busy1 hb with ⟨hf, he⟩ | ⟨-, hb, he⟩
    · obtain ⟨rest, hw⟩ := tMemHead_cons (considers_nonempty (fires_considers hf))
      exact he ▸ h.queue _ (hw ▸ List.mem_cons_self)
    · exact he ▸ h.first hb
  second := fun hg => by
    have ha : s.coreMemReqAck i = true := hg
    have hv : i.coreMemReqValid = true := by
      simp only [coreMemReqAck, Bool.and_eq_true] at ha
      exact ha.1.1.1.1.1.1.2
    change P (s.nReq2 i)
    rw [nReq2, if_pos ha]
    exact hreq (by rw [accepts, hv, ha]; rfl)

theorem rsp2_dstPtr : (s.rsp2 i).dstPtr = s.req2.dstPtr := by
  unfold rsp2
  split_ifs <;> rfl

theorem rsp2_dstValid (h : (s.rsp2 i).dstValid = true) : s.req2.dstValid = true := by
  unfold rsp2 at h
  split_ifs at h <;> simp_all [defaultRsp]

/-- A response that writes an integer register answers a request that does. -/
theorem coreMemRsp_dstValid {P : MemReq → Prop} (h : Holds P s)
    (hd : (s.coreMemRsp i).dstValid = true) :
    ∃ r, P r ∧ r.dstValid = true ∧ (s.coreMemRsp i).dstPtr = r.dstPtr := by
  unfold coreMemRsp at hd ⊢
  cases hl : s.loadHit with
  | true =>
    simp only [hl, if_true, tRspDstValid, Bool.and_eq_true] at hd ⊢
    simp only [loadHit, serves, Bool.and_eq_true, Bool.not_eq_true'] at hl
    obtain ⟨⟨⟨hs, hg⟩, -⟩, hst⟩ := hl
    have h2 : s.serves2 = false := by
      cases hg2 : s.gotReq2 with
      | false => simp [serves2, hg2]
      | true => simp [h.apart hg2 hg] at hst
    refine ⟨s.req, h.first (by simp [busy1, hs, hg]), hd.1.2, ?_⟩
    simp [h2, defaultRsp]
  | false =>
    simp only [hl, Bool.false_eq_true, if_false] at hd ⊢
    split_ifs at hd ⊢ with h2
    · simp only [serves2, Bool.and_eq_true] at h2
      exact ⟨s.req2, h.second h2.2, rsp2_dstValid hd, rsp2_dstPtr⟩
    · cases hd

/-! ## Graduation -/

/-- The retirement ports name the slot. -/
def strobes (i : L1dIn) (p : RobPtr) : Bool :=
  i.retiredRobPtrValid && i.retiredRobPtr == p || i.retiredRobPtrTwoValid && i.retiredRobPtrTwo == p

/-- The slot of a store leaves its state by the events of the cycle, the last one first. -/
theorem nGraduated_apply (p : RobPtr) :
    s.nGraduated i p =
      if s.tForceClearBusy i = true ∧ p = s.tMemHead.robPtr then 0
      else if s.tResetGraduated = true ∧ p = s.req.robPtr then 0
      else if s.tIncrBusy i = true ∧ p = s.req2.robPtr then 1
      else if s.graduated p = 1 ∧ strobes i p = true then 2 else s.graduated p := by
  have hg : ∀ (v : Bool) (q : RobPtr), (v && s.graduated q == 1) = true ∧ p = q ↔
      s.graduated p = 1 ∧ (v && q == p) = true := by
    intro v q
    simp only [Bool.and_eq_true, beq_iff_eq]
    constructor
    · rintro ⟨⟨hv, h1⟩, rfl⟩
      exact ⟨h1, hv, rfl⟩
    · rintro ⟨h1, hv, rfl⟩
      exact ⟨⟨hv, h1⟩, rfl⟩
  simp only [nGraduated, Ring.writeIf_apply, graduate, hg]
  refine if_congr Iff.rfl rfl (if_congr Iff.rfl rfl (if_congr Iff.rfl rfl ?_))
  rw [strobes]
  by_cases h1 : s.graduated p = 1
  · cases i.retiredRobPtrValid && i.retiredRobPtr == p <;>
      cases i.retiredRobPtrTwoValid && i.retiredRobPtrTwo == p <;> simp [h1]
  · simp only [h1, false_and, if_false]

end L1d
end MipsCore
