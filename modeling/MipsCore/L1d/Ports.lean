import MipsCore.L1d.Queue

/-! # The two ports of the data cache

A request reaches the first port from the queue or after a reload, and the second
port as it is accepted; either is looked up in the next cycle, with the set that its
address names.  No write is ever in flight to the set that the first port looks up.
-/
namespace MipsCore
namespace L1d
variable {s : L1d} {i : L1dIn}

theorem fires_nState (h : s.fires = true) : s.nState i = .ACTIVE := by
  have hc := fires_considers h
  have he := considers_nonempty hc
  have hm := considers_noMiss hc
  have hs := considers_active hc
  simp [nState, hs, flushes, flushesCl, mayFlush, evicts, refills, he, hm]

theorem coreMemReqAck_noMiss (h : s.coreMemReqAck i = true) : s.tGotMiss = false := by
  simp only [coreMemReqAck, Bool.and_eq_true, Bool.not_eq_true'] at h
  exact h.1.1.1.1.1.2

theorem coreMemReqAck_nState (h : s.coreMemReqAck i = true) : s.nState i = .ACTIVE := by
  have hm := coreMemReqAck_noMiss h
  have hs := coreMemReqAck_active h
  simp [nState, hs, flushes, flushesCl, evicts, refills, h, hm]

theorem fires_not_blocked (h : s.fires = true) : s.tMhBlock = false := by
  have hc := fires_considers h
  simp only [considers, Bool.and_eq_true, Bool.not_eq_true'] at hc
  exact hc.2

/-! ## First port -/

/-- What the first port holds when it looks a request up. -/
structure Port1 (s : L1d) : Prop where
  active : s.gotReq = true → s.state = .ACTIVE
  idx : s.gotReq = true → s.cacheIdx = setOf s.req.addr
  tag : s.gotReq = true → s.cacheTag = tagOf s.req.addr
  again : s.gotReq = true → s.isRetry = true ∨ s.didReload = true
  store : s.gotReq = true → s.lastWr = s.req.isStore
  gotReq : s.lastWr = true → s.gotReq = true
  noWrite : s.gotReq = true → s.writeInFlight = false
  noForward : s.mustForward = false
  noWait : s.state ≠ .WAIT_INJECT_RELOAD
  noReload : s.state ≠ .RELOAD_UTLB

theorem reset_port1 (m : L1dInit) : (L1d.reset m).Port1 := by
  constructor <;> simp [L1d.reset]

/-- The first port takes its request from the queue or from a reload. -/
theorem tGotReq_cases (h : s.tGotReq = true) :
    s.fires = true ∧ s.nReq = s.tMemHead ∧ s.tCacheTag = tagOf s.tMemHead.addr ∨
      s.fires = false ∧ s.state = .HANDLE_RELOAD ∧ s.nReq = s.req ∧
        s.tCacheTag = tagOf s.req.addr := by
  cases hf : s.fires with
  | true => exact Or.inl ⟨rfl, by simp [nReq, hf], by simp [tCacheTag, hf]⟩
  | false =>
    have hs : s.state = .HANDLE_RELOAD := by simpa [tGotReq, hf] using h
    exact Or.inr ⟨rfl, hs, by simp [nReq, hf], by simp [tCacheTag, hf, hs]⟩

theorem fires_tCacheIdx (h : s.fires = true) : s.tCacheIdx i = setOf s.tMemHead.addr := by
  have he := considers_nonempty (fires_considers h)
  have hs := considers_active (fires_considers h)
  simp [tCacheIdx, hs, flushes, flushesCl, mayFlush, he, h]

theorem tGotReq_idx (h : s.tGotReq = true) : s.tCacheIdx i = setOf s.nReq.addr := by
  rcases tGotReq_cases h with ⟨hf, hr, -⟩ | ⟨-, hs, hr, -⟩
  · rw [hr, fires_tCacheIdx hf]
  · simp [tCacheIdx, hs, hr]

theorem writeInFlight_false (hp : s.Port1) (h : s.tGotReq = true) :
    (s.cacheIdx == s.tCacheIdx i && s.lastWr) = false := by
  rcases tGotReq_cases h with ⟨hf, -⟩ | ⟨-, hs, -⟩
  · have hb := fires_not_blocked hf
    rw [fires_tCacheIdx hf]
    cases hl : s.lastWr with
    | false => simp
    | true => simpa [tMhBlock, hl, hp.gotReq hl] using hb
  · cases hl : s.lastWr with
    | false => simp
    | true =>
      have ha := hp.active (hp.gotReq hl)
      rw [hs] at ha
      cases ha

theorem nState_ne_wait (hp : s.Port1) : s.nState i ≠ .WAIT_INJECT_RELOAD := by
  cases hs : s.state with
  | ACTIVE =>
    simp only [nState, hs]
    by_cases hm : s.tGotMiss = true
    · have hg : s.gotReq = true := by
        simp only [tGotMiss, serves, Bool.and_eq_true] at hm
        exact hm.1.2
      rw [hp.noWrite hg]
      split_ifs <;> simp_all
    · simp only [evicts, refills, hm, Bool.false_and, Bool.or_self]
      split_ifs <;> simp_all
  | WAIT_INJECT_RELOAD => exact absurd hs hp.noWait
  | RELOAD_UTLB => exact absurd hs hp.noReload
  | _ => (simp only [nState, hs]; try split_ifs) <;> decide

theorem nState_ne_reload (hp : s.Port1) : s.nState i ≠ .RELOAD_UTLB := by
  cases hs : s.state with
  | RELOAD_UTLB => exact absurd hs hp.noReload
  | _ => (simp only [nState, hs]; try split_ifs) <;> decide

theorem step_port1 (hp : s.Port1) : (s.step i).Port1 where
  active := fun h => by
    rcases tGotReq_cases h with ⟨hf, -⟩ | ⟨-, hs, -⟩
    · exact fires_nState hf
    · change s.nState i = _
      simp [nState, hs]
  idx := fun h => tGotReq_idx h
  tag := fun h => by
    change s.tCacheTag = tagOf s.nReq.addr
    rcases tGotReq_cases h with ⟨-, hr, ht⟩ | ⟨-, -, hr, ht⟩ <;> rw [hr, ht]
  again := fun h => by
    rcases tGotReq_cases h with ⟨hf, -⟩ | ⟨-, hs, -⟩
    · exact Or.inl hf
    · exact Or.inr (by simp [step, hs])
  store := fun h => by
    change s.nLastWr = s.nReq.isStore
    rcases tGotReq_cases h with ⟨hf, hr, -⟩ | ⟨hf, hs, hr, -⟩
    · have hs := considers_active (fires_considers hf)
      rw [hr, nLastWr, hs]
      have hf' := hf
      simp only [fires, firesLoad] at hf'
      cases hst : s.tMemHead.isStore <;> simp_all [firesStore]
    · have hfs : s.firesStore = false := by
        simp only [fires, Bool.or_eq_false_iff] at hf
        exact hf.1
      simp [hr, nLastWr, hs, hfs]
  gotReq := fun h => by
    have h : s.nLastWr = true := h
    change s.tGotReq = true
    simp only [nLastWr, Bool.or_eq_true, Bool.and_eq_true] at h
    rcases h with h | ⟨h, -⟩
    · simp [tGotReq, fires, h]
    · simp [tGotReq, h]
  noWrite := fun h => writeInFlight_false hp h
  noForward := by
    change (s.tMhBlock && s.tPopMq i) = false
    cases hb : s.tMhBlock with
    | false => rfl
    | true =>
      have hc : s.considers = false := by simp [considers, hb]
      simp [tPopMq, fires, firesStore, firesLoad, tForceClearBusy, hc]
  noWait := nState_ne_wait hp
  noReload := nState_ne_reload hp

/-! ## Second port -/

/-- What the second port holds when it looks a request up. -/
structure Port2 (s : L1d) : Prop where
  active : s.gotReq2 = true → s.state = .ACTIVE
  idx : s.gotReq2 = true → s.cacheIdx2 = setOf s.req2.addr
  tag : s.gotReq2 = true → s.cacheTag2 = tagOf s.req2.addr
  store : s.gotReq2 = true → s.lastWr2 = s.req2.isStore

theorem reset_port2 (m : L1dInit) : (L1d.reset m).Port2 := by
  constructor <;> simp [L1d.reset]

theorem step_port2 : (s.step i).Port2 where
  active := fun h => coreMemReqAck_nState h
  idx := fun h => by
    have h : s.coreMemReqAck i = true := h
    change s.tCacheIdx2 i = setOf (s.nReq2 i).addr
    rw [tCacheIdx2, nReq2, if_pos h, if_pos h]
  tag := fun h => by
    have h : s.coreMemReqAck i = true := h
    change s.tCacheTag2 i = tagOf (s.nReq2 i).addr
    rw [tCacheTag2, nReq2, if_pos h, if_pos h]
  store := fun h => by
    have h : s.coreMemReqAck i = true := h
    change s.nLastWr2 i = (s.nReq2 i).isStore
    simp [nLastWr2, nReq2, h]

theorem serves2_eq (hp : s.Port2) : s.serves2 = s.gotReq2 := by
  cases hg : s.gotReq2 with
  | false => simp [serves2, hg]
  | true => simp [serves2, hg, hp.active hg]

theorem serves_eq (hp : s.Port1) : s.serves = s.gotReq := by
  cases hg : s.gotReq with
  | false => simp [serves, hg]
  | true => simp [serves, hg, hp.active hg]

theorem tData_eq (hp : s.Port1) : s.tData = s.arrayOut := by simp [tData, hp.noForward]

/-- The store that the first port finds in its line writes the line. -/
theorem tWrArray_eq (hp : s.Port1) :
    s.tWrArray = (writesArray s.req.op && s.serves && s.hits) := by
  cases hg : s.gotReq with
  | false => simp [tWrArray, tHitCache, serves, hg]
  | true =>
    have hr := hp.again hg
    simp only [tWrArray, tHitCache, serves, hg, hp.active hg]
    cases s.hits <;> simp [hr]

end L1d
end MipsCore
