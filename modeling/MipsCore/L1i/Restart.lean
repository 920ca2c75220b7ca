import MipsCore.L1i.Fetch

/-! # Restarts of the instruction cache

What a restart and a flush leave behind, and the pc that the first record pushed
after a restart carries.
-/
namespace MipsCore
namespace L1i
variable {s : L1i} {i : L1iIn}

theorem reset_fqCount (m : L1iInit) : (reset m).fqCount = 0 := Ring.count_self (0 : BitVec 4)

theorem reset_fqOk (m : L1iInit) : (reset m).FqOk :=
  ⟨rfl, fun h => absurd rfl h, (reset_fqCount m).trans_le (Nat.zero_le 8)⟩

theorem reset_fqWindow (m : L1iInit) : (reset m).fqWindow = [] := by
  rw [fqWindow, reset_fqCount]
  rfl

/-! ## Ports -/

def insn (s : L1i) : InsnFetch := s.fq (Ring.slot s.fqHeadPtr)
def insnTwo (s : L1i) : InsnFetch := s.fq (Ring.slot s.fqNextHeadPtr)
def insnValid (s : L1i) : Bool := !s.fqEmpty
def insnValidTwo (s : L1i) : Bool := !(s.fqNextEmpty || s.fqEmpty)

theorem insnValid_false (h : s.fqWindow = []) : s.insnValid = false := by
  have hc : s.fqCount = 0 := by simpa [fqWindow] using congrArg List.length h
  rw [insnValid, fqEmpty, Ring.count_eq_zero.mp hc]
  simp

theorem fqWindow_cons (h : s.insnValid = true) : ∃ rest, s.fqWindow = s.insn :: rest := by
  have hc : 0 < s.fqCount := by
    refine Nat.pos_of_ne_zero fun hc => ?_
    rw [insnValid, fqEmpty, Ring.count_eq_zero.mp hc] at h
    simp at h
  rw [fqWindow, Ring.contents_pop _ _ hc]
  exact ⟨_, rfl⟩

theorem fqWindow_cons_cons (hq : s.FqOk) (h : s.insnValidTwo = true) :
    ∃ rest, s.fqWindow = s.insn :: s.insnTwo :: rest := by
  simp only [insnValidTwo, Bool.not_eq_true', Bool.or_eq_false_iff] at h
  have h0 : s.fqCount ≠ 0 := fun hc => by
    rw [fqEmpty, Ring.count_eq_zero.mp hc] at h
    simp at h
  have h1 : s.fqCount ≠ 1 := fun hc => by
    rw [fqNextEmpty, hq.nextHead, Ring.count_eq_one.mpr hc] at h
    simp at h
  rw [fqWindow, Ring.contents_pop _ _ (by omega), Ring.contents_pop _ _ (by omega), ← hq.nextHead]
  exact ⟨_, rfl⟩

/-! ## Restarts and flushes -/

theorem flushes_wants (h : s.flushes i = true) : s.wantsFlush i = true := by
  unfold flushes at h
  split at h
  · unfold action at h
    split_ifs at h with h1 h2 <;> first | exact h2 | simp at h
  · exact h
  · exact (Bool.and_eq_true_iff.mp h).2
  · cases h

theorem restarts_wants (h : s.restarts i = true) : s.wantsRestart i = true := by
  unfold restarts at h
  split at h
  · exact h
  · unfold action at h
    split_ifs at h with h1 h2 h3 <;> first | exact h3 | simp at h
  · exact (Bool.and_eq_true_iff.mp h).2
  · exact (Bool.and_eq_true_iff.mp h).2
  · cases h

theorem restarts_flushes (h : s.restarts i = true) : s.flushes i = false := by
  unfold restarts at h
  unfold flushes
  split at h <;> simp_all

theorem restarts_pushed (h : s.restarts i = true) : s.pushed i = [] := by
  refine pushed_of_not ?_
  unfold restarts at h
  unfold pushes
  split at h <;> simp_all

/-- The active state serves a request at once, unless a flush comes first. -/
theorem active_restarts (hs : s.state = .ACTIVE) (hb : s.resteerBubble = false)
    (hf : s.wantsFlush i = false) (hr : s.wantsRestart i = true) : s.restarts i = true := by
  simp [restarts, hs, action, hb, hf, hr]

theorem active_pushed (hr : s.req = false) : s.pushed i = [] := by
  refine pushed_of_not ?_
  simp only [pushes, Bool.and_eq_false_imp, beq_iff_eq]
  intro hs
  unfold action tMiss tHit
  split_ifs <;> simp_all

/-- What a restart leaves: the request is served, the queue is empty, and nothing is read yet. -/
structure Restarted (s : L1i) : Prop where
  state : s.state = .ACTIVE
  req : s.req = false
  window : s.fqWindow = []
  served : s.restartReq = false

theorem step_restarts (hq : s.FqOk) (hb : s.resteerBubble = false) (h : s.restarts i = true)
    (hack : i.insnAck = true → s.fqEmpty = false ∧ (i.insnAckTwo = true → s.fqNextEmpty = false)) :
    (s.step i).Restarted ∧ (s.step i).restartAck = true ∧ (s.step i).pc = i.restartPc := by
  have hf := restarts_flushes h
  refine ⟨⟨?_, ?_, ?_, ?_⟩, h, ?_⟩
  · change s.nState i = _
    rw [nState, hf, h]
    rfl
  · change s.nReq i = _
    unfold restarts at h
    unfold nReq turnsAround
    split at h <;> simp_all
  · rw [(step_fqWindow hq hb hack).2, tClearFq, h, Bool.or_true]
    rfl
  · change (s.wantsRestart i && !s.restarts i) = false
    rw [h, Bool.not_true, Bool.and_false]
  · change s.nPc i = _
    rw [nPc, if_pos h]

theorem step_not_restarts (h : s.restarts i = false) :
    (s.step i).restartAck = false ∧ (s.step i).restartReq = s.wantsRestart i := by
  refine ⟨h, ?_⟩
  change (s.wantsRestart i && !s.restarts i) = _
  rw [h, Bool.not_false, Bool.and_true]

/-! ## The first record -/

/-- The next record that is pushed carries the pc. -/
def Starts (s : L1i) (p : Word) : Prop :=
  match s.state with
  | .IDLE | .FLUSH_CACHE => False
  | .ACTIVE => if s.req then s.cachePc = p else s.pc = p
  | _ => s.missPc = p

/-- The cache is neither idle nor being flushed. -/
def Runs (s : L1i) : Prop := s.state ≠ .IDLE ∧ s.state ≠ .FLUSH_CACHE

theorem step_not_flush (h : s.state ≠ .FLUSH_CACHE) (hf : s.flushes i = false) :
    (s.step i).state ≠ .FLUSH_CACHE := by
  change s.nState i ≠ _
  rw [nState, hf, if_neg Bool.false_ne_true]
  by_cases hr : s.restarts i = true
  · rw [if_pos hr]
    decide
  · rw [if_neg hr]
    cases hs : s.state with
    | FLUSH_CACHE => exact absurd hs h
    | ACTIVE => cases s.action i <;> simp
    | IDLE => simp
    | _ => dsimp only; split_ifs <;> decide

theorem step_runs (h : s.Runs) (hf : s.flushes i = false) : (s.step i).Runs := by
  refine ⟨?_, step_not_flush h.2 hf⟩
  change s.nState i ≠ _
  rw [nState, hf, if_neg Bool.false_ne_true]
  by_cases hr : s.restarts i = true
  · rw [if_pos hr]
    decide
  · rw [if_neg hr]
    cases hs : s.state with
    | IDLE => exact absurd hs h.1
    | FLUSH_CACHE => exact absurd hs h.2
    | ACTIVE => cases s.action i <;> simp
    | _ => dsimp only; split_ifs <;> decide

theorem Restarted.starts (h : s.Restarted) : s.Starts s.pc := by
  simp [Starts, h.state, h.req]

theorem Restarted.runs (h : s.Restarted) : s.Runs := by
  simp [Runs, h.state]

/-- A push begins with the instruction at the cache pc. -/
theorem pushed_cons (h : s.pushes i = true) : ∃ fs, s.pushed i = s.tInsn i :: fs := by
  rw [pushed, if_pos h]
  split <;> exact ⟨_, rfl⟩

/-- Until a flush or another restart, the first record that is pushed carries the pc. -/
theorem step_starts {p : Word} (h : s.Starts p) (hb : s.resteerBubble = false)
    (hf : s.wantsFlush i = false) (hr : s.restarts i = false) :
    (s.pushed i = [] ∧ (s.step i).Starts p) ∨ ∃ f fs, s.pushed i = f :: fs ∧ f.pc = p := by
  have hfl : s.flushes i = false := by
    rw [← Bool.not_eq_true]
    exact fun hc => by simp [flushes_wants hc] at hf
  have hn : (s.step i).state = s.nState i := rfl
  unfold Starts at h
  cases hs : s.state with
  | IDLE => simp [hs] at h
  | FLUSH_CACHE => simp [hs] at h
  | ACTIVE =>
    simp only [hs] at h
    have hspec := action_spec (s := s) (i := i) hb
    cases ha : s.action i with
    | bubble => rw [ha] at hspec; exact hspec.elim
    | flush => simp [flushes, hs, ha] at hfl
    | restart => simp [restarts, hs, ha] at hr
    | push =>
      rw [ha] at hspec
      have hreq : s.req = true := by
        simp only [tHit, Bool.and_eq_true] at hspec
        exact hspec.2.1.1
      obtain ⟨fs, hp⟩ := pushed_cons (push_pushes (i := i) hs ha)
      rw [if_pos hreq] at h
      exact Or.inr ⟨_, fs, hp, h⟩
    | reloadUtlb | reload | waitNotFull =>
      rw [ha] at hspec
      rw [if_pos hspec.2] at h
      refine Or.inl ⟨pushed_of_not (by simp [pushes, hs, ha]), ?_⟩
      simp [Starts, nState, nMissPc, hfl, hr, hs, ha, h]
    | idle =>
      rw [ha] at hspec
      rw [hspec.2, if_neg Bool.false_ne_true] at h
      refine Or.inl ⟨pushed_of_not (by simp [pushes, hs, ha]), ?_⟩
      simp [Starts, nState, nReq, nCachePc, hfl, hr, hs, ha, h]
  | INJECT_RELOAD =>
    simp only [hs] at h
    refine Or.inl ⟨pushed_of_not (by simp [pushes, hs]), ?_⟩
    cases hm : i.memRspValid <;> simp [Starts, nState, nMissPc, hfl, hr, hs, hm, h]
  | RELOAD_TURNAROUND =>
    simp only [hs] at h
    have hw : s.wantsRestart i = false := by simpa [restarts, hs, hf] using hr
    refine Or.inl ⟨pushed_of_not (by simp [pushes, hs]), ?_⟩
    cases hq : s.fqFull <;>
      simp [Starts, nState, nMissPc, nReq, nCachePc, turnsAround, hfl, hr, hs, hq, hf, hw, h]
  | WAIT_FOR_NOT_FULL =>
    simp only [hs] at h
    refine Or.inl ⟨pushed_of_not (by simp [pushes, hs]), ?_⟩
    cases hq : s.fqFull <;> simp [Starts, nState, nMissPc, nReq, nCachePc, hfl, hr, hs, hq, h]
  | RELOAD_UTLB =>
    simp only [hs] at h
    refine Or.inl ⟨pushed_of_not (by simp [pushes, hs]), ?_⟩
    cases hm : i.tlbRspValid <;> cases hq : s.fqFull <;>
      simp [Starts, nState, nMissPc, nReq, nCachePc, hfl, hr, hs, hm, hq, h]

end L1i
end MipsCore
