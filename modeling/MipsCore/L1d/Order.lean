import MipsCore.L1d.Memory
import MipsCore.Lib.Ledger

/-! # The fate of every request

The requests are numbered in program order, as they are accepted.  Each is in hand at
the first port, in the queue or at the second port, in this order, until it is written,
answered or squashed; none is lost while flushes keep apart from misses.
-/
namespace MipsCore

/-- The accepted requests, the numbers of those in hand, and what became of the others. -/
structure Trace where
  accepted : List MemReq := []
  first : ℕ := 0
  queue : List ℕ := []
  second : ℕ := 0
  written : List ℕ := []
  squashed : List ℕ := []
  answered : List (ℕ × Word) := []

/-- The data side with the trace of its requests. -/
structure Traced where
  side : DataSide
  trace : Trace

namespace Traced
open DataSide Ledger
variable (t : Traced) (i : L1dIn)

abbrev cache : L1d := t.side.cache

/-- The second port drops its request, which the core has squashed. -/
def drains2 : Bool := t.cache.serves2 && i.drainDsComplete
/-- The second port answers a load or a register merge. -/
def replies2 : Bool :=
  t.cache.serves2 && !i.drainDsComplete && !t.cache.req2.isStore && !t.cache.tPushMiss i

def reset (m : L1dInit) (mem : Word → Line) : Traced where
  side := DataSide.reset m mem
  trace := {}

/-- One cycle of the data side. -/
def step : Traced where
  side := t.side.step i
  trace :=
    { accepted := t.trace.accepted ++ if t.cache.accepts i then [i.coreMemReq] else []
      first := if t.cache.fires then t.trace.queue.headD 0 else t.trace.first
      queue := t.trace.queue.drop (t.cache.tPopMq i).toNat ++
        if t.cache.tPushMiss i then [t.trace.second] else []
      second := if t.cache.accepts i then t.trace.accepted.length else t.trace.second
      written := t.trace.written ++ if t.cache.tWrArray then [t.trace.first] else []
      squashed := t.trace.squashed ++
        (if t.cache.tForceClearBusy i then [t.trace.queue.headD 0] else []) ++
          if t.drains2 i then [t.trace.second] else []
      answered := t.trace.answered ++
        (if t.cache.loadHit then [(t.trace.first, t.cache.tRspData)] else []) ++
          if t.replies2 i then [(t.trace.second, (t.cache.rsp2 i).data)] else [] }

/-- The numbers of the requests in hand, oldest first. -/
def held : List ℕ :=
  (if t.cache.busy1 then [t.trace.first] else []) ++ t.trace.queue ++
    if t.cache.gotReq2 then [t.trace.second] else []

/-- The request with a number. -/
def req (k : ℕ) : Option MemReq := t.trace.accepted[k]?

/-- The requests in hand are those that the cache holds. -/
structure Custody : Prop where
  side : t.side.Wf
  ordered : Ordered t.held t.trace.accepted.length
  queue : t.trace.queue.map t.req = t.cache.mqWindow.map some
  first : t.cache.busy1 = true → t.req t.trace.first = some t.cache.req
  second : t.cache.gotReq2 = true → t.req t.trace.second = some t.cache.req2

variable {t i}

theorem reset_custody (m : L1dInit) (mem : Word → Line) : (reset m mem).Custody where
  side := reset_wf m mem
  ordered := ordered_nil _
  queue := by
    change [] = ((L1d.reset m).mqWindow).map some
    rw [L1d.reset_mqWindow]
    rfl
  first := fun h => by simp [L1d.busy1, reset, DataSide.reset, L1d.reset] at h
  second := fun h => by simp [reset, DataSide.reset, L1d.reset] at h

/-! ## What a cycle finishes -/

/-- The requests that leave at the front of the line. -/
def front (t : Traced) (i : L1dIn) : List ℕ :=
  (if t.cache.serves && t.cache.hits then [t.trace.first] else []) ++
    if t.cache.tForceClearBusy i then [t.trace.queue.headD 0] else []

/-- The request that leaves at its end. -/
def back (t : Traced) (i : L1dIn) : List ℕ :=
  if t.cache.serves2 && !t.cache.tPushMiss i then [t.trace.second] else []

/-- The head of the queue and its number. -/
theorem Custody.queue_head (h : t.Custody) (he : t.cache.memQEmpty = false) :
    ∃ k rest, t.trace.queue = k :: rest ∧ t.req k = some t.cache.tMemHead := by
  obtain ⟨rs, hr⟩ := L1d.tMemHead_cons he
  have hq := h.queue
  rw [hr, List.map_cons] at hq
  obtain ⟨k, rest, hk, hreq, -⟩ := List.map_eq_cons_iff.mp hq
  exact ⟨k, rest, hk, hreq⟩

theorem noMiss_busy1 (hs : t.cache.state = .ACTIVE)
    (hm : t.cache.tGotMiss = false) :
    t.cache.busy1 = (t.cache.serves && t.cache.hits) := by
  cases hg : t.cache.gotReq with
  | false => simp [L1d.busy1, L1d.serves, hs, hg]
  | true =>
    have hh : t.cache.hits = true := by simpa [L1d.tGotMiss, L1d.serves, hs, hg] using hm
    simp [L1d.busy1, L1d.serves, hs, hg, hh]

/-- A miss sends a request to memory. -/
theorem miss_requests (hw : t.side.Wf) (hm : t.cache.tGotMiss = true) :
    (t.cache.evicts || t.cache.refills) = true := by
  obtain ⟨hg, hh⟩ := miss_gotReq hm
  cases hr : t.cache.isRetry with
  | true =>
    have hmay : t.cache.mayReload = true := by
      cases hb : t.cache.hitBusyAddr <;> simp [L1d.mayReload, hr, hb]
    cases hv : t.cache.victim <;> simp [L1d.evicts, L1d.refills, hm, hmay, hv]
  | false =>
    have hd : t.cache.didReload = true := by simpa [hr] using hw.port1.again hg
    rcases hw.reloads.reloaded hg hd with hc | ⟨hl, hv⟩
    · rw [hh] at hc
      cases hc
    · have hvi : t.cache.victim = false := by simp [L1d.victim, hv]
      simp [L1d.refills, hm, hvi, hl]

theorem step_state_eq : (t.step i).cache.state = t.cache.nState i := rfl
theorem step_gotReq_eq : (t.step i).cache.gotReq = t.cache.tGotReq := rfl

/-- A request at the first port stays until it finds its line or the next one replaces it. -/
theorem step_busy1_eq (hw : t.side.Wf) (hf : t.side.FlushesApart i) (hfi : t.cache.fires = false) :
    (t.step i).cache.busy1 = (t.cache.busy1 && !(t.cache.serves && t.cache.hits)) := by
  have hgot : t.cache.tGotReq = (t.cache.state == .HANDLE_RELOAD) := by simp [L1d.tGotReq, hfi]
  rw [L1d.busy1, step_state_eq, step_gotReq_eq, hgot]
  cases hs : t.cache.state with
  | ACTIVE =>
    cases hm : t.cache.tGotMiss with
    | false =>
      rw [noMiss_busy1 hs hm]
      simp only [L1d.nState, hs, L1d.evicts, L1d.refills, hm, Bool.false_and, Bool.or_self,
        Bool.and_not_self, Bool.false_eq_true, if_false]
      split_ifs <;> rfl
    | true =>
      obtain ⟨hg, hh⟩ := miss_gotReq hm
      have hwf := hw.port1.noWrite hg
      have hnf : t.cache.flushes i = false ∧ t.cache.flushesCl i = false := by
        rw [← Bool.or_eq_false_iff]
        by_contra hc
        rw [Bool.not_eq_false] at hc
        have := hf hc
        rw [hm] at this
        cases this
      have hreq := miss_requests hw hm
      simp [L1d.nState, hs, hnf.1, hnf.2, hreq, hwf, L1d.busy1, hg, hh]
  | INJECT_RELOAD =>
    have hi := hw.bus.issue hs
    cases hr : i.memRspValid <;> simp [L1d.nState, L1d.busy1, L1d.serves, hs, hr, hi]
  | HANDLE_RELOAD => simp [L1d.nState, L1d.busy1, L1d.serves, hs]
  | WAIT_INJECT_RELOAD => exact absurd hs hw.port1.noWait
  | RELOAD_UTLB => exact absurd hs hw.port1.noReload
  | FLUSH_CACHE | FLUSH_CACHE_WAIT | FLUSH_CL | FLUSH_CL_WAIT =>
    simp only [L1d.nState, L1d.busy1, L1d.serves, hs]
    split_ifs <;> rfl

theorem fires_notClear (h : t.cache.fires = true) : t.cache.tForceClearBusy i = false := by
  simp only [L1d.fires, L1d.firesStore, L1d.firesLoad, Bool.or_eq_true, Bool.and_eq_true,
    beq_iff_eq, Bool.not_eq_true'] at h
  rcases h with ⟨-, hg⟩ | ⟨-, hl⟩
  · simp [L1d.tForceClearBusy, hg]
  · simp [L1d.tForceClearBusy, hl]

theorem fires_busy1 (h : t.cache.fires = true) :
    (t.step i).cache.busy1 = true := by
  rw [L1d.busy1, step_state_eq, step_gotReq_eq, L1d.fires_nState h]
  simp [L1d.tGotReq, h]

/-- The line in front of the second port loses the requests that leave at its front. -/
theorem front_eq (hc : t.Custody) (hf : t.side.FlushesApart i) :
    (if t.cache.busy1 then [t.trace.first] else []) ++ t.trace.queue =
      t.front i ++ ((if (t.step i).cache.busy1 then [(t.step i).trace.first] else []) ++
        t.trace.queue.drop (t.cache.tPopMq i).toNat) := by
  have hw := hc.side
  have hfirst : (t.step i).trace.first =
    if t.cache.fires then t.trace.queue.headD 0 else t.trace.first := rfl
  rw [hfirst, front]
  cases hfi : t.cache.fires with
  | true =>
    have hco := L1d.fires_considers hfi
    obtain ⟨k, rest, hq, -⟩ := hc.queue_head (L1d.considers_nonempty hco)
    rw [noMiss_busy1 (L1d.considers_active hco) (L1d.considers_noMiss hco), fires_busy1 hfi,
      fires_notClear hfi, L1d.tPopMq, hfi, hq]
    simp
  | false =>
    rw [step_busy1_eq hw hf hfi, L1d.tPopMq, hfi]
    cases hcl : t.cache.tForceClearBusy i with
    | true =>
      have hco := L1d.tForceClearBusy_considers hcl
      obtain ⟨k, rest, hq, -⟩ := hc.queue_head (L1d.considers_nonempty hco)
      rw [noMiss_busy1 (L1d.considers_active hco) (L1d.considers_noMiss hco), hq]
      simp
    | false =>
      have hserve : (t.cache.serves && t.cache.hits) = true → t.cache.busy1 = true := by
        intro h
        simp only [L1d.serves, Bool.and_eq_true, beq_iff_eq] at h
        simp [L1d.busy1, h.1.1, h.1.2]
      cases hsh : (t.cache.serves && t.cache.hits) with
      | true => simp [hserve hsh]
      | false => simp

theorem tPushMiss_serves2 (h : t.cache.tPushMiss i = true) : t.cache.serves2 = true := by
  simp only [L1d.tPushMiss, L1d.looksUp2, Bool.and_eq_true] at h
  exact h.1.1.1.1

theorem back_eq (hw : t.side.Wf) :
    (if t.cache.gotReq2 then [t.trace.second] else []) =
      t.back i ++ if t.cache.tPushMiss i then [t.trace.second] else [] := by
  rw [back, L1d.serves2_eq hw.port2]
  cases hp : t.cache.tPushMiss i with
  | false => simp
  | true =>
    have hg := tPushMiss_serves2 hp
    rw [L1d.serves2_eq hw.port2] at hg
    simp [hg]

theorem accepts_eq : t.cache.accepts i = t.cache.coreMemReqAck i := by
  cases ha : t.cache.coreMemReqAck i with
  | false => simp [L1d.accepts, ha]
  | true =>
    have hv : i.coreMemReqValid = true := by
      simp only [L1d.coreMemReqAck, Bool.and_eq_true] at ha
      exact ha.1.1.1.1.1.1.2
    simp [L1d.accepts, ha, hv]

/-- A cycle finishes requests at both ends of the line and keeps the others in order. -/
theorem Custody.moves (hc : t.Custody) (hf : t.side.FlushesApart i) :
    Moves t.held t.trace.accepted.length (t.cache.accepts i) (t.front i ++ t.back i)
      (t.step i).held := by
  have hheld : (t.step i).held =
      (if (t.step i).cache.busy1 then [(t.step i).trace.first] else []) ++
        t.trace.queue.drop (t.cache.tPopMq i).toNat ++
          (if t.cache.tPushMiss i then [t.trace.second] else []) ++
            arriving (t.cache.accepts i) t.trace.accepted.length := by
    have hq : (t.step i).trace.queue = t.trace.queue.drop (t.cache.tPopMq i).toNat ++
      if t.cache.tPushMiss i then [t.trace.second] else [] := rfl
    have hs : (t.step i).trace.second =
      if t.cache.accepts i then t.trace.accepted.length else t.trace.second := rfl
    have hg : (t.step i).cache.gotReq2 = t.cache.accepts i := accepts_eq.symm
    rw [held, hq, hs, hg, arriving, ← List.append_assoc, List.append_assoc]
    cases t.cache.accepts i <;> simp
  rw [hheld, held, front_eq hc hf, back_eq (i := i) hc.side]
  exact moves_ends

theorem step_accepted_length :
    (t.step i).trace.accepted.length = t.trace.accepted.length + (t.cache.accepts i).toNat := by
  change (t.trace.accepted ++ if t.cache.accepts i then [i.coreMemReq] else []).length = _
  cases t.cache.accepts i <;> simp

/-- An accepted request keeps its number. -/
theorem req_step {k : ℕ} (h : k < t.trace.accepted.length) : (t.step i).req k = t.req k :=
  List.getElem?_append_left h

theorem req_lt {k : ℕ} {r : MemReq} (h : t.req k = some r) : k < t.trace.accepted.length :=
  (List.getElem?_eq_some_iff.mp h).1

theorem Custody.held_queue (hc : t.Custody) {k : ℕ} (hk : k ∈ t.trace.queue) :
    k < t.trace.accepted.length :=
  hc.ordered.bound k (List.mem_append_left _ (List.mem_append_right _ hk))

theorem Custody.step_queue (hc : t.Custody) :
    (t.step i).trace.queue.map (t.step i).req = (t.step i).cache.mqWindow.map some := by
  change (t.trace.queue.drop (t.cache.tPopMq i).toNat ++
    if t.cache.tPushMiss i then [t.trace.second] else []).map _ = _
  have hsame : (t.trace.queue.drop (t.cache.tPopMq i).toNat).map (t.step i).req =
      (t.trace.queue.drop (t.cache.tPopMq i).toNat).map t.req := by
    refine List.map_congr_left fun k hk => req_step (hc.held_queue (List.mem_of_mem_drop hk))
  have hwin : (t.step i).cache.mqWindow = _ := L1d.step_mqWindow hc.side.holds.room
  rw [hwin, List.map_append, List.map_append, hsame, List.map_drop, hc.queue, List.map_drop]
  congr 1
  cases hp : t.cache.tPushMiss i with
  | false => rfl
  | true =>
    have hs := hc.second (L1d.tPushMiss_gotReq2 hp)
    simp [req_step (i := i) (req_lt hs), hs]

theorem Custody.step (hc : t.Custody) (hp : t.side.Promised i) (hf : t.side.FlushesApart i) :
    (t.step i).Custody where
  side := hc.side.step hp hf
  ordered := by
    rw [step_accepted_length]
    exact (hc.moves hf).ordered hc.ordered
  queue := hc.step_queue
  first := fun h => by
    have hfirst : (t.step i).trace.first =
      if t.cache.fires then t.trace.queue.headD 0 else t.trace.first := rfl
    rcases L1d.step_busy1 (i := i) h with ⟨hfi, hr⟩ | ⟨hfi, hb, hr⟩
    · obtain ⟨k, rest, hq, hk⟩ := hc.queue_head (L1d.considers_nonempty (L1d.fires_considers hfi))
      have hk' : (t.step i).trace.first = k := by rw [hfirst, hfi, hq]; rfl
      rw [hk', req_step (req_lt hk), hk]
      exact congrArg some hr.symm
    · have hk' : (t.step i).trace.first = t.trace.first := by rw [hfirst, hfi]; rfl
      have hk := hc.first hb
      rw [hk', req_step (req_lt hk), hk]
      exact congrArg some hr.symm
  second := fun h => by
    have ha : t.cache.coreMemReqAck i = true := h
    have hacc : t.cache.accepts i = true := accepts_eq.trans ha
    have hs : (t.step i).trace.second =
      if t.cache.accepts i then t.trace.accepted.length else t.trace.second := rfl
    have hl : (t.step i).trace.accepted =
      t.trace.accepted ++ if t.cache.accepts i then [i.coreMemReq] else [] := rfl
    have hr : (t.step i).cache.req2 = i.coreMemReq := if_pos ha
    rw [req, hs, hl, hacc, hr]
    simp

/-! ## The memory that the writes leave -/

/-- The store of a request in an image of memory, which gives the line of each address. -/
def commit (m : Word → Line) (r : MemReq) : Word → Line := fun a =>
  if lineOf a = lineOf r.addr then L1d.storeLine r (m r.addr) else m a

/-- Memory with the stores that have been written, in their order. -/
def committed (t : Traced) (mem : Word → Line) : Word → Line :=
  (t.trace.written.filterMap t.req).foldl commit fun a => mem (lineOf a)

/-- What has become of the requests. -/
structure Fates (t : Traced) (mem : Word → Line) : Prop where
  custody : t.Custody
  sorted : t.trace.written.Pairwise (· < ·)
  written_lt : ∀ w ∈ t.trace.written, ∀ k ∈ t.held, w < k
  written : ∀ w ∈ t.trace.written, ∃ r, t.req w = some r ∧ r.isStore = true
  squashed_lt : ∀ k ∈ t.trace.squashed, k < t.trace.accepted.length
  squashed_held : t.trace.squashed.Disjoint t.held
  squashed_written : t.trace.squashed.Disjoint t.trace.written
  answered : ∀ p ∈ t.trace.answered, ∃ r, t.req p.1 = some r ∧ r.isStore = false
  complete : ∀ k < t.trace.accepted.length, k ∈ t.held ∨ k ∈ t.trace.written ∨
    k ∈ t.trace.squashed ∨ ∃ v, (k, v) ∈ t.trace.answered
  view : ∀ a, t.side.view a = t.committed mem a

theorem reset_fates (m : L1dInit) (mem : Word → Line) : (reset m mem).Fates mem where
  custody := reset_custody m mem
  sorted := List.Pairwise.nil
  written_lt := fun _ h => by simp [reset] at h
  written := fun _ h => by simp [reset] at h
  squashed_lt := fun _ h => by simp [reset] at h
  squashed_held := List.disjoint_nil_left _
  squashed_written := List.disjoint_nil_left _
  answered := fun _ h => by simp [reset] at h
  complete := fun _ h => by simp [reset] at h
  view := fun a => by
    rw [view_eq, if_neg fun h => by simp [reset, DataSide.reset, L1d.reset] at h]
    rfl

theorem tWrArray_busy1 (hw : t.side.Wf) (h : t.cache.tWrArray = true) :
    t.cache.busy1 = true ∧ t.cache.serves = true ∧ t.cache.hits = true := by
  obtain ⟨hg, hh, -⟩ := tWrArray_hits h
  have hs := tWrArray_state hw h
  exact ⟨by simp [L1d.busy1, hs, hg], by simp [L1d.serves, hs, hg], hh⟩

theorem Custody.held_first (h : t.cache.busy1 = true) : ∃ rest, t.held = t.trace.first :: rest :=
  ⟨_, by rw [held, if_pos h, List.append_assoc]; rfl⟩

theorem written_eq (t : Traced) (i : L1dIn) : (t.step i).trace.written =
    t.trace.written ++ if t.cache.tWrArray then [t.trace.first] else [] := rfl

theorem mem_written {w : ℕ} : w ∈ (t.step i).trace.written ↔
    w ∈ t.trace.written ∨ t.cache.tWrArray = true ∧ w = t.trace.first := by
  rw [written_eq, List.mem_append]
  cases t.cache.tWrArray <;> simp

theorem mem_squashed {k : ℕ} : k ∈ (t.step i).trace.squashed ↔ k ∈ t.trace.squashed ∨
    t.cache.tForceClearBusy i = true ∧ k = t.trace.queue.headD 0 ∨
      t.drains2 i = true ∧ k = t.trace.second := by
  change k ∈ t.trace.squashed ++ (if t.cache.tForceClearBusy i then [t.trace.queue.headD 0] else []) ++
    (if t.drains2 i then [t.trace.second] else []) ↔ _
  cases t.cache.tForceClearBusy i <;> cases t.drains2 i <;> simp

theorem mem_answered {p : ℕ × Word} : p ∈ (t.step i).trace.answered ↔ p ∈ t.trace.answered ∨
    t.cache.loadHit = true ∧ p = (t.trace.first, t.cache.tRspData) ∨
      t.replies2 i = true ∧ p = (t.trace.second, (t.cache.rsp2 i).data) := by
  change p ∈ t.trace.answered ++ (if t.cache.loadHit then [(t.trace.first, t.cache.tRspData)] else []) ++
    (if t.replies2 i then [(t.trace.second, (t.cache.rsp2 i).data)] else []) ↔ _
  cases t.cache.loadHit <;> cases t.replies2 i <;> simp

/-- What is squashed in a cycle leaves the line there. -/
theorem squashed_done {k : ℕ}
    (h : t.cache.tForceClearBusy i = true ∧ k = t.trace.queue.headD 0 ∨
      t.drains2 i = true ∧ k = t.trace.second) : k ∈ t.front i ++ t.back i := by
  rcases h with ⟨hc, rfl⟩ | ⟨hd, rfl⟩
  · refine List.mem_append_left _ (List.mem_append_right _ ?_)
    simp [hc]
  · refine List.mem_append_right _ ?_
    simp only [drains2, Bool.and_eq_true] at hd
    have hp : t.cache.tPushMiss i = false := by
      simp [L1d.tPushMiss, L1d.looksUp2, hd.2]
    simp [back, hd.1, hp]

theorem written_done (hw : t.side.Wf) (h : t.cache.tWrArray = true) :
    t.trace.first ∈ t.front i := by
  obtain ⟨-, hs, hh⟩ := tWrArray_busy1 hw h
  exact List.mem_append_left _ (by simp [hs, hh])

/-- What leaves the line was in hand. -/
theorem Custody.done_held (hc : t.Custody) (hf : t.side.FlushesApart i) {k : ℕ}
    (hk : k ∈ t.front i ++ t.back i) : k ∈ t.held := by
  have hm := ((hc.moves hf).mem k).mpr (Or.inl hk)
  refine hm.elim id fun h => ?_
  -- the request that arrives stays in hand
  have hlast : k ∈ (t.step i).held := by
    have hacc := h.1
    rw [held]
    refine List.mem_append_right _ ?_
    have hg : (t.step i).cache.gotReq2 = t.cache.accepts i := accepts_eq.symm
    have hs : (t.step i).trace.second =
      if t.cache.accepts i then t.trace.accepted.length else t.trace.second := rfl
    rw [hg, hs, hacc]
    simp [h.2]
  exact absurd hlast ((hc.moves hf).disjoint hc.ordered hk)

/-- The second port queues every store that it does not drop. -/
theorem back_cases (hw : t.side.Wf) (h : t.cache.serves2 = true) (hp : t.cache.tPushMiss i = false) :
    t.drains2 i = true ∨ t.replies2 i = true := by
  cases hd : i.drainDsComplete with
  | true => exact Or.inl (by simp [drains2, h, hd])
  | false =>
    have hg : t.cache.gotReq2 = true := by rw [← L1d.serves2_eq hw.port2, h]
    have hwf : t.cache.req2.isStore = L1d.writesArray t.cache.req2.op := hw.holds.second hg
    have hst : t.cache.req2.isStore = false := by
      by_contra hst
      rw [Bool.not_eq_false] at hst
      rw [hst] at hwf
      have h1 : t.cache.req2.op ≠ .MTC1_MERGE := fun ho => by simp [ho, L1d.writesArray] at hwf
      have h2 : t.cache.req2.op ≠ .MFC1_MERGE := fun ho => by simp [ho, L1d.writesArray] at hwf
      simp [L1d.tPushMiss, L1d.looksUp2, h, hd, h1, h2, hst] at hp
    exact Or.inr (by simp [replies2, h, hd, hst, hp])

/-- What leaves the line is written, squashed or answered. -/
theorem Custody.done_cases (hc : t.Custody) {k : ℕ} (hk : k ∈ t.front i ++ t.back i) :
    k ∈ (t.step i).trace.written ∨ k ∈ (t.step i).trace.squashed ∨
      ∃ v, (k, v) ∈ (t.step i).trace.answered := by
  rcases List.mem_append.mp hk with hk | hk
  · rcases List.mem_append.mp hk with hk | hk
    · split_ifs at hk with hsh
      · obtain rfl := List.mem_singleton.mp hk
        simp only [Bool.and_eq_true] at hsh
        have hg : t.cache.gotReq = true := by rw [← L1d.serves_eq hc.side.port1, hsh.1]
        have hwf : t.cache.req.isStore = L1d.writesArray t.cache.req.op :=
          hc.side.req_wellFormed hg
        cases hst : t.cache.req.isStore with
        | true =>
          rw [hst] at hwf
          refine Or.inl (mem_written.mpr (Or.inr ⟨?_, rfl⟩))
          rw [L1d.tWrArray_eq hc.side.port1, ← hwf, hsh.1, hsh.2]
          rfl
        | false =>
          have hl : t.cache.loadHit = true := by simp [L1d.loadHit, hsh.1, hsh.2, hst]
          exact Or.inr (Or.inr ⟨_, mem_answered.mpr (Or.inr (Or.inl ⟨hl, rfl⟩))⟩)
      · cases hk
    · split_ifs at hk with hcl
      · exact Or.inr (Or.inl (mem_squashed.mpr (Or.inr (Or.inl ⟨hcl, List.mem_singleton.mp hk⟩))))
      · cases hk
  · rw [back] at hk
    split_ifs at hk with hsp
    · obtain rfl := List.mem_singleton.mp hk
      simp only [Bool.and_eq_true, Bool.not_eq_true'] at hsp
      rcases back_cases hc.side hsp.1 hsp.2 with hd | hr
      · exact Or.inr (Or.inl (mem_squashed.mpr (Or.inr (Or.inr ⟨hd, rfl⟩))))
      · exact Or.inr (Or.inr ⟨_, mem_answered.mpr (Or.inr (Or.inr ⟨hr, rfl⟩))⟩)
    · cases hk

theorem Custody.held_step (hc : t.Custody) (hf : t.side.FlushesApart i) {k : ℕ}
    (hk : k ∈ (t.step i).held) : k ∈ t.held ∨ k = t.trace.accepted.length :=
  (((hc.moves hf).mem k).mpr (Or.inr hk)).imp id And.right

variable {mem : Word → Line}

theorem Fates.bound (h : t.Fates mem) {w : ℕ} (hw : w ∈ t.trace.written) :
    w < t.trace.accepted.length := by
  obtain ⟨r, hr, -⟩ := h.written w hw
  exact req_lt hr

/-- A written store precedes every request that stays in hand. -/
theorem Fates.step_written_lt (h : t.Fates mem) (hf : t.side.FlushesApart i) {w k : ℕ}
    (hw : w ∈ (t.step i).trace.written) (hk : k ∈ (t.step i).held) : w < k := by
  have hc := h.custody
  rcases mem_written.mp hw with hw | ⟨hwr, rfl⟩
  · rcases hc.held_step hf hk with hk | rfl
    · exact h.written_lt w hw k hk
    · exact h.bound hw
  · have hne : k ≠ t.trace.first := by
      rintro rfl
      exact (hc.moves hf).disjoint hc.ordered
        (List.mem_append_left _ (written_done hc.side hwr)) hk
    obtain ⟨rest, hr⟩ := Custody.held_first (tWrArray_busy1 hc.side hwr).1
    refine Ordered.head_lt (hr ▸ hc.ordered) ?_
    rcases hc.held_step hf hk with hk | hk
    · rw [hr, List.mem_cons] at hk
      exact Or.inl (hk.resolve_left hne)
    · exact Or.inr hk

theorem Fates.step_disjoint (h : t.Fates mem) (hf : t.side.FlushesApart i) :
    (t.step i).trace.squashed.Disjoint (t.step i).held ∧
      (t.step i).trace.squashed.Disjoint (t.step i).trace.written := by
  have hc := h.custody
  have hm := hc.moves hf
  refine ⟨fun k hk hh => ?_, fun k hk hw => ?_⟩
  · rcases mem_squashed.mp hk with hk | hk
    · rcases hc.held_step hf hh with hh | rfl
      · exact h.squashed_held hk hh
      · exact Nat.lt_irrefl _ (h.squashed_lt _ hk)
    · exact hm.disjoint hc.ordered (squashed_done hk) hh
  · rcases mem_squashed.mp hk with hk | hk
    · rcases mem_written.mp hw with hw | ⟨hwr, rfl⟩
      · exact h.squashed_written hk hw
      · have hd := List.mem_append_left (t.back i) (written_done (i := i) hc.side hwr)
        exact h.squashed_held hk (hc.done_held hf hd)
    · have hd := squashed_done hk
      rcases mem_written.mp hw with hw | ⟨hwr, rfl⟩
      · exact Nat.lt_irrefl _ (h.written_lt k hw k (hc.done_held hf hd))
      · -- the store that is written and a squashed request leave the line at different places
        have hnd := hm.nodup_done hc.ordered
        obtain ⟨-, hs, hh⟩ := tWrArray_busy1 hc.side hwr
        rw [front, if_pos (by simp [hs, hh]), List.append_assoc, List.singleton_append,
          List.nodup_cons] at hnd
        refine hnd.1 ?_
        rcases hk with ⟨hcl, he⟩ | ⟨hdr, he⟩
        · rw [he, hcl]
          exact List.mem_append_left _ List.mem_cons_self
        · have hb : t.trace.second ∈ t.back i := by
            simp only [drains2, Bool.and_eq_true] at hdr
            have hp : t.cache.tPushMiss i = false := by
              simp [L1d.tPushMiss, L1d.looksUp2, hdr.2]
            simp [back, hdr.1, hp]
          rw [he]
          exact List.mem_append_right _ hb

theorem Fates.step_committed (h : t.Fates mem) (mem' : Word → Line) :
    (t.step i).committed mem' =
      if t.cache.tWrArray = true then commit (t.committed mem') t.cache.req
      else t.committed mem' := by
  have hold : t.trace.written.filterMap (t.step i).req = t.trace.written.filterMap t.req :=
    List.filterMap_congr fun w hw => req_step (h.bound hw)
  rw [committed, written_eq, List.filterMap_append, hold]
  split_ifs with hwr
  · have hb := (tWrArray_busy1 h.custody.side hwr).1
    have hr := h.custody.first hb
    have hr' : (t.step i).req t.trace.first = some t.cache.req := by
      rw [req_step (req_lt hr), hr]
    simp only [List.filterMap_cons, hr', List.filterMap_nil, List.foldl_append, List.foldl_cons,
      List.foldl_nil]
    rfl
  · simp [committed]

theorem Fates.step (h : t.Fates mem) (hp : t.side.Promised i) (hf : t.side.FlushesApart i) :
    (t.step i).Fates mem where
  custody := h.custody.step hp hf
  sorted := by
    rw [written_eq]
    refine List.pairwise_append.mpr ⟨h.sorted, by cases t.cache.tWrArray <;> simp, ?_⟩
    intro a ha b hb
    split_ifs at hb with hwr
    · obtain rfl := List.mem_singleton.mp hb
      obtain ⟨rest, hr⟩ := Custody.held_first (tWrArray_busy1 h.custody.side hwr).1
      exact h.written_lt a ha _ (hr ▸ List.mem_cons_self)
    · cases hb
  written_lt := fun w hw k hk => h.step_written_lt hf hw hk
  written := fun w hw => by
    rcases mem_written.mp hw with hw | ⟨hwr, rfl⟩
    · obtain ⟨r, hr, hs⟩ := h.written w hw
      exact ⟨r, (req_step (req_lt hr)).trans hr, hs⟩
    · have hr := h.custody.first (tWrArray_busy1 h.custody.side hwr).1
      obtain ⟨hg, -, ho⟩ := tWrArray_hits hwr
      exact ⟨_, (req_step (req_lt hr)).trans hr, (h.custody.side.req_wellFormed hg).trans ho⟩
  squashed_lt := fun k hk => by
    rw [step_accepted_length]
    rcases mem_squashed.mp hk with hk | hk
    · exact Nat.lt_add_right _ (h.squashed_lt k hk)
    · exact Nat.lt_add_right _
        (h.custody.ordered.bound k (h.custody.done_held hf (squashed_done hk)))
  squashed_held := (h.step_disjoint hf).1
  squashed_written := (h.step_disjoint hf).2
  answered := fun p hpa => by
    rcases mem_answered.mp hpa with hpa | ⟨hl, rfl⟩ | ⟨hr, rfl⟩
    · obtain ⟨r, hr, hs⟩ := h.answered p hpa
      exact ⟨r, (req_step (req_lt hr)).trans hr, hs⟩
    · simp only [L1d.loadHit, L1d.serves, Bool.and_eq_true, Bool.not_eq_true', beq_iff_eq] at hl
      have hr := h.custody.first (by simp [L1d.busy1, hl.1.1.1, hl.1.1.2])
      exact ⟨_, (req_step (req_lt hr)).trans hr, hl.2⟩
    · simp only [replies2, Bool.and_eq_true, Bool.not_eq_true'] at hr
      have hg : t.cache.gotReq2 = true := by rw [← L1d.serves2_eq h.custody.side.port2, hr.1.1.1]
      have hs := h.custody.second hg
      exact ⟨_, (req_step (req_lt hs)).trans hs, hr.1.2⟩
  complete := fun k hk => by
    rw [step_accepted_length] at hk
    have hm := (h.custody.moves hf).mem k
    have hin : k ∈ t.held ∨ t.cache.accepts i = true ∧ k = t.trace.accepted.length →
        k ∈ (t.step i).held ∨ k ∈ (t.step i).trace.written ∨ k ∈ (t.step i).trace.squashed ∨
          ∃ v, (k, v) ∈ (t.step i).trace.answered := fun hh =>
      (hm.mp hh).elim (fun hd => Or.inr (h.custody.done_cases hd)) Or.inl
    rcases Nat.lt_or_ge k t.trace.accepted.length with hlt | hge
    · rcases h.complete k hlt with hh | hw | hs | ⟨v, hv⟩
      · exact hin (Or.inl hh)
      · exact Or.inr (Or.inl (mem_written.mpr (Or.inl hw)))
      · exact Or.inr (Or.inr (Or.inl (mem_squashed.mpr (Or.inl hs))))
      · exact Or.inr (Or.inr (Or.inr ⟨v, mem_answered.mpr (Or.inl hv)⟩))
    · cases ha : t.cache.accepts i with
      | false =>
        rw [ha] at hk
        exact absurd hk (by simpa using hge)
      | true =>
        rw [ha] at hk
        exact hin (Or.inr ⟨ha, Nat.le_antisymm (Nat.le_of_lt_succ hk) hge⟩)
  view := fun a => by
    have hv := h.custody.side.step_view hp a
    rw [h.step_committed]
    change (t.side.step i).view a = _
    rw [hv]
    by_cases hwr : t.cache.tWrArray = true
    · rw [if_pos hwr, commit, ← h.view, ← h.view]
      exact if_congr (and_iff_right hwr) rfl rfl
    · rw [if_neg hwr, if_neg fun hc => hwr hc.1, h.view]

/-- Only the sets of written stores are dirty. -/
def DirtyWritten (t : Traced) : Prop := ∀ k, t.cache.dirtyRam k = true →
  ∃ w ∈ t.trace.written, ∃ r, t.req w = some r ∧ setOf r.addr = k

theorem reset_dirtyWritten (m : L1dInit) (mem : Word → Line) : (reset m mem).DirtyWritten :=
  fun _ h => by simp [reset, DataSide.reset, L1d.reset] at h

theorem Fates.step_dirtyWritten (h : t.Fates mem) (hd : t.DirtyWritten) : (t.step i).DirtyWritten := by
  intro k hk
  have hold : t.cache.dirtyRam k = true → ∃ w ∈ (t.step i).trace.written,
      ∃ r, (t.step i).req w = some r ∧ setOf r.addr = k := by
    intro hk
    obtain ⟨w, hw, r, hr, hs⟩ := hd k hk
    exact ⟨w, mem_written.mpr (Or.inl hw), r, (req_step (req_lt hr)).trans hr, hs⟩
  have hk : Ring.writeIf (t.cache.tArrayWrEn i) (t.cache.tArrayWrAddr i) (!i.memRspValid)
    t.cache.dirtyRam k = true := hk
  rw [Ring.writeIf_apply] at hk
  split_ifs at hk with hc
  · rw [Bool.not_eq_true'] at hk
    have hwr : t.cache.tWrArray = true := by simpa [L1d.tArrayWrEn, hk] using hc.1
    have hr := h.custody.first (tWrArray_busy1 h.custody.side hwr).1
    refine ⟨_, mem_written.mpr (Or.inr ⟨hwr, rfl⟩), _, (req_step (req_lt hr)).trans hr, ?_⟩
    rw [hc.2, L1d.tArrayWrAddr, hk]
    exact (h.custody.side.port1.idx (tWrArray_hits hwr).1).symm
  · exact hold hk

end Traced
end MipsCore
