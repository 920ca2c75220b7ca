import MipsCore.L1d.Ports
import MipsCore.Lib.WriteBack

/-! # The data cache and its memory

Memory is a store of lines, addressed by `mem_req_addr`, that answers a pending
request in any later cycle.  The arrays of the cache and the memory behind them are
a write-back cache: a response writes the set back or refills it, a store at the
first port writes its line, and a walk forgets the lines that are not dirty.
-/
namespace MipsCore

/-- The data cache with the memory that answers it. -/
structure DataSide where
  cache : L1d
  mem : Word → Line
  owed : Bool

/-- A request stores exactly if its operation writes the array, as `exec.sv` sends it. -/
def MemReq.WellFormed (r : MemReq) : Prop := r.isStore = L1d.writesArray r.op

instance (r : MemReq) : Decidable r.WellFormed := inferInstanceAs (Decidable (_ = _))

namespace DataSide
open WriteBack
variable (d : DataSide) (i : L1dIn)

/-- The cache issues a request in this cycle, or memory still owes the response to one. -/
def pending : Bool := d.cache.memReqValid || d.owed

/-- One cycle of the cache; memory takes a written line as it answers. -/
def step : DataSide where
  cache := d.cache.step i
  mem :=
    if i.memRspValid = true ∧ d.cache.memReqOpcode = .SW then
      Function.update d.mem d.cache.memReqAddr d.cache.memReqStoreData
    else d.mem
  owed := d.pending && !i.memRspValid

def reset (m : L1dInit) (mem : Word → Line) : DataSide where
  cache := L1d.reset m
  mem := mem
  owed := false

/-- What the neighbours of the cache promise: memory answers only what is pending, a load with
its line, and the requests of the core are well formed. -/
structure Promised : Prop where
  pending : i.memRspValid = true → d.pending = true
  load : i.memRspValid = true → d.cache.memReqOpcode ≠ .SW →
    i.memRspLoadData = d.mem d.cache.memReqAddr
  request : i.coreMemReqValid = true → i.coreMemReq.WellFormed

instance : Decidable (Promised d i) :=
  decidable_of_iff ((i.memRspValid = true → d.pending = true) ∧
    (i.memRspValid = true → d.cache.memReqOpcode ≠ .SW →
      i.memRspLoadData = d.mem d.cache.memReqAddr) ∧
    (i.coreMemReqValid = true → i.coreMemReq.WellFormed))
    ⟨fun h => ⟨h.1, h.2.1, h.2.2⟩, fun h => ⟨h.1, h.2, h.3⟩⟩

/-- No flush starts in a cycle in which the first port misses. -/
def FlushesApart : Prop :=
  (d.cache.flushes i || d.cache.flushesCl i) = true → d.cache.tGotMiss = false

instance : Decidable (FlushesApart d i) := inferInstanceAs (Decidable (_ → _))

/-- The arrays of the cache and the memory behind them. -/
def lines : Cache SetIdx CacheTag Line where
  valid := d.cache.validRam
  dirty := d.cache.dirtyRam
  tag := d.cache.tagRam
  data := d.cache.dataRam
  mem := fun t k => d.mem (lineAddr t k)

/-- The latest contents of the line of an address. -/
def view (a : Word) : Line := d.lines.view (tagOf a) (setOf a)

/-! ## What holds in every cycle -/

/-- The first port has read the arrays. -/
def reads1 : Bool :=
  d.cache.gotReq || d.cache.state == .FLUSH_CACHE || d.cache.state == .FLUSH_CACHE_WAIT ||
    d.cache.state == .FLUSH_CL

/-- What the ports have read is still in the arrays. -/
structure Reads : Prop where
  tag : d.reads1 = true → d.cache.tagOut = d.cache.tagRam d.cache.cacheIdx
  data : d.reads1 = true → d.cache.arrayOut = d.cache.dataRam d.cache.cacheIdx
  dirty : d.reads1 = true → d.cache.dirtyOut = d.cache.dirtyRam d.cache.cacheIdx
  valid : d.reads1 = true → d.cache.validOut = d.cache.validRam d.cache.cacheIdx
  tag2 : d.cache.gotReq2 = true → d.cache.tagOut2 = d.cache.tagRam d.cache.cacheIdx2
  valid2 : d.cache.gotReq2 = true → d.cache.validOut2 = d.cache.validRam d.cache.cacheIdx2
  data2 : d.cache.gotReq2 = true → d.cache.tPort2HitCache = true →
    d.cache.tData2 = d.cache.dataRam d.cache.cacheIdx2

/-- The request that memory has: a dirty line, or the line that the first port misses. -/
structure Bus : Prop where
  pending : d.pending = true ↔ d.cache.state = .INJECT_RELOAD ∨ d.cache.state = .FLUSH_CL_WAIT ∨
    d.cache.state = .FLUSH_CACHE_WAIT
  dirty : d.pending = true → d.cache.memReqOpcode = .SW →
    d.cache.dirtyRam d.cache.memReqSet = true
  addr : d.pending = true → d.cache.memReqOpcode = .SW →
    d.cache.memReqAddr = lineAddr (d.cache.tagRam d.cache.memReqSet) d.cache.memReqSet
  data : d.pending = true → d.cache.memReqOpcode = .SW →
    d.cache.memReqStoreData = d.cache.dataRam d.cache.memReqSet
  inhibit : d.pending = true → d.cache.inhibitWrite = (d.cache.memReqOpcode == .SW)
  clean : d.pending = true → d.cache.memReqOpcode ≠ .SW →
    d.cache.dirtyRam d.cache.memReqSet = false ∧ d.cache.memReqAddr = lineOf d.cache.req.addr
  set : d.cache.state = .INJECT_RELOAD → d.cache.memReqSet = setOf d.cache.req.addr
  lock : d.cache.state = .INJECT_RELOAD → d.cache.memReqOpcode = .SW → d.cache.lockCache = true
  issue : d.cache.state = .INJECT_RELOAD → d.cache.reloadIssue = true
  walk : d.cache.state = .FLUSH_CACHE_WAIT →
    d.cache.memReqOpcode = .SW ∧ d.cache.cacheIdx = d.cache.memReqSet + 1
  flushCl : d.cache.state = .FLUSH_CL_WAIT → d.cache.memReqOpcode = .SW

/-- A reload finds its line, or its set empty and the cache locked for the refill. -/
structure Reloads : Prop where
  handle : d.cache.state = .HANDLE_RELOAD →
    d.lines.Present (tagOf d.cache.req.addr) (setOf d.cache.req.addr) ∨
      d.cache.lockCache = true ∧ d.cache.validRam (setOf d.cache.req.addr) = false
  reloaded : d.cache.gotReq = true → d.cache.didReload = true →
    d.cache.hits = true ∨ d.cache.lockCache = true ∧ d.cache.validOut = false

/-- The invariant of the cache and its memory. -/
structure Wf : Prop where
  holds : d.cache.Holds MemReq.WellFormed
  port1 : d.cache.Port1
  port2 : d.cache.Port2
  coherent : d.lines.Coherent
  reads : d.Reads
  bus : d.Bus
  reloads : d.Reloads

variable {d i}

theorem reset_wf (m : L1dInit) (mem : Word → Line) : (reset m mem).Wf where
  holds := L1d.reset_holds _ m
  port1 := L1d.reset_port1 m
  port2 := L1d.reset_port2 m
  coherent := by constructor <;> simp [lines, reset, L1d.reset]
  reads := by constructor <;> simp [reads1, reset, L1d.reset]
  bus := by constructor <;> simp [pending, reset, L1d.reset]
  reloads := by constructor <;> simp [reset, L1d.reset]

/-! ## When the arrays change -/

theorem Promised.quiet (hp : d.Promised i) (h : d.pending = false) : i.memRspValid = false := by
  by_contra hr
  have := hp.pending (by simpa using hr)
  rw [h] at this
  cases this

theorem Bus.idle (hb : d.Bus) (h1 : d.cache.state ≠ .INJECT_RELOAD)
    (h2 : d.cache.state ≠ .FLUSH_CL_WAIT) (h3 : d.cache.state ≠ .FLUSH_CACHE_WAIT) :
    d.pending = false := by
  by_contra hp
  rcases hb.pending.mp (by simpa using hp) with h | h | h
  exacts [h1 h, h2 h, h3 h]

theorem tWrArray_hits (h : d.cache.tWrArray = true) :
    d.cache.gotReq = true ∧ d.cache.hits = true ∧ L1d.writesArray d.cache.req.op = true := by
  simp only [L1d.tWrArray, L1d.tHitCache, Bool.and_eq_true] at h
  exact ⟨h.1.2.1.2, h.1.2.1.1, h.1.1⟩

theorem Wf.req_wellFormed (hw : d.Wf) (h : d.cache.gotReq = true) : d.cache.req.WellFormed :=
  hw.holds.first (by simp [L1d.busy1, h, hw.port1.active h])

/-- Only stores write the array. -/
theorem Wf.tWrArray_lastWr (hw : d.Wf) (h : d.cache.tWrArray = true) : d.cache.lastWr = true := by
  obtain ⟨hg, -, ho⟩ := tWrArray_hits h
  rw [hw.port1.store hg, hw.req_wellFormed hg, ho]

/-- The cycle leaves the set alone. -/
structure Untouched (d : DataSide) (i : L1dIn) (k : SetIdx) : Prop where
  rsp : i.memRspValid = true → k ≠ d.cache.memReqSet
  store : d.cache.tWrArray = true → k ≠ d.cache.cacheIdx
  mark : d.cache.tMarkInvalid = true → k ≠ d.cache.cacheIdx

theorem Untouched.tag {k : SetIdx} (h : Untouched d i k) :
    (d.step i).cache.tagRam k = d.cache.tagRam k := by
  change Ring.writeIf _ _ _ _ k = _
  rw [Ring.writeIf_apply, if_neg fun hc => h.rsp hc.1 hc.2]

theorem not_tArrayWrEn {k : SetIdx} (h : Untouched d i k) :
    ¬ (d.cache.tArrayWrEn i = true ∧ k = d.cache.tArrayWrAddr i) := by
  rintro ⟨he, ha⟩
  unfold L1d.tArrayWrAddr at ha
  split_ifs at ha with hr
  · exact h.rsp hr ha
  · have he : d.cache.tWrArray = true := by simpa [L1d.tArrayWrEn, hr] using he
    exact h.store he ha

theorem Untouched.data {k : SetIdx} (h : Untouched d i k) :
    (d.step i).cache.dataRam k = d.cache.dataRam k := by
  change Ring.writeIf _ _ _ _ k = _
  rw [Ring.writeIf_apply, if_neg (not_tArrayWrEn h)]

theorem Untouched.dirty {k : SetIdx} (h : Untouched d i k) :
    (d.step i).cache.dirtyRam k = d.cache.dirtyRam k := by
  change Ring.writeIf _ _ _ _ k = _
  rw [Ring.writeIf_apply, if_neg (not_tArrayWrEn h)]

theorem Untouched.valid {k : SetIdx} (h : Untouched d i k) :
    (d.step i).cache.validRam k = d.cache.validRam k := by
  change d.cache.nValidRam i k = _
  unfold L1d.nValidRam
  split_ifs with hm
  · exact Function.update_of_ne (h.mark hm) ..
  · rw [Ring.writeIf_apply, if_neg fun hc => h.rsp hc.1 hc.2]

/-- A store at the first port excludes a flush. -/
theorem nState_store (hs : d.cache.state = .ACTIVE) (hg : d.cache.gotReq = true)
    (hl : d.cache.lastWr = true) : d.cache.nState i = .ACTIVE ∨
      d.cache.nState i = .INJECT_RELOAD ∨ d.cache.nState i = .WAIT_INJECT_RELOAD := by
  have h1 : d.cache.flushes i = false := by simp [L1d.flushes, L1d.mayFlush, hg, hl]
  have h2 : d.cache.flushesCl i = false := by simp [L1d.flushesCl, L1d.mayFlush, hg, hl]
  simp only [L1d.nState, hs, h1, h2]
  split_ifs <;> simp_all

theorem tMarkInvalid_state (h : d.cache.tMarkInvalid = true) :
    d.cache.state = .FLUSH_CL ∨ d.cache.state = .FLUSH_CACHE := by
  simp only [L1d.tMarkInvalid, Bool.and_eq_true, Bool.or_eq_true, beq_iff_eq] at h
  exact h.2.imp id And.left

theorem tWrArray_state (hw : d.Wf) (h : d.cache.tWrArray = true) : d.cache.state = .ACTIVE :=
  hw.port1.active (tWrArray_hits h).1

theorem tGotReq_state (hs : d.cache.state ≠ .ACTIVE) (h : d.cache.tGotReq = true) :
    d.cache.state = .HANDLE_RELOAD := by
  simpa [L1d.tGotReq, (L1d.not_active_idle (i := {}) hs).1] using h

/-- Nothing is written to the set that the first port reads. -/
theorem Wf.untouched_first (hw : d.Wf) (hp : d.Promised i) (h : (d.step i).reads1 = true) :
    Untouched d i (d.cache.tCacheIdx i) := by
  have hst : (d.step i).cache.state = d.cache.nState i := rfl
  have hgot : (d.step i).cache.gotReq = d.cache.tGotReq := rfl
  rw [reads1, hst, hgot] at h
  cases hs : d.cache.state with
  | ACTIVE =>
    have hr := hp.quiet (hw.bus.idle (by simp [hs]) (by simp [hs]) (by simp [hs]))
    refine ⟨by simp [hr], fun hwr => ?_, fun hm => ?_⟩
    · have hl := hw.tWrArray_lastWr hwr
      have hg := (tWrArray_hits hwr).1
      have hn := nState_store (i := i) hs hg hl
      have ht : d.cache.tGotReq = true := by
        rcases hn with hn | hn | hn <;> simpa [hn] using h
      have := L1d.writeInFlight_false (i := i) hw.port1 ht
      rw [hl, Bool.and_true, beq_eq_false_iff_ne] at this
      exact this.symm
    · have := tMarkInvalid_state hm
      simp [hs] at this
  | FLUSH_CACHE =>
    have hr := hp.quiet (hw.bus.idle (by simp [hs]) (by simp [hs]) (by simp [hs]))
    refine ⟨by simp [hr], fun hwr => ?_, fun _ => ?_⟩
    · have := tWrArray_state hw hwr
      simp [hs] at this
    · simp only [L1d.tCacheIdx, hs]
      exact fun he => by simpa using congrArg (· - d.cache.cacheIdx) he
  | FLUSH_CACHE_WAIT =>
    refine ⟨fun _ => ?_, fun hwr => ?_, fun hm => ?_⟩
    · simp only [L1d.tCacheIdx, hs]
      rw [(hw.bus.walk hs).2]
      exact fun he => by simpa using congrArg (· - d.cache.memReqSet) he
    · have := tWrArray_state hw hwr
      simp [hs] at this
    · have := tMarkInvalid_state hm
      simp [hs] at this
  | HANDLE_RELOAD =>
    have hr := hp.quiet (hw.bus.idle (by simp [hs]) (by simp [hs]) (by simp [hs]))
    refine ⟨by simp [hr], fun hwr => ?_, fun hm => ?_⟩
    · have := tWrArray_state hw hwr
      simp [hs] at this
    · have := tMarkInvalid_state hm
      simp [hs] at this
  | _ =>
    exfalso
    have ht : d.cache.tGotReq = false := by
      have hne : d.cache.state ≠ .ACTIVE := by simp [hs]
      cases ht : d.cache.tGotReq with
      | false => rfl
      | true =>
        have := tGotReq_state hne ht
        simp [hs] at this
    simp only [ht, L1d.nState, hs] at h
    try split_ifs at h
    all_goals simp at h

/-! ## What the ports read -/

theorem tCmBlock_wrArray (hw : d.Wf) (ha : d.cache.coreMemReqAck i = true)
    (h : d.cache.tCmBlock i = true) : d.cache.tWrArray = true := by
  simp only [L1d.tCmBlock, Bool.and_eq_true] at h
  obtain ⟨⟨⟨hg, hl⟩, -⟩, -⟩ := h
  have hm := L1d.coreMemReqAck_noMiss ha
  have ho : L1d.writesArray d.cache.req.op = true := by
    rw [← hw.req_wellFormed hg, ← hw.port1.store hg, hl]
  have hs : d.cache.serves = true := by rw [L1d.serves_eq hw.port1, hg]
  have hh : d.cache.hits = true := by simpa [L1d.tGotMiss, hs] using hm
  rw [L1d.tWrArray_eq hw.port1, ho, hs, hh]
  rfl

theorem tWrArray_cmBlock (hw : d.Wf) (h : d.cache.tWrArray = true)
    (hk : d.cache.cacheIdx = setOf i.coreMemReq.addr)
    (ht : d.cache.cacheTag = tagOf i.coreMemReq.addr) : d.cache.tCmBlock i = true := by
  simp [L1d.tCmBlock, (tWrArray_hits h).1, hw.tWrArray_lastWr h, hk, ht]

theorem hits_tag (h : d.cache.hits = true) :
    d.cache.validOut = true ∧ d.cache.tagOut = d.cache.cacheTag := by
  simpa [L1d.hits] using h

/-- A line that the second port finds is the one in the arrays, with the store of the first port
in the same cycle. -/
theorem Wf.step_data2 (hw : d.Wf) (hp : d.Promised i) (ha : d.cache.coreMemReqAck i = true)
    (hh : (d.step i).cache.tPort2HitCache = true) :
    (d.step i).cache.tData2 = (d.step i).cache.dataRam (d.step i).cache.cacheIdx2 := by
  have hs := L1d.coreMemReqAck_active ha
  have hr := hp.quiet (hw.bus.idle (by simp [hs]) (by simp [hs]) (by simp [hs]))
  have hidx : d.cache.tCacheIdx2 i = setOf i.coreMemReq.addr := if_pos ha
  have htag : d.cache.tCacheTag2 i = tagOf i.coreMemReq.addr := if_pos ha
  have hhit : d.cache.validRam (d.cache.tCacheIdx2 i) = true ∧
      d.cache.tagRam (d.cache.tCacheIdx2 i) = d.cache.tCacheTag2 i := by
    have h : (d.step i).cache.validOut2 = true ∧
        (d.step i).cache.tagOut2 = (d.step i).cache.cacheTag2 := by
      simpa [L1d.tPort2HitCache] using hh
    exact h
  have hdata : (d.step i).cache.tData2 =
      if d.cache.tCmBlock i = true then d.cache.tArrayWrData i
      else d.cache.dataRam (d.cache.tCacheIdx2 i) := by
    change (if (d.cache.coreMemReqAck i && (d.cache.tCmBlock i && d.cache.coreMemReqAck i)) = true
      then _ else _) = _
    simp only [ha, Bool.true_and, Bool.and_true]
    rfl
  have hram : (d.step i).cache.dataRam (d.cache.tCacheIdx2 i) =
      if d.cache.tWrArray = true ∧ d.cache.tCacheIdx2 i = d.cache.cacheIdx
      then d.cache.tArrayWrData i else d.cache.dataRam (d.cache.tCacheIdx2 i) := by
    change Ring.writeIf _ _ _ _ _ = _
    rw [Ring.writeIf_apply, L1d.tArrayWrEn, L1d.tArrayWrAddr, hr]
    rfl
  rw [hdata]
  refine Eq.trans ?_ hram.symm
  refine if_congr ⟨fun hb => ?_, fun hb => ?_⟩ rfl rfl
  · refine ⟨tCmBlock_wrArray hw ha hb, ?_⟩
    simp only [L1d.tCmBlock, Bool.and_eq_true, beq_iff_eq] at hb
    rw [hidx, hb.1.2]
  · obtain ⟨hwr, hk⟩ := hb
    have hg := (tWrArray_hits hwr).1
    have ht := (hits_tag (tWrArray_hits hwr).2.1).2
    have hread := hw.reads.tag (by simp [reads1, hg])
    refine tWrArray_cmBlock hw hwr (by rw [← hk, hidx]) ?_
    rw [← htag, ← hhit.2, hk, ← hread, ht]

theorem Wf.step_reads (hw : d.Wf) (hp : d.Promised i) : (d.step i).Reads where
  tag := fun h => (hw.untouched_first hp h).tag.symm
  data := fun h => (hw.untouched_first hp h).data.symm
  dirty := fun h => (hw.untouched_first hp h).dirty.symm
  valid := fun h => (hw.untouched_first hp h).valid.symm
  tag2 := fun h => by
    have hs := L1d.coreMemReqAck_active h
    have hr := hp.quiet (hw.bus.idle (by simp [hs]) (by simp [hs]) (by simp [hs]))
    change d.cache.tagRam _ = Ring.writeIf i.memRspValid _ _ _ _
    rw [hr]
    rfl
  valid2 := fun h => by
    have hs := L1d.coreMemReqAck_active h
    have hr := hp.quiet (hw.bus.idle (by simp [hs]) (by simp [hs]) (by simp [hs]))
    change d.cache.validRam _ = d.cache.nValidRam i _
    rw [L1d.nValidRam, if_neg fun hm => by have := tMarkInvalid_state hm; simp [hs] at this, hr]
    rfl
  data2 := fun h hh => hw.step_data2 hp h hh

/-! ## Requests to memory -/

theorem pending_step : (d.step i).pending = (d.cache.nMemReqValid || d.pending && !i.memRspValid) :=
  rfl

/-- While memory owes a response the cache keeps its request and its arrays. -/
structure Waits (d : DataSide) (i : L1dIn) : Prop where
  pending : d.pending = true
  quiet : i.memRspValid = false
  state : (d.step i).cache.state = d.cache.state
  addr : (d.step i).cache.memReqAddr = d.cache.memReqAddr
  opcode : (d.step i).cache.memReqOpcode = d.cache.memReqOpcode
  data : (d.step i).cache.memReqStoreData = d.cache.memReqStoreData
  inhibit : (d.step i).cache.inhibitWrite = d.cache.inhibitWrite
  lock : (d.step i).cache.lockCache = d.cache.lockCache
  issue : (d.step i).cache.reloadIssue = d.cache.reloadIssue
  req : (d.step i).cache.req = d.cache.req
  walk : d.cache.state = .FLUSH_CACHE_WAIT → (d.step i).cache.cacheIdx = d.cache.cacheIdx
  untouched : ∀ k, Untouched d i k

theorem Wf.not_active (hw : d.Wf) (hs : d.cache.state ≠ .ACTIVE) :
    d.cache.gotReq = false ∧ d.cache.fires = false ∧ d.cache.tGotMiss = false ∧
      d.cache.tWrArray = false := by
  have hg : d.cache.gotReq = false := by
    by_contra hg
    exact hs (hw.port1.active (by simpa using hg))
  refine ⟨hg, (L1d.not_active_idle (i := {}) hs).1, by simp [L1d.tGotMiss, L1d.serves, hg], ?_⟩
  by_contra hwr
  exact hs (tWrArray_state hw (by simpa using hwr))

theorem noMiss_no_request (h : d.cache.tGotMiss = false) :
    d.cache.evicts = false ∧ d.cache.refills = false := by
  simp [L1d.evicts, L1d.refills, h]

theorem Wf.waits (hw : d.Wf) (h : d.pending = true) (hr : i.memRspValid = false) : Waits d i := by
  have hs := hw.bus.pending.mp h
  have hna : d.cache.state ≠ .ACTIVE := by rcases hs with hs | hs | hs <;> simp [hs]
  obtain ⟨hg, hfi, hm, hwr⟩ := hw.not_active hna
  obtain ⟨he, hre⟩ := noMiss_no_request hm
  have hfd : d.cache.flushesDirty = false := by
    rcases hs with hs | hs | hs <;> simp [L1d.flushesDirty, hs]
  have hw1 : d.cache.state ≠ .WAIT_INJECT_RELOAD := hw.port1.noWait
  have hmk : d.cache.tMarkInvalid = false := by
    by_contra hmk
    rcases tMarkInvalid_state (d := d) (by simpa using hmk) with h2 | h2 <;> simp [h2] at hs
  refine ⟨h, hr, ?_, ?_, ?_, ?_, ?_, ?_, ?_, ?_, ?_, ?_⟩
  · change d.cache.nState i = _
    rcases hs with hs | hs | hs <;> simp [L1d.nState, hs, hr]
  · change d.cache.nMemReqAddr = _
    simp [L1d.nMemReqAddr, he, hre, hfd]
  · change d.cache.nMemReqOpcode = _
    simp [L1d.nMemReqOpcode, he, hre, hfd]
  · change d.cache.nMemReqStoreData = _
    simp [L1d.nMemReqStoreData, he, hfd, hw1]
  · change d.cache.nInhibitWrite i = _
    rcases hs with hs | hs | hs <;> simp [L1d.nInhibitWrite, hs, hr]
  · change d.cache.nLockCache = _
    simp [L1d.nLockCache, he, hre]
  · change d.cache.nReloadIssue i = _
    simp [L1d.nReloadIssue, hm, hr]
  · change d.cache.nReq = _
    simp [L1d.nReq, hfi]
  · intro hs
    change d.cache.tCacheIdx i = _
    simp [L1d.tCacheIdx, hs]
  · exact fun k => ⟨by simp [hr], by simp [hwr], by simp [hmk]⟩

/-- A request is issued for a miss at the first port, or for a dirty line of a walk. -/
structure Issues (d : DataSide) (i : L1dIn) : Prop where
  idle : d.pending = false
  state : d.cache.state = .ACTIVE ∧ (d.step i).cache.state = .INJECT_RELOAD ∧
      (d.cache.evicts = true ∨ d.cache.evicts = false ∧ d.cache.refills = true) ∨
    d.cache.flushesDirty = true ∧
      (d.cache.state = .FLUSH_CL ∧ (d.step i).cache.state = .FLUSH_CL_WAIT ∨
        d.cache.state = .FLUSH_CACHE ∧ (d.step i).cache.state = .FLUSH_CACHE_WAIT)
  untouched : Untouched d i d.cache.cacheIdx

theorem evicts_miss (h : d.cache.evicts = true) : d.cache.tGotMiss = true ∧ d.cache.victim = true := by
  simp only [L1d.evicts, Bool.and_eq_true] at h
  exact h.1

theorem refills_miss (h : d.cache.refills = true) :
    d.cache.tGotMiss = true ∧ d.cache.victim = false := by
  simp only [L1d.refills, Bool.and_eq_true, Bool.not_eq_true'] at h
  exact h.1

theorem miss_gotReq (h : d.cache.tGotMiss = true) :
    d.cache.gotReq = true ∧ d.cache.hits = false := by
  simp only [L1d.tGotMiss, L1d.serves, Bool.and_eq_true, Bool.not_eq_true'] at h
  exact ⟨h.1.2, h.2⟩

theorem miss_untouched (hw : d.Wf) (hp : d.Promised i) (h : d.cache.tGotMiss = true) (k : SetIdx) :
    Untouched d i k := by
  obtain ⟨hg, hh⟩ := miss_gotReq h
  have hs := hw.port1.active hg
  have hr := hp.quiet (hw.bus.idle (by simp [hs]) (by simp [hs]) (by simp [hs]))
  refine ⟨by simp [hr], fun hwr => ?_, fun hm => ?_⟩
  · have := (tWrArray_hits hwr).2.1
    rw [hh] at this
    cases this
  · have := tMarkInvalid_state hm
    simp [hs] at this

theorem Wf.issues (hw : d.Wf) (hp : d.Promised i) (hf : d.FlushesApart i)
    (h : d.pending = false) (h' : (d.step i).pending = true) : Issues d i := by
  have hv : d.cache.nMemReqValid = true := by simpa [pending_step, h] using h'
  have hr := hp.quiet h
  simp only [L1d.nMemReqValid, Bool.or_eq_true, Bool.and_eq_true] at hv
  rcases hv with (⟨hm, -⟩ | hs) | hd
  · have hmiss : d.cache.tGotMiss = true := hm.elim (fun h => (evicts_miss h).1)
      fun h => (refills_miss h).1
    have hg := (miss_gotReq hmiss).1
    have hs := hw.port1.active hg
    have hnf : d.cache.flushes i = false ∧ d.cache.flushesCl i = false := by
      rw [← Bool.or_eq_false_iff]
      by_contra hc
      rw [Bool.not_eq_false] at hc
      have := hf hc
      rw [hmiss] at this
      cases this
    refine ⟨h, Or.inl ⟨hs, ?_, ?_⟩, miss_untouched hw hp hmiss _⟩
    · change d.cache.nState i = _
      have hwf := hw.port1.noWrite hg
      simp [L1d.nState, hs, hnf.1, hnf.2, hm, hwf]
    · cases he : d.cache.evicts with
      | true => exact Or.inl rfl
      | false => exact Or.inr ⟨rfl, by simpa [he] using hm⟩
  · exact absurd (by simpa using hs) hw.port1.noWait
  · have hd' := hd
    simp only [L1d.flushesDirty, Bool.and_eq_true, Bool.or_eq_true, beq_iff_eq] at hd'
    have hna : d.cache.state ≠ .ACTIVE := by
      intro hs
      simp [hs] at hd'
    obtain ⟨-, -, -, hwr⟩ := hw.not_active hna
    have hmk : d.cache.tMarkInvalid = false := by simp [L1d.tMarkInvalid, hd'.1]
    refine ⟨h, Or.inr ⟨hd, ?_⟩, ⟨by simp [hr], by simp [hwr], by simp [hmk]⟩⟩
    rcases hd'.2 with hs | ⟨hs, hne⟩
    · refine Or.inl ⟨hs, ?_⟩
      change d.cache.nState i = _
      simp [L1d.nState, hs, hd'.1]
    · refine Or.inr ⟨hs, ?_⟩
      change d.cache.nState i = _
      simp only [bne_iff_ne, ne_eq] at hne
      simp [L1d.nState, hs, hd'.1, hne]

theorem pending_cases (hw : d.Wf) (hp : d.Promised i) (hf : d.FlushesApart i)
    (h : (d.step i).pending = true) : Waits d i ∨ Issues d i := by
  cases hpe : d.pending with
  | false => exact Or.inr (hw.issues hp hf hpe h)
  | true =>
    have hr : i.memRspValid = false := by
      by_contra hr
      rw [Bool.not_eq_false] at hr
      have hv : d.cache.nMemReqValid = true := by simpa [pending_step, hpe, hr] using h
      have hna : d.cache.state ≠ .ACTIVE := by
        rcases hw.bus.pending.mp hpe with hs | hs | hs <;> simp [hs]
      obtain ⟨he, hre⟩ := noMiss_no_request (hw.not_active hna).2.2.1
      have hst := hw.bus.pending.mp hpe
      simp only [L1d.nMemReqValid, L1d.flushesDirty, he, hre] at hv
      rcases hst with hs | hs | hs <;> simp [hs] at hv
    exact Or.inl (hw.waits hpe hr)

/-- What a request that the cache issues asks of memory. -/
theorem Issues.request (hw : d.Wf) (h : Issues d i) :
    (d.step i).cache.inhibitWrite = ((d.step i).cache.memReqOpcode == .SW) ∧
      ((d.step i).cache.memReqOpcode = .SW ∧ d.reads1 = true ∧ d.cache.dirtyOut = true ∧
          (d.step i).cache.memReqAddr = d.cache.victimAddr ∧
          (d.step i).cache.memReqStoreData = d.cache.arrayOut ∨
        (d.step i).cache.memReqOpcode = .LW ∧ d.cache.refills = true ∧
          (d.step i).cache.memReqAddr = lineOf d.cache.req.addr) := by
  have hi : (d.step i).cache.inhibitWrite = d.cache.nInhibitWrite i := rfl
  have ho : (d.step i).cache.memReqOpcode = d.cache.nMemReqOpcode := rfl
  have ha : (d.step i).cache.memReqAddr = d.cache.nMemReqAddr := rfl
  have hd : (d.step i).cache.memReqStoreData = d.cache.nMemReqStoreData := rfl
  have ht := L1d.tData_eq hw.port1
  rw [hi, ho, ha, hd]
  rcases h.state with ⟨hs, -, he | ⟨he, hre⟩⟩ | ⟨hfd, hs⟩
  · obtain ⟨hm, hv⟩ := evicts_miss he
    have hdo : d.cache.dirtyOut = true := by
      simp only [L1d.victim, Bool.and_eq_true] at hv
      exact hv.1.2
    refine ⟨by simp [L1d.nInhibitWrite, L1d.nMemReqOpcode, hs, hm, hv, he], Or.inl ⟨?_, ?_, hdo, ?_, ?_⟩⟩
    · simp [L1d.nMemReqOpcode, he]
    · simp [reads1, (miss_gotReq hm).1]
    · simp [L1d.nMemReqAddr, he]
    · simp [L1d.nMemReqStoreData, he, ht]
  · obtain ⟨hm, hv⟩ := refills_miss hre
    have hwf := hw.port1.noWrite (miss_gotReq hm).1
    have hfd : d.cache.flushesDirty = false := by simp [L1d.flushesDirty, hs]
    have hop : d.cache.nMemReqOpcode = .LW := by simp [L1d.nMemReqOpcode, he, hre, hwf, hfd]
    refine ⟨?_, Or.inr ⟨hop, hre, ?_⟩⟩
    · rw [hop]
      simp only [L1d.nInhibitWrite, hs, hm, if_true, hv]
      rfl
    · simp [L1d.nMemReqAddr, he, hre, hwf, hfd]
  · have hfd' := hfd
    simp only [L1d.flushesDirty, Bool.and_eq_true, Bool.or_eq_true, beq_iff_eq] at hfd'
    have hop : d.cache.nMemReqOpcode = .SW := by simp [L1d.nMemReqOpcode, hfd]
    refine ⟨?_, Or.inl ⟨hop, ?_, hfd'.1, by simp [L1d.nMemReqAddr, hfd],
      by simp [L1d.nMemReqStoreData, hfd, ht]⟩⟩
    · rw [hop]
      rcases hs with ⟨hs, -⟩ | ⟨hs, -⟩
      · simp [L1d.nInhibitWrite, hs, hfd'.1]
      · have hne : d.cache.cacheIdx ≠ lastSet := by simpa [hs] using hfd'.2
        simp [L1d.nInhibitWrite, hs, hfd'.1, hne]
    · rcases hs with ⟨hs, -⟩ | ⟨hs, -⟩ <;> simp [reads1, hs]

theorem Wf.state_pending (hw : d.Wf)
    (h : (d.step i).cache.state = .INJECT_RELOAD ∨ (d.step i).cache.state = .FLUSH_CL_WAIT ∨
      (d.step i).cache.state = .FLUSH_CACHE_WAIT) : (d.step i).pending = true := by
  have hst : (d.step i).cache.state = d.cache.nState i := rfl
  rw [hst] at h
  rw [pending_step]
  cases hs : d.cache.state with
  | ACTIVE =>
    simp only [L1d.nState, hs] at h
    have hm : (d.cache.evicts || d.cache.refills) = true := by
      by_contra hm
      simp only [Bool.not_eq_true] at hm
      rw [hm] at h
      split_ifs at h <;> simp_all
    have hmiss : d.cache.tGotMiss = true := by
      rw [Bool.or_eq_true] at hm
      exact hm.elim (fun h => (evicts_miss h).1) fun h => (refills_miss h).1
    have hwf := hw.port1.noWrite (miss_gotReq hmiss).1
    simp [L1d.nMemReqValid, hm, hwf]
  | INJECT_RELOAD | FLUSH_CL_WAIT | FLUSH_CACHE_WAIT =>
    have hpe : d.pending = true := hw.bus.pending.mpr (by simp [hs])
    cases hr : i.memRspValid with
    | false => simp [hpe]
    | true =>
      exfalso
      simp only [L1d.nState, hs, hr] at h
      split_ifs at h <;> simp_all
  | FLUSH_CL | FLUSH_CACHE =>
    simp only [L1d.nState, hs] at h
    split_ifs at h <;> simp_all [L1d.nMemReqValid, L1d.flushesDirty]
  | WAIT_INJECT_RELOAD => exact absurd hs hw.port1.noWait
  | RELOAD_UTLB => exact absurd hs hw.port1.noReload
  | HANDLE_RELOAD => simp [L1d.nState, hs] at h

theorem refills_clean (hw : d.Wf) (h : d.cache.refills = true) :
    d.cache.dirtyRam d.cache.cacheIdx = false := by
  obtain ⟨hm, hv⟩ := refills_miss h
  obtain ⟨hg, hh⟩ := miss_gotReq hm
  have hread : d.reads1 = true := by simp [reads1, hg]
  by_contra hd
  rw [Bool.not_eq_false] at hd
  have hvalid := hw.coherent.valid_of_dirty d.cache.cacheIdx hd
  have hvo : d.cache.validOut = true := (hw.reads.valid hread).trans hvalid
  have hdo : d.cache.dirtyOut = true := (hw.reads.dirty hread).trans hd
  simp only [L1d.victim, hvo, hdo, Bool.and_self, Bool.true_and, bne_eq_false_iff_eq] at hv
  simp [L1d.hits, hvo, hv] at hh

theorem miss_req (h : d.cache.tGotMiss = true) : (d.step i).cache.req = d.cache.req := by
  have hf : d.cache.fires = false := by
    by_contra hf
    rw [Bool.not_eq_false] at hf
    have := L1d.considers_noMiss (L1d.fires_considers hf)
    rw [h] at this
    cases this
  change d.cache.nReq = _
  simp [L1d.nReq, hf]

theorem step_memReqSet : (d.step i).cache.memReqSet = setOf (d.step i).cache.memReqAddr := rfl

theorem victim_set (h : (d.step i).cache.memReqAddr = d.cache.victimAddr) :
    (d.step i).cache.memReqSet = d.cache.cacheIdx := by
  rw [step_memReqSet, h, L1d.victimAddr, setOf_lineAddr]

theorem Waits.set (h : Waits d i) : (d.step i).cache.memReqSet = d.cache.memReqSet := by
  rw [step_memReqSet, h.addr]
  rfl

/-- The request that is issued for a miss. -/
theorem Issues.inject (hw : d.Wf) (h : Issues d i)
    (hs : (d.step i).cache.state = .INJECT_RELOAD) :
    (d.step i).cache.memReqSet = setOf (d.step i).cache.req.addr ∧
      ((d.step i).cache.memReqOpcode = .SW → (d.step i).cache.lockCache = true) ∧
      (d.step i).cache.reloadIssue = true := by
  rcases h.state with ⟨-, -, hm⟩ | ⟨-, ⟨-, h2⟩ | ⟨-, h2⟩⟩
  · have hmiss : d.cache.tGotMiss = true := hm.elim (fun h => (evicts_miss h).1)
      fun h => (refills_miss h.2).1
    have hidx := hw.port1.idx (miss_gotReq hmiss).1
    rw [miss_req hmiss, ← hidx]
    have hri : (d.step i).cache.reloadIssue = true := by
      change d.cache.nReloadIssue i = _
      rcases hm with he | ⟨-, hre⟩
      · simp [L1d.nReloadIssue, hmiss, (evicts_miss he).2]
      · simp [L1d.nReloadIssue, hmiss, hre]
    obtain ⟨-, ⟨hop, -, -, ha, -⟩ | ⟨hop, -, ha⟩⟩ := h.request hw
    · refine ⟨victim_set ha, fun _ => ?_, hri⟩
      rcases hm with he | ⟨he, hre⟩
      · change d.cache.nLockCache = _
        simp [L1d.nLockCache, he]
      · have hwf := hw.port1.noWrite (miss_gotReq hmiss).1
        have hs := hw.port1.active (miss_gotReq hmiss).1
        have : d.cache.nMemReqOpcode = .SW := hop
        simp [L1d.nMemReqOpcode, he, hre, hwf, L1d.flushesDirty, hs] at this
    · refine ⟨?_, fun hsw => ?_, hri⟩
      · rw [step_memReqSet, ha, setOf_lineOf, hidx]
      · rw [hop] at hsw
        cases hsw
  · rw [hs] at h2
    cases h2
  · rw [hs] at h2
    cases h2

theorem Wf.step_bus (hw : d.Wf) (hp : d.Promised i) (hf : d.FlushesApart i) : (d.step i).Bus where
  pending := by
    refine ⟨fun h => ?_, hw.state_pending⟩
    rcases pending_cases hw hp hf h with h | h
    · rw [h.state]
      exact hw.bus.pending.mp h.pending
    · rcases h.state with ⟨-, hs, -⟩ | ⟨-, ⟨-, hs⟩ | ⟨-, hs⟩⟩ <;> simp [hs]
  dirty := fun h hsw => by
    rcases pending_cases hw hp hf h with h | h
    · rw [h.set, (h.untouched _).dirty]
      exact hw.bus.dirty h.pending (h.opcode ▸ hsw)
    · obtain ⟨-, ⟨-, hr, hd, ha, -⟩ | ⟨hop, -⟩⟩ := h.request hw
      · rw [victim_set ha, h.untouched.dirty, ← hw.reads.dirty hr, hd]
      · rw [hsw] at hop
        cases hop
  addr := fun h hsw => by
    rcases pending_cases hw hp hf h with h | h
    · rw [h.set, (h.untouched _).tag, h.addr]
      exact hw.bus.addr h.pending (h.opcode ▸ hsw)
    · obtain ⟨-, ⟨-, hr, hd, ha, -⟩ | ⟨hop, -⟩⟩ := h.request hw
      · rw [victim_set ha, h.untouched.tag, ← hw.reads.tag hr, ha]
        rfl
      · rw [hsw] at hop
        cases hop
  data := fun h hsw => by
    rcases pending_cases hw hp hf h with h | h
    · rw [h.set, (h.untouched _).data, h.data]
      exact hw.bus.data h.pending (h.opcode ▸ hsw)
    · obtain ⟨-, ⟨-, hr, hd, ha, hda⟩ | ⟨hop, -⟩⟩ := h.request hw
      · rw [victim_set ha, h.untouched.data, ← hw.reads.data hr, hda]
      · rw [hsw] at hop
        cases hop
  inhibit := fun h => by
    rcases pending_cases hw hp hf h with h | h
    · rw [h.inhibit, h.opcode]
      exact hw.bus.inhibit h.pending
    · exact (h.request hw).1
  clean := fun h hsw => by
    rcases pending_cases hw hp hf h with h | h
    · rw [h.set, (h.untouched _).dirty, h.addr, h.req]
      exact hw.bus.clean h.pending (h.opcode ▸ hsw)
    · obtain ⟨-, ⟨hop, -⟩ | ⟨-, hre, ha⟩⟩ := h.request hw
      · exact absurd hop hsw
      · have hmiss := (refills_miss hre).1
        have hset : (d.step i).cache.memReqSet = d.cache.cacheIdx := by
          rw [step_memReqSet, ha, setOf_lineOf, hw.port1.idx (miss_gotReq hmiss).1]
        rw [hset, h.untouched.dirty, miss_req hmiss]
        exact ⟨refills_clean hw hre, ha⟩
  set := fun hs => by
    rcases pending_cases hw hp hf (hw.state_pending (Or.inl hs)) with h | h
    · rw [h.set, h.req]
      exact hw.bus.set (h.state ▸ hs)
    · exact (h.inject hw hs).1
  lock := fun hs hsw => by
    rcases pending_cases hw hp hf (hw.state_pending (Or.inl hs)) with h | h
    · rw [h.lock]
      exact hw.bus.lock (h.state ▸ hs) (h.opcode ▸ hsw)
    · exact (h.inject hw hs).2.1 hsw
  issue := fun hs => by
    rcases pending_cases hw hp hf (hw.state_pending (Or.inl hs)) with h | h
    · rw [h.issue]
      exact hw.bus.issue (h.state ▸ hs)
    · exact (h.inject hw hs).2.2
  walk := fun hs => by
    rcases pending_cases hw hp hf (hw.state_pending (Or.inr (Or.inr hs))) with h | h
    · have hst := h.state ▸ hs
      rw [h.opcode, h.walk hst, h.set]
      exact hw.bus.walk hst
    · rcases h.state with ⟨-, h2, -⟩ | ⟨hfd, ⟨-, h2⟩ | ⟨h1, -⟩⟩
      · rw [hs] at h2
        cases h2
      · rw [hs] at h2
        cases h2
      · have ha : (d.step i).cache.memReqAddr = d.cache.victimAddr := by
          change d.cache.nMemReqAddr = _
          simp [L1d.nMemReqAddr, hfd]
        refine ⟨?_, ?_⟩
        · change d.cache.nMemReqOpcode = _
          simp [L1d.nMemReqOpcode, hfd]
        · rw [victim_set ha]
          change d.cache.tCacheIdx i = _
          simp [L1d.tCacheIdx, h1]
  flushCl := fun hs => by
    rcases pending_cases hw hp hf (hw.state_pending (Or.inr (Or.inl hs))) with h | h
    · rw [h.opcode]
      exact hw.bus.flushCl (h.state ▸ hs)
    · rcases h.state with ⟨-, h2, -⟩ | ⟨hfd, -⟩
      · rw [hs] at h2
        cases h2
      · change d.cache.nMemReqOpcode = _
        simp [L1d.nMemReqOpcode, hfd]

/-! ## Moves of lines -/

/-- What the cycle does to the arrays and memory. -/
def moved (d : DataSide) (i : L1dIn) : Cache SetIdx CacheTag Line :=
  if i.memRspValid = true then
    if d.cache.memReqOpcode = .SW then d.lines.writeBack d.cache.memReqSet i.memRspLoadData
    else d.lines.refill (tagOf d.cache.req.addr) d.cache.memReqSet
  else if d.cache.tWrArray = true then
    d.lines.store d.cache.cacheIdx (L1d.storeLine d.cache.req d.cache.arrayOut)
  else if d.cache.tMarkInvalid = true then d.lines.drop d.cache.cacheIdx
  else d.lines

theorem step_mem (h : ¬ (i.memRspValid = true ∧ d.cache.memReqOpcode = .SW)) :
    (d.step i).mem = d.mem := if_neg h

theorem Wf.rsp_idle (hw : d.Wf) (hp : d.Promised i) (hr : i.memRspValid = true) :
    d.cache.tWrArray = false ∧ d.cache.tMarkInvalid = false := by
  have hst := hw.bus.pending.mp (hp.pending hr)
  have hna : d.cache.state ≠ .ACTIVE := by rcases hst with hs | hs | hs <;> simp [hs]
  refine ⟨(hw.not_active hna).2.2.2, ?_⟩
  by_contra hm
  rw [Bool.not_eq_false] at hm
  have hm := tMarkInvalid_state hm
  rcases hst with hs | hs | hs <;> simp [hs] at hm

theorem Wf.step_lines_writeBack (hw : d.Wf) (hp : d.Promised i) (hr : i.memRspValid = true)
    (hsw : d.cache.memReqOpcode = .SW) :
    (d.step i).lines = d.lines.writeBack d.cache.memReqSet i.memRspLoadData := by
  have hpe := hp.pending hr
  have hm := (hw.rsp_idle hp hr).2
  have haddr := hw.bus.addr hpe hsw
  have hinh : d.cache.inhibitWrite = true := by rw [hw.bus.inhibit hpe, hsw]; rfl
  apply Cache.ext
  · change d.cache.nValidRam i = _
    rw [L1d.nValidRam, hm, hr, hinh]
    rfl
  · change d.cache.nDirtyRam i = _
    rw [L1d.nDirtyRam, L1d.tArrayWrEn, L1d.tArrayWrAddr, hr]
    rfl
  · change d.cache.nTagRam i = d.cache.tagRam
    rw [L1d.nTagRam, hr]
    refine (Function.update_eq_self_iff ..).mpr ?_
    rw [haddr, tagOf_lineAddr]
  · change d.cache.nDataRam i = _
    rw [L1d.nDataRam, L1d.tArrayWrEn, L1d.tArrayWrAddr, L1d.tArrayWrData, hr]
    rfl
  · funext t k
    have hmem : (d.step i).mem = Function.update d.mem d.cache.memReqAddr d.cache.memReqStoreData :=
      if_pos ⟨hr, hsw⟩
    change (d.step i).mem (lineAddr t k) = _
    rw [hmem, Cache.writeBack_mem, Function.update_apply, hw.bus.data hpe hsw]
    refine if_congr ?_ rfl rfl
    rw [haddr]
    constructor
    · intro h
      exact (lineAddr_inj h).symm
    · rintro ⟨rfl, rfl⟩
      rfl

theorem Wf.step_lines_refill (hw : d.Wf) (hp : d.Promised i) (hr : i.memRspValid = true)
    (hsw : d.cache.memReqOpcode ≠ .SW) :
    (d.step i).lines = d.lines.refill (tagOf d.cache.req.addr) d.cache.memReqSet := by
  have hpe := hp.pending hr
  have hm := (hw.rsp_idle hp hr).2
  have haddr := (hw.bus.clean hpe hsw).2
  have hinh : d.cache.inhibitWrite = false := by
    rw [hw.bus.inhibit hpe]
    exact beq_eq_false_iff_ne.mpr hsw
  have hset : d.cache.memReqSet = setOf d.cache.req.addr := by
    rw [L1d.memReqSet, haddr, setOf_lineOf]
  apply Cache.ext
  · change d.cache.nValidRam i = _
    rw [L1d.nValidRam, hm, hr, hinh]
    rfl
  · change d.cache.nDirtyRam i = _
    rw [L1d.nDirtyRam, L1d.tArrayWrEn, L1d.tArrayWrAddr, hr]
    rfl
  · change d.cache.nTagRam i = _
    rw [L1d.nTagRam, hr, haddr, tagOf_lineOf]
    rfl
  · change d.cache.nDataRam i = Function.update d.cache.dataRam d.cache.memReqSet
      (d.mem (lineAddr (tagOf d.cache.req.addr) d.cache.memReqSet))
    rw [L1d.nDataRam, L1d.tArrayWrEn, L1d.tArrayWrAddr, L1d.tArrayWrData, hr, if_pos rfl, if_pos rfl,
      hp.load hr hsw, hset, lineAddr_eq, ← haddr]
    rfl
  · funext t k
    change (d.step i).mem _ = d.mem _
    rw [step_mem fun h => hsw h.2]

/-- The arrays and memory make one move of a write-back cache. -/
theorem Wf.step_lines (hw : d.Wf) (hp : d.Promised i) : (d.step i).lines = d.moved i := by
  unfold moved
  by_cases hr : i.memRspValid = true
  · rw [if_pos hr]
    by_cases hsw : d.cache.memReqOpcode = .SW
    · rw [if_pos hsw, hw.step_lines_writeBack hp hr hsw]
    · rw [if_neg hsw, hw.step_lines_refill hp hr hsw]
  · rw [if_neg hr]
    rw [Bool.not_eq_true] at hr
    have hmem : (d.step i).mem = d.mem := step_mem fun h => by simp [hr] at h
    have htag : d.cache.nTagRam i = d.cache.tagRam := by rw [L1d.nTagRam, hr]; rfl
    by_cases hwr : d.cache.tWrArray = true
    · have hm : d.cache.tMarkInvalid = false := by
        by_contra hm
        rw [Bool.not_eq_false] at hm
        rcases tMarkInvalid_state hm with hs | hs <;> simp [tWrArray_state hw hwr] at hs
      rw [if_pos hwr]
      apply Cache.ext
      · change d.cache.nValidRam i = _
        rw [L1d.nValidRam, hm, hr]
        rfl
      · change d.cache.nDirtyRam i = _
        rw [L1d.nDirtyRam, L1d.tArrayWrEn, L1d.tArrayWrAddr, hr, hwr]
        rfl
      · exact htag
      · change d.cache.nDataRam i = _
        rw [L1d.nDataRam, L1d.tArrayWrEn, L1d.tArrayWrAddr, L1d.tArrayWrData, hr, hwr,
          L1d.tData_eq hw.port1]
        rfl
      · funext t k
        change (d.step i).mem _ = d.mem _
        rw [hmem]
    · rw [if_neg hwr]
      rw [Bool.not_eq_true] at hwr
      have hdirty : d.cache.nDirtyRam i = d.cache.dirtyRam := by
        rw [L1d.nDirtyRam, L1d.tArrayWrEn, hr, hwr]
        rfl
      have hdata : d.cache.nDataRam i = d.cache.dataRam := by
        rw [L1d.nDataRam, L1d.tArrayWrEn, hr, hwr]
        rfl
      have hvalid : d.cache.nValidRam i = if d.cache.tMarkInvalid = true then
          Function.update d.cache.validRam d.cache.cacheIdx false else d.cache.validRam := by
        rw [L1d.nValidRam, hr]
        rfl
      have hmk : (fun t k => (d.step i).mem (lineAddr t k)) = fun t k => d.mem (lineAddr t k) := by
        rw [hmem]
      have hl : (d.step i).lines = { d.lines with valid := d.cache.nValidRam i } :=
        Cache.ext rfl hdirty htag hdata hmk
      rw [hl, hvalid]
      split_ifs <;> rfl

theorem mark_clean (hw : d.Wf) (h : d.cache.tMarkInvalid = true) :
    d.lines.dirty d.cache.cacheIdx = false := by
  have hr : d.reads1 = true := by
    rcases tMarkInvalid_state h with hs | hs <;> simp [reads1, hs]
  have hd : d.cache.dirtyOut = false := by
    simp only [L1d.tMarkInvalid, Bool.and_eq_true, Bool.not_eq_true'] at h
    exact h.1
  exact (hw.reads.dirty hr).symm.trans hd

theorem store_valid (hw : d.Wf) (h : d.cache.tWrArray = true) :
    d.lines.valid d.cache.cacheIdx = true := by
  obtain ⟨hg, hh, -⟩ := tWrArray_hits h
  exact (hw.reads.valid (by simp [reads1, hg])).symm.trans (hits_tag hh).1

theorem Wf.step_coherent (hw : d.Wf) (hp : d.Promised i) : (d.step i).lines.Coherent := by
  rw [hw.step_lines hp, moved]
  split_ifs with hr hsw hwr hm
  · exact hw.coherent.writeBack ..
  · exact hw.coherent.refill ..
  · exact hw.coherent.store (store_valid hw hwr)
  · exact hw.coherent.drop (mark_clean hw hm)
  · exact hw.coherent

/-! ## Reloads -/

theorem Wf.lock_kept (hw : d.Wf) (hs : d.cache.state ≠ .ACTIVE) :
    (d.step i).cache.lockCache = d.cache.lockCache ∧ (d.step i).cache.req = d.cache.req := by
  obtain ⟨-, hfi, hm, -⟩ := hw.not_active hs
  obtain ⟨he, hre⟩ := noMiss_no_request hm
  constructor
  · change d.cache.nLockCache = _
    simp [L1d.nLockCache, he, hre]
  · change d.cache.nReq = _
    simp [L1d.nReq, hfi]

theorem nState_handle (h : d.cache.nState i = .HANDLE_RELOAD) :
    d.cache.state = .INJECT_RELOAD ∧ i.memRspValid = true := by
  cases hs : d.cache.state <;> simp only [L1d.nState, hs] at h <;> (try split_ifs at h) <;> simp_all

theorem Wf.step_reloads (hw : d.Wf) (hp : d.Promised i) : (d.step i).Reloads where
  handle := fun h => by
    obtain ⟨hs, hr⟩ := nState_handle h
    obtain ⟨hl, hq⟩ := hw.lock_kept (i := i) (by simp [hs])
    have hset := hw.bus.set hs
    rw [hq, hl]
    by_cases hsw : d.cache.memReqOpcode = .SW
    · refine Or.inr ⟨hw.bus.lock hs hsw, ?_⟩
      have hv : (d.step i).lines.valid (setOf d.cache.req.addr) = false := by
        rw [hw.step_lines_writeBack hp hr hsw, Cache.writeBack_valid, if_pos hset.symm]
      exact hv
    · left
      rw [hw.step_lines_refill hp hr hsw, hset]
      exact ⟨Function.update_self .., Function.update_self ..⟩
  reloaded := fun hg hd => by
    have hs : d.cache.state = .HANDLE_RELOAD := by
      have : (d.cache.state == .HANDLE_RELOAD) = true := hd
      simpa using this
    obtain ⟨hl, -⟩ := hw.lock_kept (i := i) (by simp [hs])
    have hidx : d.cache.tCacheIdx i = setOf d.cache.req.addr := by simp [L1d.tCacheIdx, hs]
    have htag : d.cache.tCacheTag = tagOf d.cache.req.addr := by
      simp [L1d.tCacheTag, (hw.not_active (by simp [hs])).2.1, hs]
    have hvo : (d.step i).cache.validOut = d.cache.validRam (setOf d.cache.req.addr) := by
      rw [← hidx]
      rfl
    rw [hl, hvo]
    refine (hw.reloads.handle hs).imp (fun hpr => ?_) id
    have hto : (d.step i).cache.tagOut = d.cache.tagRam (setOf d.cache.req.addr) := by
      rw [← hidx]
      rfl
    have hct : (d.step i).cache.cacheTag = tagOf d.cache.req.addr := htag
    rw [L1d.hits, hvo, hto, hct, show d.cache.validRam _ = true from hpr.1,
      show d.cache.tagRam _ = _ from hpr.2]
    simp

/-- The invariant is kept by every cycle that keeps flushes apart from misses. -/
theorem Wf.step (hw : d.Wf) (hp : d.Promised i) (hf : d.FlushesApart i) : (d.step i).Wf where
  holds := L1d.step_holds hw.holds fun ha => hp.request (by
    rw [L1d.accepts, Bool.and_eq_true] at ha
    exact ha.1)
  port1 := L1d.step_port1 hw.port1
  port2 := L1d.step_port2
  coherent := hw.step_coherent hp
  reads := hw.step_reads hp
  bus := hw.step_bus hp hf
  reloads := hw.step_reloads hp

/-! ## The view -/

theorem view_eq (d : DataSide) (a : Word) : d.view a =
    if d.cache.validRam (setOf a) = true ∧ d.cache.tagRam (setOf a) = tagOf a
    then d.cache.dataRam (setOf a) else d.mem (lineOf a) := by
  rw [← lineAddr_eq a]
  rfl

/-- What a port finds in its line is the latest contents of the line. -/
theorem Wf.hit_view (hw : d.Wf) (hg : d.cache.gotReq = true) (hh : d.cache.hits = true) :
    d.cache.tData = d.view d.cache.req.addr := by
  have hr : d.reads1 = true := by simp [reads1, hg]
  obtain ⟨hv, ht⟩ := hits_tag hh
  have hidx := hw.port1.idx hg
  rw [view_eq, L1d.tData_eq hw.port1, hw.reads.data hr, hidx, if_pos]
  refine ⟨?_, ?_⟩
  · rw [← hidx, ← hw.reads.valid hr, hv]
  · rw [← hidx, ← hw.reads.tag hr, ht, hw.port1.tag hg]

theorem Wf.hit_view2 (hw : d.Wf) (hg : d.cache.gotReq2 = true)
    (hh : d.cache.tPort2HitCache = true) : d.cache.tData2 = d.view d.cache.req2.addr := by
  have hidx := hw.port2.idx hg
  have hh' := hh
  simp only [L1d.tPort2HitCache, Bool.and_eq_true, beq_iff_eq] at hh'
  rw [view_eq, hw.reads.data2 hg hh, hidx, if_pos]
  refine ⟨?_, ?_⟩
  · rw [← hidx, ← hw.reads.valid2 hg, hh'.1]
  · rw [← hidx, ← hw.reads.tag2 hg, hh'.2, hw.port2.tag hg]

/-- Only a store at the first port changes the view, and it changes the line of its address. -/
theorem Wf.step_view (hw : d.Wf) (hp : d.Promised i) (a : Word) :
    (d.step i).view a =
      if d.cache.tWrArray = true ∧ lineOf a = lineOf d.cache.req.addr then
        L1d.storeLine d.cache.req (d.view d.cache.req.addr)
      else d.view a := by
  by_cases hr : i.memRspValid = true
  · have hpe := hp.pending hr
    refine Eq.trans ?_ (if_neg fun h => by simp [(hw.rsp_idle hp hr).1] at h).symm
    rw [view, view, hw.step_lines hp, moved, if_pos hr]
    split_ifs with hsw
    · rw [Cache.view_writeBack (hw.coherent.valid_of_dirty _ (hw.bus.dirty hpe hsw))]
    · rw [hw.coherent.view_refill (hw.bus.clean hpe hsw).1]
  · by_cases hwr : d.cache.tWrArray = true
    · obtain ⟨hg, hh, -⟩ := tWrArray_hits hwr
      have hread : d.reads1 = true := by simp [reads1, hg]
      have htag : d.cache.tagRam d.cache.cacheIdx = tagOf d.cache.req.addr := by
        rw [← hw.reads.tag hread, (hits_tag hh).2, hw.port1.tag hg]
      have hidx := hw.port1.idx hg
      rw [view, hw.step_lines hp, moved, if_neg hr, if_pos hwr, Cache.view_store (store_valid hw hwr),
        ← L1d.tData_eq hw.port1, hw.hit_view hg hh]
      refine if_congr ⟨fun h => ⟨hwr, ?_⟩, fun h => ?_⟩ rfl rfl
      · exact lineOf_inj (h.1.trans hidx) (h.2.trans htag)
      · have hs := congrArg setOf h.2
        have ht := congrArg tagOf h.2
        simp only [setOf_lineOf, tagOf_lineOf] at hs ht
        exact ⟨hs.trans hidx.symm, ht.trans htag.symm⟩
    · refine Eq.trans ?_ (if_neg fun h => hwr h.1).symm
      rw [view, view, hw.step_lines hp, moved, if_neg hr, if_neg hwr]
      split_ifs with hm
      · rw [hw.coherent.view_drop (mark_clean hw hm)]
      · rfl

end DataSide
end MipsCore
