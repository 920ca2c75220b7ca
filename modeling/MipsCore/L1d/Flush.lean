import MipsCore.L1d.Order

/-! # A full flush of the data cache

The walk of `FLUSH_CACHE` forgets the clean lines and writes the dirty ones back, set
by set, but ends as it reaches the last set, which it never looks at.  And a flush
that starts while the first port misses takes the place of the refill, so the request
of that port is lost.
-/
namespace MipsCore

/-- The walk is over; `flush_complete` pulses in the next cycle. -/
def L1d.walkEnds (s : L1d) : Bool := s.state == .FLUSH_CACHE && s.cacheIdx == lastSet

/-- The data side, with what it was as the last full flush was accepted. -/
structure Flushing where
  traced : Traced
  asked : DataSide

namespace Flushing
open WriteBack DataSide Traced
variable (f : Flushing) (i : L1dIn)

abbrev side : DataSide := f.traced.side
abbrev cache : L1d := f.traced.side.cache

def reset (m : L1dInit) (mem : Word → Line) : Flushing where
  traced := Traced.reset m mem
  asked := DataSide.reset m mem

def step : Flushing where
  traced := f.traced.step i
  asked := if f.cache.flushes i then f.side else f.asked

/-- The neighbours of the cache keep their promises. -/
abbrev Promised (f : Flushing) (i : L1dIn) : Prop := f.side.Promised i

/-- A flush starts only while the first port does not miss, and a full one only while the last set
holds no line. -/
structure Spares : Prop where
  apart : f.side.FlushesApart i
  last : f.cache.flushes i = true → f.cache.validRam lastSet = false

instance : Decidable (Spares f i) :=
  decidable_of_iff (f.side.FlushesApart i ∧
    (f.cache.flushes i = true → f.cache.validRam lastSet = false))
    ⟨fun h => ⟨h.1, h.2⟩, fun h => ⟨h.1, h.2⟩⟩

/-- Memory holds every line that was dirty and every byte that has been stored, no line is valid,
and every accepted request is still in hand or has been written, answered or squashed. -/
structure Flushed (mem : Word → Line) : Prop where
  written : ∀ k, f.asked.cache.dirtyRam k = true →
    f.side.mem (lineAddr (f.asked.cache.tagRam k) k) = f.asked.cache.dataRam k
  latest : ∀ a, f.side.mem (lineOf a) = f.traced.committed mem a
  empty : ∀ k, f.cache.validRam k = false
  kept : ∀ k < f.traced.trace.accepted.length, k ∈ f.traced.held ∨ k ∈ f.traced.trace.written ∨
    k ∈ f.traced.trace.squashed ∨ ∃ v, (k, v) ∈ f.traced.trace.answered

/-- A full flush that completes in this cycle leaves the cache flushed. -/
def Completes (mem : Word → Line) (f : Flushing) (i : L1dIn) : Prop :=
  f.cache.walkEnds = true → (f.step i).Flushed mem

/-- The walk is under way. -/
def Walking : Prop := f.cache.state = .FLUSH_CACHE ∨ f.cache.state = .FLUSH_CACHE_WAIT

/-- Behind the walk no line is valid; the view is the one that was asked to be flushed. -/
structure Behind : Prop where
  coherent : f.Walking → f.asked.lines.Coherent
  view : f.Walking → ∀ a, f.side.view a = f.asked.view a
  last : f.Walking → f.cache.validRam lastSet = false
  walked : f.cache.state = .FLUSH_CACHE →
    ∀ k, k.toNat < f.cache.cacheIdx.toNat → f.cache.validRam k = false
  waits : f.cache.state = .FLUSH_CACHE_WAIT → f.cache.memReqSet ≠ lastSet ∧
    ∀ k, k.toNat < f.cache.cacheIdx.toNat → k ≠ f.cache.memReqSet → f.cache.validRam k = false

variable {f i}

theorem reset_behind (m : L1dInit) (mem : Word → Line) : (reset m mem).Behind := by
  constructor <;> simp [Walking, reset, Traced.reset, DataSide.reset, L1d.reset]

theorem flushes_active (h : f.cache.flushes i = true) : f.cache.state = .ACTIVE := by
  simp only [L1d.flushes, Bool.and_eq_true, beq_iff_eq] at h
  exact h.1.1.1

theorem flushes_noWrite (hw : f.side.Wf) (h : f.cache.flushes i = true) :
    f.cache.tWrArray = false := by
  by_contra hwr
  rw [Bool.not_eq_false] at hwr
  have hg := (tWrArray_hits hwr).1
  have hl := hw.tWrArray_lastWr hwr
  simp [L1d.flushes, L1d.mayFlush, hg, hl] at h

theorem walking_noWrite (hw : f.side.Wf) (h : f.Walking) :
    f.cache.tWrArray = false ∧ f.cache.flushes i = false := by
  have hs : f.cache.state ≠ .ACTIVE := by rcases h with h | h <;> simp [h]
  refine ⟨(hw.not_active hs).2.2.2, ?_⟩
  by_contra hf
  rw [Bool.not_eq_false] at hf
  exact hs (flushes_active hf)

/-- A walk starts as a flush is accepted, or goes on. -/
theorem step_walking (h : (f.step i).Walking) :
    f.cache.flushes i = true ∨ f.Walking := by
  have hst : (f.step i).cache.state = f.cache.nState i := rfl
  rw [Walking, hst] at h
  cases hs : f.cache.state with
  | ACTIVE =>
    by_contra hc
    rw [not_or, Bool.not_eq_true] at hc
    simp only [L1d.nState, hs, hc.1, Bool.false_eq_true, if_false] at h
    split_ifs at h <;> simp at h
  | FLUSH_CACHE => exact Or.inr (Or.inl hs)
  | FLUSH_CACHE_WAIT => exact Or.inr (Or.inr hs)
  | _ =>
    exfalso
    simp only [L1d.nState, hs] at h
    try split_ifs at h
    all_goals simp at h

theorem step_valid (hw : f.side.Wf) (hp : f.Promised i) (k : SetIdx) :
    (f.step i).cache.validRam k = (f.side.moved i).valid k := by
  have h := congrArg (fun c => Cache.valid c k) (hw.step_lines hp)
  exact h

/-- No line becomes valid during a walk. -/
theorem walking_valid (hw : f.side.Wf) (hp : f.Promised i)
    (h : f.cache.flushes i = true ∨ f.Walking) {k : SetIdx} (hk : f.cache.validRam k = false) :
    (f.step i).cache.validRam k = false := by
  rw [step_valid hw hp, moved]
  have hwr : f.cache.tWrArray = false := h.elim (flushes_noWrite hw) fun h => (walking_noWrite (i := i) hw h).1
  split_ifs with hr hsw hwr' hm
  · rw [Cache.writeBack_valid]
    split_ifs
    · rfl
    · exact hk
  · exfalso
    have hst := hw.bus.pending.mp (hp.pending hr)
    rcases h with h | h | h
    · simp [flushes_active h] at hst
    · simp [h] at hst
    · exact hsw (hw.bus.walk h).1
  · simp [hwr] at hwr'
  · change Function.update f.cache.validRam f.cache.cacheIdx false k = false
    rw [Function.update_apply]
    split_ifs
    · rfl
    · exact hk
  · exact hk

theorem walking_view (hw : f.side.Wf) (hp : f.Promised i)
    (h : f.cache.flushes i = true ∨ f.Walking) (a : Word) :
    (f.step i).side.view a = f.side.view a := by
  have hwr : f.cache.tWrArray = false := h.elim (flushes_noWrite hw) fun h => (walking_noWrite (i := i) hw h).1
  refine (hw.step_view hp a).trans (if_neg fun hc => ?_)
  simp [hwr] at hc

theorem step_asked (h : f.cache.flushes i = false) : (f.step i).asked = f.asked := by
  change (if f.cache.flushes i = true then f.side else f.asked) = _
  simp [h]

theorem step_asked_flushes (h : f.cache.flushes i = true) : (f.step i).asked = f.side := if_pos h

/-- The set that the walk looks at is invalid after the cycle, or its line is on the way to
memory. -/
theorem Behind.step_walked (hb : f.Behind) (hw : f.side.Wf) (hp : f.Promised i)
    (hs : f.cache.state = .FLUSH_CACHE) (hne : f.cache.cacheIdx ≠ lastSet) {k : SetIdx}
    (hk : k.toNat < (f.step i).cache.cacheIdx.toNat) :
    k = f.cache.cacheIdx ∨ (f.step i).cache.validRam k = false := by
  have hidx : (f.step i).cache.cacheIdx = f.cache.cacheIdx + 1 := by
    change f.cache.tCacheIdx i = _
    simp [L1d.tCacheIdx, hs]
  have hlt : f.cache.cacheIdx.toNat < 4095 := by
    have := f.cache.cacheIdx.isLt
    have : f.cache.cacheIdx.toNat ≠ 4095 := fun h => hne (BitVec.eq_of_toNat_eq h)
    omega
  have hnat : (f.cache.cacheIdx + 1).toNat = f.cache.cacheIdx.toNat + 1 := by
    rw [BitVec.toNat_add]
    exact Nat.mod_eq_of_lt (by simp; omega)
  rw [hidx, hnat] at hk
  rcases eq_or_ne k f.cache.cacheIdx with rfl | hkne
  · exact Or.inl rfl
  · have : k.toNat ≠ f.cache.cacheIdx.toNat := fun h => hkne (BitVec.eq_of_toNat_eq h)
    have hk' : k.toNat < f.cache.cacheIdx.toNat := by omega
    exact Or.inr (walking_valid hw hp (Or.inr (Or.inl hs)) (hb.walked hs k hk'))

theorem Behind.step (hb : f.Behind) (hw : f.side.Wf) (hp : f.Promised i) (hsp : f.Spares i) :
    (f.step i).Behind where
  coherent := fun h => by
    rcases step_walking h with hf | hwk
    · rw [step_asked_flushes hf]
      exact hw.coherent
    · rw [step_asked (walking_noWrite hw hwk).2]
      exact hb.coherent hwk
  view := fun h a => by
    have hv := step_walking h
    rw [walking_view hw hp hv]
    rcases hv with hf | hwk
    · rw [step_asked_flushes hf]
    · rw [step_asked (walking_noWrite hw hwk).2]
      exact hb.view hwk a
  last := fun h => by
    have hv := step_walking h
    exact walking_valid hw hp hv (hv.elim hsp.last hb.last)
  walked := fun h k hk => by
    have hst : f.cache.nState i = .FLUSH_CACHE := h
    cases hs : f.cache.state with
    | ACTIVE =>
      have hf : f.cache.flushes i = true := by
        rcases step_walking (Or.inl h) with hf | hf | hf
        · exact hf
        · simp [hs] at hf
        · simp [hs] at hf
      have hidx : (f.step i).cache.cacheIdx = 0 := by
        change f.cache.tCacheIdx i = _
        simp [L1d.tCacheIdx, hs, hf]
      rw [hidx] at hk
      simp at hk
    | FLUSH_CACHE =>
      simp only [L1d.nState, hs] at hst
      split_ifs at hst with hl hd
      have hne : f.cache.cacheIdx ≠ lastSet := by simpa using hl
      rcases hb.step_walked hw hp hs hne hk with rfl | hv
      · rw [Bool.not_eq_true] at hd
        have hr : i.memRspValid = false :=
          hp.quiet (hw.bus.idle (by simp [hs]) (by simp [hs]) (by simp [hs]))
        have hwr := (walking_noWrite (i := i) hw (Or.inl hs)).1
        have hm : f.cache.tMarkInvalid = true := by simp [L1d.tMarkInvalid, hs, hd, hne]
        rw [step_valid hw hp, moved, hr, hwr, hm]
        exact Function.update_self ..
      · exact hv
    | FLUSH_CACHE_WAIT =>
      have hr : i.memRspValid = true := by
        by_contra hr
        simp [L1d.nState, hs, hr] at hst
      have hidx : (f.step i).cache.cacheIdx = f.cache.cacheIdx := by
        change f.cache.tCacheIdx i = _
        simp [L1d.tCacheIdx, hs]
      rw [hidx] at hk
      by_cases hke : k = f.cache.memReqSet
      · rw [step_valid hw hp, moved, if_pos hr, if_pos (hw.bus.walk hs).1, Cache.writeBack_valid,
          if_pos hke]
      · exact walking_valid hw hp (Or.inr (Or.inr hs)) ((hb.waits hs).2 k hk hke)
    | _ =>
      exfalso
      simp only [L1d.nState, hs] at hst
      try split_ifs at hst
      all_goals simp at hst
  waits := fun h => by
    have hst : f.cache.nState i = .FLUSH_CACHE_WAIT := h
    cases hs : f.cache.state with
    | ACTIVE =>
      exfalso
      simp only [L1d.nState, hs] at hst
      split_ifs at hst
    | FLUSH_CACHE =>
      simp only [L1d.nState, hs] at hst
      split_ifs at hst with hl hd
      have hne : f.cache.cacheIdx ≠ lastSet := by simpa using hl
      have hfd : f.cache.flushesDirty = true := by simp [L1d.flushesDirty, hs, hd, hne]
      have hset : (f.step i).cache.memReqSet = f.cache.cacheIdx := by
        refine victim_set (d := f.side) (i := i) ?_
        change f.cache.nMemReqAddr = _
        simp [L1d.nMemReqAddr, hfd]
      rw [hset]
      refine ⟨hne, fun k hk hke => ?_⟩
      exact (hb.step_walked hw hp hs hne hk).resolve_left hke
    | FLUSH_CACHE_WAIT =>
      have hr : i.memRspValid = false := by
        by_contra hr
        rw [Bool.not_eq_false] at hr
        simp [L1d.nState, hs, hr] at hst
      have hwait := hw.waits (hw.bus.pending.mpr (by simp [hs])) hr
      have hset : (f.step i).cache.memReqSet = f.cache.memReqSet := hwait.set
      have hidx : (f.step i).cache.cacheIdx = f.cache.cacheIdx := hwait.walk hs
      rw [hset, hidx]
      refine ⟨(hb.waits hs).1, fun k hk hke => ?_⟩
      exact walking_valid hw hp (Or.inr (Or.inr hs)) ((hb.waits hs).2 k hk hke)
    | _ =>
      exfalso
      simp only [L1d.nState, hs] at hst
      try split_ifs at hst
      all_goals simp at hst

theorem Behind.ends (hb : f.Behind) (h : f.cache.walkEnds = true) (k : SetIdx) :
    f.cache.validRam k = false := by
  simp only [L1d.walkEnds, Bool.and_eq_true, beq_iff_eq] at h
  rcases eq_or_ne k lastSet with rfl | hne
  · exact hb.last (Or.inl h.1)
  · refine hb.walked h.1 k ?_
    rw [h.2]
    have := k.isLt
    have : k.toNat ≠ 4095 := fun he => hne (BitVec.eq_of_toNat_eq he)
    change k.toNat < 4095
    omega

/-- The invariant of a run in which flushes spare misses and the last set. -/
structure Inv (mem : Word → Line) (f : Flushing) : Prop where
  fates : f.traced.Fates mem
  behind : f.Behind

variable {mem : Word → Line}

theorem reset_inv (m : L1dInit) (mem : Word → Line) : Inv mem (reset m mem) :=
  ⟨reset_fates m mem, reset_behind m mem⟩

theorem Inv.step (h : Inv mem f) (hp : f.Promised i) (hs : f.Spares i) : Inv mem (f.step i) :=
  ⟨h.fates.step hp hs.apart, h.behind.step h.fates.custody.side hp hs⟩

theorem Inv.completes (h : Inv mem f) (hp : f.Promised i) (hs : f.Spares i) :
    f.Completes mem i := by
  intro hend
  have hw := h.fates.custody.side
  have hwalk : f.Walking := by
    simp only [L1d.walkEnds, Bool.and_eq_true, beq_iff_eq] at hend
    exact Or.inl hend.1
  have hfl := (walking_noWrite (i := i) hw hwalk).2
  have hempty : ∀ k, (f.step i).cache.validRam k = false := fun k =>
    walking_valid hw hp (Or.inr hwalk) (h.behind.ends hend k)
  have hmem : ∀ a, (f.step i).side.view a = (f.step i).side.mem (lineOf a) := fun a => by
    rw [view_eq, if_neg fun hc => by simp [hempty] at hc]
  have hnext := h.fates.step hp hs.apart
  refine ⟨fun k hk => ?_, fun a => ?_, hempty, hnext.complete⟩
  · rw [step_asked hfl] at hk ⊢
    have hv := (h.behind.coherent hwalk).valid_of_dirty k hk
    have hm := hmem (lineAddr (f.asked.cache.tagRam k) k)
    rw [← lineAddr_eq, tagOf_lineAddr, setOf_lineAddr] at hm
    rw [← hm, walking_view hw hp (Or.inr hwalk), h.behind.view hwalk, view_eq, setOf_lineAddr,
      tagOf_lineAddr, if_pos ⟨hv, rfl⟩]
  · rw [← hmem]
    exact hnext.view a

/-- A cycle without any input. -/
def quiet : L1dIn := {}

/-- The walk goes over clean sets up to the last one. -/
structure WalksClean (s : L1d) : Prop where
  state : s.state = .FLUSH_CACHE
  gotReq : s.gotReq = false
  dirty : s.dirtyOut = s.dirtyRam s.cacheIdx
  clean : ∀ k ≠ lastSet, s.dirtyRam k = false

/-- A cycle of the walk that no neighbour disturbs. -/
theorem WalksClean.step {s : L1d} (h : WalksClean s) (hne : s.cacheIdx ≠ lastSet) :
    WalksClean (s.step quiet) ∧ (s.step quiet).cacheIdx = s.cacheIdx + 1 ∧
      (s.step quiet).validRam lastSet = s.validRam lastSet := by
  have hd : s.dirtyOut = false := h.dirty.trans (h.clean _ hne)
  have hfi : s.fires = false := (L1d.not_active_idle (i := {}) (by simp [h.state])).1
  have hwr : s.tWrArray = false := by simp [L1d.tWrArray, L1d.tHitCache, h.gotReq]
  have hdirty : s.nDirtyRam quiet = s.dirtyRam := by
    rw [L1d.nDirtyRam, L1d.tArrayWrEn, hwr]
    rfl
  have hidx : s.tCacheIdx quiet = s.cacheIdx + 1 := by simp [L1d.tCacheIdx, h.state]
  refine ⟨⟨?_, ?_, ?_, fun k hk => ?_⟩, hidx, ?_⟩
  · change s.nState quiet = _
    simp [L1d.nState, h.state, hne, hd]
  · change s.tGotReq = false
    simp [L1d.tGotReq, hfi, h.state]
  · change s.dirtyRam _ = s.nDirtyRam quiet _
    rw [hdirty]
    rfl
  · change s.nDirtyRam quiet k = false
    rw [hdirty]
    exact h.clean k hk
  · have hm : s.tMarkInvalid = true := by simp [L1d.tMarkInvalid, hd, h.state, hne]
    change s.nValidRam quiet lastSet = _
    rw [L1d.nValidRam, hm]
    exact Function.update_of_ne hne.symm ..

/-- The walk comes to the last set and leaves it as it was. -/
theorem walk_clean (n : ℕ) {f : Flushing} (h : WalksClean f.cache)
    (hn : f.cache.cacheIdx.toNat + n = 4095) :
    let e := Clocked.run step f (List.replicate n quiet)
    e.cache.walkEnds = true ∧ e.cache.validRam lastSet = f.cache.validRam lastSet ∧
      Clocked.Guarded step (fun f i => f.Promised i ∧ f.Spares i) f (List.replicate n quiet) := by
  induction n generalizing f with
  | zero =>
    have hidx : f.cache.cacheIdx = lastSet := BitVec.eq_of_toNat_eq hn
    simp [L1d.walkEnds, h.state, hidx]
  | succ n ih =>
    have hne : f.cache.cacheIdx ≠ lastSet := by
      intro hc
      rw [hc] at hn
      change 4095 + (n + 1) = 4095 at hn
      omega
    obtain ⟨hw, hidx, hv⟩ := h.step hne
    have hlt : (f.cache.cacheIdx + 1).toNat = f.cache.cacheIdx.toNat + 1 := by
      rw [BitVec.toNat_add]
      exact Nat.mod_eq_of_lt (by simp; omega)
    have hstep : (f.step quiet).cache = f.cache.step quiet := rfl
    obtain ⟨he, hve, hg⟩ := ih (f := f.step quiet) (by rw [hstep]; exact hw) (by
      rw [hstep, hidx, hlt]
      omega)
    have hnf : f.cache.flushes quiet = false ∧ f.cache.flushesCl quiet = false := by
      simp [L1d.flushes, L1d.flushesCl, h.state]
    refine ⟨he, hve.trans (by rw [hstep, hv]), ⟨⟨?_, ?_⟩, hg⟩⟩
    · constructor <;> simp [quiet]
    · refine ⟨fun hc => ?_, fun hc => ?_⟩
      · rw [hnf.1, hnf.2] at hc
        cases hc
      · rw [hnf.1] at hc
        cases hc

/-- A request, the cycles until its line is refilled and it finds it, and a full flush. -/
def flushAfter (r : MemReq) : List L1dIn :=
  [{ coreMemReqValid := true, coreMemReq := r }, quiet, { retiredRobPtrValid := true }, quiet, quiet,
    { memRspValid := true }, quiet, { flushReq := true }, quiet]

/-- The whole flush: the walk over all sets and the cycle in which it completes. -/
def wholeFlush (r : MemReq) : List L1dIn :=
  flushAfter r ++ (List.replicate 4095 quiet ++ [quiet])

def loadFirst : MemReq := { op := .LW }
def storeLast : MemReq := { addr := 0xfff0, isStore := true, op := .SW, data := 1 }

/-- The state in which the walk begins. -/
def atWalk (r : MemReq) : Flushing := Clocked.run step (reset {} fun _ => 0) (flushAfter r)

/-- What the run before the walk shows: it begins at the first set, and only the set of a written
request can be dirty. -/
theorem atWalk_clean {r : MemReq}
    (hg : Clocked.Guarded step (fun f i => f.Promised i ∧ f.side.FlushesApart i)
      (reset {} fun _ => 0) (flushAfter r))
    (he : (decide ((atWalk r).cache.state = .FLUSH_CACHE) && !(atWalk r).cache.gotReq &&
      !(atWalk r).cache.dirtyOut && !(atWalk r).cache.dirtyRam (atWalk r).cache.cacheIdx) = true)
    (hw : ∀ w ∈ (atWalk r).traced.trace.written, ∀ q, (atWalk r).traced.req w = some q →
      setOf q.addr = lastSet) : WalksClean (atWalk r).cache := by
  simp only [Bool.and_eq_true, Bool.not_eq_true', decide_eq_true_eq] at he
  obtain ⟨⟨⟨hs, hgr⟩, hd⟩, hdr⟩ := he
  have hinv := @Clocked.Guarded.invariant _ _ step _
    (fun f => f.traced.Fates (fun _ => 0) ∧ f.traced.DirtyWritten)
    (fun f i hi hgi => ⟨hi.1.step hgi.1 hgi.2, hi.1.step_dirtyWritten hi.2⟩) _ _ hg
    ⟨reset_fates {} _, reset_dirtyWritten {} _⟩
  refine ⟨hs, hgr, hd.trans hdr.symm, fun k hk => ?_⟩
  by_contra hc
  rw [Bool.not_eq_false] at hc
  obtain ⟨w, hwm, q, hq, hset⟩ := hinv.2 k hc
  exact hk (hset ▸ hw w hwm q hq)

theorem ends_quiet {f : Flushing} (h : f.cache.walkEnds = true) :
    f.Promised quiet ∧ f.Spares quiet ∧
      (f.step quiet).cache.validRam lastSet = f.cache.validRam lastSet := by
  simp only [L1d.walkEnds, Bool.and_eq_true, beq_iff_eq] at h
  have h1 : f.cache.flushes quiet = false := by simp [L1d.flushes, h.1]
  have h2 : f.cache.flushesCl quiet = false := by simp [L1d.flushesCl, h.1]
  have hm : f.cache.tMarkInvalid = false := by simp [L1d.tMarkInvalid, h.1, h.2]
  refine ⟨by constructor <;> simp [quiet], ⟨fun hc => ?_, fun hc => ?_⟩, ?_⟩
  · rw [h1, h2] at hc
    cases hc
  · rw [h1] at hc
    cases hc
  · change f.cache.nValidRam quiet lastSet = _
    rw [L1d.nValidRam, hm]
    rfl

end Flushing
end MipsCore
