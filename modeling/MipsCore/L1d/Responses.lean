import MipsCore.L1d.Order
import Mathlib.Algebra.Order.Group.Multiset
import Mathlib.Tactic.Abel

/-! # One fate and one response for every request

Every accepted request is in hand, written, squashed or answered, in one place only.  The core
gets one response for each, which for a store comes before it is written, and the counter of the
requests in flight counts those that the core still waits for.
-/
namespace MipsCore
namespace Traced
open DataSide Ledger
variable {t : Traced} {i : L1dIn} {mem : Word → Line}

/-! ## One fate -/

/-- The numbers of the answered requests. -/
def answeredNums (t : Traced) : List ℕ := t.trace.answered.map Prod.fst

/-- The requests that are no longer in hand. -/
def finished (t : Traced) : List ℕ := t.trace.written ++ t.trace.squashed ++ t.answeredNums

def storeNum (t : Traced) (k : ℕ) : Bool := (t.req k).any MemReq.isStore

/-- The stores that have not been squashed, in program order. -/
def keptStores (t : Traced) : List ℕ :=
  (List.range t.trace.accepted.length).filter fun k => t.storeNum k && !t.trace.squashed.contains k

/-- What leaves at the front of the line. -/
theorem Custody.front_fates (hc : t.Custody) : t.front i =
    (if t.cache.tWrArray then [t.trace.first] else []) ++
      (if t.cache.loadHit then [t.trace.first] else []) ++
        if t.cache.tForceClearBusy i then [t.trace.queue.headD 0] else [] := by
  rw [front]
  congr 1
  cases hg : t.cache.gotReq with
  | false =>
    have hs : t.cache.serves = false := by simp [L1d.serves, hg]
    have hw : t.cache.tWrArray = false := by
      rw [L1d.tWrArray_eq hc.side.port1, hs, Bool.and_false, Bool.false_and]
    simp [L1d.loadHit, hs, hw]
  | true =>
    have hwf : t.cache.req.isStore = L1d.writesArray t.cache.req.op := hc.side.req_wellFormed hg
    rw [L1d.tWrArray_eq hc.side.port1, ← hwf, L1d.loadHit]
    cases t.cache.serves <;> cases t.cache.hits <;> cases t.cache.req.isStore <;> rfl

/-- What leaves at its end. -/
theorem Custody.back_fates (hc : t.Custody) : t.back i =
    (if t.drains2 i then [t.trace.second] else []) ++
      if t.replies2 i then [t.trace.second] else [] := by
  rw [back]
  cases hs : t.cache.serves2 with
  | false => simp [drains2, replies2, hs]
  | true =>
    cases hp : t.cache.tPushMiss i with
    | true =>
      have hd : i.drainDsComplete = false := by
        simp only [L1d.tPushMiss, L1d.looksUp2, Bool.and_eq_true, Bool.not_eq_true'] at hp
        exact hp.1.1.1.2
      simp [drains2, replies2, hp, hd]
    | false =>
      rcases back_cases hc.side hs hp with hd | hr
      · have hnr : t.replies2 i = false := by
          simp only [drains2, Bool.and_eq_true] at hd
          simp [replies2, hd.2]
        simp [hd, hnr]
      · have hnd : t.drains2 i = false := by
          simp only [replies2, Bool.and_eq_true, Bool.not_eq_true'] at hr
          simp [drains2, hr.1.1.2]
        simp [hr, hnd]

/-- What leaves the line in a cycle is finished there. -/
theorem Custody.settles (hc : t.Custody) :
    (t.step i).finished.Perm (t.finished ++ (t.front i ++ t.back i)) := by
  rw [hc.front_fates, hc.back_fates, ← Multiset.coe_eq_coe]
  have hanswered : (t.step i).answeredNums = t.answeredNums ++
      (if t.cache.loadHit then [t.trace.first] else []) ++
        if t.replies2 i then [t.trace.second] else [] := by
    change (t.trace.answered ++ _ ++ _).map Prod.fst = _
    rw [List.map_append, List.map_append]
    cases t.cache.loadHit <;> cases t.replies2 i <;> rfl
  have hsquashed : (t.step i).trace.squashed = t.trace.squashed ++
      (if t.cache.tForceClearBusy i then [t.trace.queue.headD 0] else []) ++
        if t.drains2 i then [t.trace.second] else [] := rfl
  rw [finished, finished, written_eq, hsquashed, hanswered]
  simp only [← Multiset.coe_add]
  abel

/-- Every accepted request is in one place. -/
def Once (t : Traced) : Prop := (t.finished ++ t.held).Perm (List.range t.trace.accepted.length)

theorem Once.step (h : t.Once) (hc : t.Custody) (hf : t.side.FlushesApart i) : (t.step i).Once := by
  rw [Once, step_accepted_length]
  exact List.Perm.trans (List.Perm.append_right _ hc.settles) ((hc.moves hf).perm_range h)

/-- The requests have one fate each, the stores are written in program order, and once none is in
hand the lines are those that the stores leave which have not been squashed. -/
structure Conserved (t : Traced) (mem : Word → Line) : Prop where
  once : t.Once
  inOrder : t.trace.written.Pairwise (· < ·)
  written : ∀ k ∈ t.trace.written, ∃ r, t.req k = some r ∧ r.isStore = true
  answered : ∀ k ∈ t.answeredNums, ∃ r, t.req k = some r ∧ r.isStore = false
  quiet : t.held = [] → ∀ a, t.side.view a = ((t.keptStores).filterMap t.req).foldl commit
    (fun a => mem (lineOf a)) a

theorem mem_answeredNums {k : ℕ} (h : t.Fates mem) (hk : k ∈ t.answeredNums) :
    ∃ r, t.req k = some r ∧ r.isStore = false := by
  obtain ⟨p, hp, rfl⟩ := List.mem_map.mp hk
  exact h.answered p hp

/-- With nothing in hand the written stores are all that have not been squashed. -/
theorem Fates.keptStores (h : t.Fates mem) (ho : t.Once) (hh : t.held = []) :
    t.keptStores = t.trace.written := by
  rw [Once, hh, List.append_nil] at ho
  have hnd : t.finished.Nodup := ho.nodup_iff.mpr List.nodup_range
  have hmem : ∀ k, k ∈ t.finished ↔ k < t.trace.accepted.length := fun k => by
    rw [ho.mem_iff, List.mem_range]
  refine List.Perm.eq_of_pairwise (fun a b _ _ (hab : a < b) hba => ?_) ?_ h.sorted ?_
  · exact absurd (Nat.lt_trans hab hba) (Nat.lt_irrefl a)
  · exact List.Pairwise.filter _ List.pairwise_lt_range
  · have hw : t.trace.written.Nodup := h.sorted.imp fun hab => Nat.ne_of_lt hab
    refine (List.perm_ext_iff_of_nodup (List.nodup_range.filter _) hw).mpr fun k => ?_
    have hsplit : k ∈ t.finished ↔ k ∈ t.trace.written ∨ k ∈ t.trace.squashed ∨ k ∈ t.answeredNums := by
      rw [finished, List.mem_append, List.mem_append, or_assoc]
    simp only [List.mem_filter, List.mem_range, ← hmem, Bool.and_eq_true, Bool.not_eq_true',
      List.contains_eq_mem, decide_eq_false_iff_not]
    constructor
    · rintro ⟨hk, hst, hsq⟩
      rcases hsplit.mp hk with hk | hk | hk
      · exact hk
      · exact absurd hk hsq
      · obtain ⟨r, hr, hld⟩ := mem_answeredNums h hk
        simp [storeNum, hr, hld] at hst
    · intro hk
      obtain ⟨r, hr, hst⟩ := h.written k hk
      refine ⟨hsplit.mpr (Or.inl hk), by simp [storeNum, hr, hst], fun hsq => ?_⟩
      exact h.squashed_written hsq hk

theorem Fates.conserved (h : t.Fates mem) (ho : t.Once) : t.Conserved mem where
  once := ho
  inOrder := h.sorted
  written := h.written
  answered := fun k hk => mem_answeredNums h hk
  quiet := fun hh a => by
    rw [h.keptStores ho hh]
    exact h.view a

/-- A store that is written, a load that is answered, and a store that is squashed in the queue. -/
def storeLoadSquash : List L1dIn :=
  let quiet : L1dIn := {}
  let sweep : L1dIn := { drainDsComplete := true, deadRobMask := 0x4 }
  [{ coreMemReqValid := true, coreMemReq := { isStore := true, op := .SW, data := 1 } }, quiet,
    { retiredRobPtrValid := true }, quiet, quiet, { memRspValid := true }, quiet, quiet,
    { coreMemReqValid := true, coreMemReq := { op := .LW, robPtr := 1 } }, quiet,
    { coreMemReqValid := true, coreMemReq := { isStore := true, op := .SW, robPtr := 2 } }, quiet,
    sweep, sweep, sweep]

def loadNum (t : Traced) (k : ℕ) : Bool := (t.req k).any fun r => !r.isStore

/-- The requests in hand that the core waits for: those that have just arrived, and the loads. -/
def unanswered (t : Traced) : List ℕ :=
  ((if t.cache.busy1 then [t.trace.first] else []) ++ t.trace.queue).filter t.loadNum ++
    if t.cache.gotReq2 then [t.trace.second] else []

/-- The requests that get their response in a cycle. -/
def responds (t : Traced) (i : L1dIn) : List ℕ :=
  (if t.cache.loadHit then [t.trace.first] else []) ++
    if t.cache.answers2 i then [t.trace.second] else []

theorem loadNum_step {k : ℕ} (h : k < t.trace.accepted.length) : (t.step i).loadNum k = t.loadNum k := by
  rw [loadNum, req_step h, loadNum]

/-- Of what leaves at the front only the loads are waited for. -/
theorem Custody.front_loads (hc : t.Custody) :
    (t.front i).filter t.loadNum = if t.cache.loadHit then [t.trace.first] else [] := by
  rw [hc.front_fates, List.filter_append, List.filter_append]
  have hwr : (if t.cache.tWrArray then [t.trace.first] else []).filter t.loadNum = [] := by
    split_ifs with hw
    · have hr := hc.first (tWrArray_busy1 hc.side hw).1
      obtain ⟨hg, -, ho⟩ := tWrArray_hits hw
      have hst : t.cache.req.isStore = true := (hc.side.req_wellFormed hg).trans ho
      simp [loadNum, hr, hst]
    · rfl
  have hcl : (if t.cache.tForceClearBusy i then [t.trace.queue.headD 0] else []).filter t.loadNum =
      [] := by
    split_ifs with hcl
    · have hco := L1d.tForceClearBusy_considers hcl
      obtain ⟨k, rest, hq, hk⟩ := hc.queue_head (L1d.considers_nonempty hco)
      have hst : t.cache.tMemHead.isStore = true := by
        simp only [L1d.tForceClearBusy, Bool.and_eq_true] at hcl
        exact hcl.1.1.1.2
      simp [loadNum, hq, hk, hst]
    · rfl
  have hld : (if t.cache.loadHit then [t.trace.first] else []).filter t.loadNum =
      if t.cache.loadHit then [t.trace.first] else [] := by
    split_ifs with hl
    · simp only [L1d.loadHit, L1d.serves, Bool.and_eq_true, Bool.not_eq_true', beq_iff_eq] at hl
      have hr := hc.first (by simp [L1d.busy1, hl.1.1.1, hl.1.1.2])
      simp [loadNum, hr, hl.2]
    · rfl
  rw [hwr, hcl, hld, List.nil_append, List.append_nil]

/-- The second port answers its request or queues a load. -/
theorem Custody.back_loads (hc : t.Custody) : (if t.cache.gotReq2 then [t.trace.second] else []) =
    (if t.cache.answers2 i then [t.trace.second] else []) ++
      (if t.cache.tPushMiss i then [t.trace.second] else []).filter t.loadNum := by
  cases hp : t.cache.tPushMiss i with
  | false =>
    rw [L1d.answers2, hp, L1d.serves2_eq hc.side.port2]
    simp
  | true =>
    have hs2 := tPushMiss_serves2 hp
    have hg : t.cache.gotReq2 = true := by rw [← L1d.serves2_eq hc.side.port2, hs2]
    have hr := hc.second hg
    rw [L1d.answers2, hp, hs2, hg]
    cases hst : t.cache.req2.isStore <;> simp [loadNum, hr, hst]

/-- A cycle gives its responses and keeps the other requests waiting in order. -/
theorem Custody.waits (hc : t.Custody) (hf : t.side.FlushesApart i) :
    Moves t.unanswered t.trace.accepted.length (t.cache.accepts i) (t.responds i)
      (t.step i).unanswered := by
  have hfront := congrArg (List.filter t.loadNum) (front_eq hc hf)
  rw [List.filter_append (t.front i), hc.front_loads] at hfront
  have hlt : ∀ k ∈ t.held, k < t.trace.accepted.length := hc.ordered.bound
  have hnext : (t.step i).unanswered =
      ((if (t.step i).cache.busy1 then [(t.step i).trace.first] else []) ++
        t.trace.queue.drop (t.cache.tPopMq i).toNat).filter t.loadNum ++
      (if t.cache.tPushMiss i then [t.trace.second] else []).filter t.loadNum ++
        arriving (t.cache.accepts i) t.trace.accepted.length := by
    have hq : (t.step i).trace.queue = t.trace.queue.drop (t.cache.tPopMq i).toNat ++
      if t.cache.tPushMiss i then [t.trace.second] else [] := rfl
    have hs : (t.step i).trace.second =
      if t.cache.accepts i then t.trace.accepted.length else t.trace.second := rfl
    have hg : (t.step i).cache.gotReq2 = t.cache.accepts i := accepts_eq.symm
    rw [unanswered, hq, hs, hg, arriving, ← List.append_assoc, ← List.filter_append]
    congr 1
    · refine List.filter_congr fun k hk => loadNum_step (hlt k ?_)
      rw [held, front_eq hc hf, back_eq (i := i) hc.side]
      rcases List.mem_append.mp hk with hk | hk
      · exact List.mem_append_left _ (List.mem_append_right _ hk)
      · exact List.mem_append_right _ (List.mem_append_right _ hk)
    · cases t.cache.accepts i <;> rfl
  rw [hnext, unanswered, hfront, hc.back_loads (i := i)]
  exact moves_ends

end Traced

/-! ## The counter -/

/-- The cache and the numbers of the requests that it has responded to. -/
structure Responding where
  traced : Traced
  responded : List ℕ

namespace Responding
open DataSide Ledger Traced
variable (x : Responding) (i : L1dIn)

abbrev cache : L1d := x.traced.cache

def reset (m : L1dInit) (mem : Word → Line) : Responding where
  traced := Traced.reset m mem
  responded := []

def step : Responding where
  traced := x.traced.step i
  responded := x.responded ++ x.traced.responds i

/-- Every accepted request has had its response or is waited for, each once; a cycle gives one
response at most; the counter counts the requests that are waited for; and when the cache reports
that it is empty none is, and only a store that has retired can still be in hand. -/
structure Answers : Prop where
  once : (x.responded ++ x.traced.unanswered).Perm (List.range x.traced.trace.accepted.length)
  single : ∀ i, x.cache.loadHit = true → x.cache.answers2 i = false
  inflight : x.cache.nInflight.toNat = x.traced.unanswered.length
  empty : x.cache.memqEmpty = true → x.traced.unanswered = [] ∧
    ∀ k ∈ x.traced.held, k = x.traced.trace.first ∧ x.traced.storeNum k = true

/-- A load at the first port keeps the second port free. -/
def OnePort (s : L1d) : Prop := s.gotReq = true → s.req.isStore = false → s.gotReq2 = false

structure Inv : Prop where
  custody : x.traced.Custody
  once : (x.responded ++ x.traced.unanswered).Perm (List.range x.traced.trace.accepted.length)
  onePort : OnePort x.cache
  inflight : x.cache.nInflight.toNat = x.traced.unanswered.length
  empty : x.cache.memqEmpty = true →
    x.traced.unanswered = [] ∧ x.traced.trace.queue = [] ∧ x.cache.gotReq2 = false

variable {x i}

theorem step_onePort {s : L1d} : OnePort (s.step i) := by
  intro hg hst
  have hg : s.tGotReq = true := hg
  have hst : s.nReq.isStore = false := hst
  change s.coreMemReqAck i = false
  rcases L1d.tGotReq_cases hg with ⟨hf, hr, -⟩ | ⟨-, hs, -⟩
  · rw [hr] at hst
    have hfl : s.firesLoad = true := by
      simp only [L1d.fires, L1d.firesStore, hst, Bool.and_false, Bool.false_and, Bool.false_or] at hf
      exact hf
    simp [L1d.coreMemReqAck, hfl]
  · simp [L1d.coreMemReqAck, hs]

theorem OnePort.single {s : L1d} (h : OnePort s) (hl : s.loadHit = true) : s.answers2 i = false := by
  simp only [L1d.loadHit, L1d.serves, Bool.and_eq_true, Bool.not_eq_true', beq_iff_eq] at hl
  have hg := h hl.1.1.2 hl.2
  simp [L1d.answers2, L1d.serves2, hg]

theorem responds_length (h : OnePort x.cache) :
    (x.traced.responds i).length = (x.cache.coreMemRspValid i).toNat := by
  rw [responds, L1d.coreMemRspValid]
  cases hl : x.cache.loadHit with
  | true => simp [h.single (i := i) hl]
  | false => cases x.cache.answers2 i <;> simp

/-- No more requests wait than the queue and the ports hold. -/
theorem unanswered_le {t : Traced} (hc : t.Custody) : t.unanswered.length ≤ 10 := by
  have hq := congrArg List.length hc.queue
  rw [List.length_map, List.length_map, L1d.length_mqWindow] at hq
  have hroom : t.cache.mqCount ≤ 8 := hc.side.holds.room.count_le
  have hfilter := List.length_filter_le t.loadNum
    ((if t.cache.busy1 then [t.trace.first] else []) ++ t.trace.queue)
  have h1 : (if t.cache.busy1 then [t.trace.first] else []).length ≤ 1 := by
    split_ifs <;> simp
  have h2 : (if t.cache.gotReq2 then [t.trace.second] else []).length ≤ 1 := by
    split_ifs <;> simp
  rw [List.length_append, hq] at hfilter
  rw [unanswered, List.length_append]
  omega

theorem Inv.step_inflight (h : x.Inv) (hf : x.traced.side.FlushesApart i)
    (hc : (x.step i).traced.Custody) :
    (x.step i).cache.nInflight.toNat = (x.step i).traced.unanswered.length := by
  have hlen := (h.custody.waits hf).perm.length_eq
  have hle : (x.traced.step i).unanswered.length ≤ 10 := unanswered_le hc
  have hcount := h.inflight
  rw [List.length_append, List.length_append, responds_length h.onePort, Ledger.arriving] at hlen
  change (x.cache.nNInflight i).toNat = (x.traced.step i).unanswered.length
  rw [L1d.nNInflight]
  cases ha : x.cache.accepts i <;> cases hr : x.cache.coreMemRspValid i <;>
    simp [ha, hr] at hlen ⊢
  · omega
  · omega
  · omega
  · omega

/-- A cache that is about to report that it is empty waits for nothing and takes nothing up. -/
theorem Inv.step_empty (h : x.Inv) (hf : x.traced.side.FlushesApart i)
    (he : (x.step i).cache.memqEmpty = true) : (x.step i).traced.unanswered = [] ∧
      (x.step i).traced.trace.queue = [] ∧ (x.step i).cache.gotReq2 = false := by
  have he : (x.cache.memQEmpty && i.drainDsComplete && !i.coreMemReqValid && !x.cache.tGotReq &&
    !x.cache.coreMemReqAck i && !x.cache.tPushMiss i && x.cache.nInflight == 0) = true := he
  simp only [Bool.and_eq_true, Bool.not_eq_true', beq_iff_eq] at he
  obtain ⟨⟨⟨⟨⟨⟨hq, -⟩, hv⟩, -⟩, hack⟩, hpush⟩, hn⟩ := he
  have hnone : x.traced.unanswered = [] := by
    rw [← List.length_eq_zero_iff, ← h.inflight, hn]
    rfl
  have hqueue : x.traced.trace.queue = [] := by
    have hlen := congrArg List.length h.custody.queue
    have hptr : x.cache.mqHeadPtr = x.cache.mqTailPtr := by simpa [L1d.memQEmpty] using hq
    have hzero : x.cache.mqCount = 0 := by rw [L1d.mqCount, hptr, Ring.count_self]
    rw [List.length_map, List.length_map, L1d.length_mqWindow, hzero] at hlen
    exact List.length_eq_zero_iff.mp hlen
  refine ⟨?_, ?_, hack⟩
  · have hsub := (h.custody.waits hf).order
    rw [hnone, Traced.accepts_eq, hack] at hsub
    exact List.eq_nil_of_sublist_nil hsub
  · change x.traced.trace.queue.drop _ ++ (if x.cache.tPushMiss i then _ else _) = _
    rw [hqueue, hpush, List.drop_nil]
    rfl

theorem Inv.step (h : x.Inv) (hp : x.traced.side.Promised i) (hf : x.traced.side.FlushesApart i) :
    (x.step i).Inv where
  custody := h.custody.step hp hf
  once := by
    change (x.responded ++ x.traced.responds i ++ _).Perm (List.range (x.traced.step i).trace.accepted.length)
    rw [step_accepted_length]
    exact (h.custody.waits hf).perm_range h.once
  onePort := step_onePort
  inflight := h.step_inflight hf (h.custody.step hp hf)
  empty := h.step_empty hf

theorem Inv.answers (h : x.Inv) : x.Answers where
  once := h.once
  single := fun _ hl => h.onePort.single hl
  inflight := h.inflight
  empty := fun he => by
    obtain ⟨hnone, hq, hg⟩ := h.empty he
    refine ⟨hnone, fun k hk => ?_⟩
    rw [held, hq, hg, if_neg Bool.false_ne_true, List.append_nil, List.append_nil] at hk
    split_ifs at hk with hb
    · obtain rfl := List.mem_singleton.mp hk
      have hr := h.custody.first hb
      rw [unanswered, hq, hb, hg] at hnone
      refine ⟨rfl, ?_⟩
      cases hst : x.cache.req.isStore with
      | true => simp [storeNum, hr, hst]
      | false => simp [loadNum, hr, hst] at hnone
    · cases hk

theorem reset_inv (m : L1dInit) (mem : Word → Line) : (reset m mem).Inv where
  custody := reset_custody m mem
  once := List.Perm.refl _
  onePort := by simp [OnePort, reset, Traced.reset, DataSide.reset, L1d.reset]
  inflight := rfl
  empty := fun _ => ⟨rfl, rfl, rfl⟩

end Responding
end MipsCore
