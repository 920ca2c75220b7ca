import MipsCore.L1d.Order
import MipsCore.L1d.Bytes

/-! # Loads return the stores before them

A load that the second port answers has no store of its set in front of it, and the
first port answers in program order, so either finds in its line the stores before it
and no others.
-/
namespace MipsCore
namespace L1d
variable {s : L1d} {i : L1dIn}

/-! ## Busy addresses -/

/-- The queue marks the set of every request that it holds. -/
def Marked (s : L1d) : Prop := ∀ j < s.mqCount,
  s.mqAddrValid.getLsbD (Ring.slot (s.mqHeadPtr + BitVec.ofNat _ j)).toNat = true ∧
    s.mqAddr (Ring.slot (s.mqHeadPtr + BitVec.ofNat _ j)) =
      setOf (s.memQ (Ring.slot (s.mqHeadPtr + BitVec.ofNat _ j))).addr

theorem reset_marked (m : L1dInit) : (L1d.reset m).Marked := by
  intro j hj
  simp [mqCount, L1d.reset] at hj

theorem head_step : (s.step i).mqHeadPtr = s.mqHeadPtr + BitVec.ofNat _ (s.tPopMq i).toNat := by
  change s.mqHeadPtr + Ring.bump (s.tPopMq i) = _
  rw [Ring.bump_eq]

theorem step_marked (hr : s.MqRoom) (h : s.Marked) : (s.step i).Marked := by
  intro j hj
  rw [step_mqCount hr] at hj
  have hroom := mqCount_push (i := i) hr
  have hcount : s.mqCount = Ring.count s.mqHeadPtr s.mqTailPtr := rfl
  have htail := Ring.tail_eq s.mqHeadPtr s.mqTailPtr
  rw [← hcount] at htail
  -- the slot of the new window, counted from the old head
  have hpos : (s.step i).mqHeadPtr + BitVec.ofNat _ j =
      s.mqHeadPtr + BitVec.ofNat _ ((s.tPopMq i).toNat + j) := by
    rw [head_step, BitVec.add_assoc, ← BitVec.ofNat_add]
  have hpop : s.tPopMq i = true → 0 < s.mqCount := fun hp =>
    Nat.pos_of_ne_zero (mt Ring.count_eq_zero.mp (tPopMq_nonempty hp))
  rw [hpos]
  generalize hk : (s.tPopMq i).toNat + j = k
  have hlt : k < s.mqCount + (s.tPushMiss i).toNat := by
    have : (s.tPopMq i).toNat ≤ s.mqCount := by
      cases hp : s.tPopMq i with
      | false => exact Nat.zero_le _
      | true => exact hpop hp
    omega
  have hvalid : (s.step i).mqAddrValid = s.nMqAddrValid i := rfl
  have haddr : (s.step i).mqAddr =
    Ring.writeIf (s.tPushMiss i) (Ring.slot s.mqTailPtr) (setOf s.req2.addr) s.mqAddr := rfl
  have hmem : (s.step i).memQ =
    Ring.writeIf (s.tPushMiss i) (Ring.slot s.mqTailPtr) s.req2 s.memQ := rfl
  -- the popped slot is not in the new window
  have hhead : s.tPopMq i = true →
      Ring.slot (s.mqHeadPtr + BitVec.ofNat _ k) ≠ Ring.slot s.mqHeadPtr := by
    intro hp he
    have h0 : Ring.slot (s.mqHeadPtr + BitVec.ofNat _ k) =
        Ring.slot (s.mqHeadPtr + BitVec.ofNat _ 0) := by simpa using he
    have := Ring.slot_add_inj (by omega) (by norm_num) h0
    rw [hp] at hk
    simp only [Bool.toNat_true] at hk
    omega
  have hv : (s.nMqAddrValid i).getLsbD (Ring.slot (s.mqHeadPtr + BitVec.ofNat _ k)).toNat =
      (BitMask.setBitIf (s.tPushMiss i) (Ring.slot s.mqTailPtr) true s.mqAddrValid).getLsbD
        (Ring.slot (s.mqHeadPtr + BitVec.ofNat _ k)).toNat := by
    rw [nMqAddrValid, BitMask.setBitIf]
    split_ifs with hp
    · rw [BitMask.getLsbD_setBit, if_neg fun hc => hhead hp (BitVec.eq_of_toNat_eq hc.1)]
    · rfl
  rw [hvalid, hv, haddr, hmem, Ring.writeIf_apply, Ring.writeIf_apply]
  rcases Nat.lt_or_ge k s.mqCount with hold | hnew
  · have hne : s.tPushMiss i = true → Ring.slot (s.mqHeadPtr + BitVec.ofNat _ k) ≠
        Ring.slot s.mqTailPtr := by
      intro hp he
      rw [htail] at he
      have hp1 : (s.tPushMiss i).toNat = 1 := by rw [hp]; rfl
      have := Ring.slot_add_inj (by omega) (by omega) he
      omega
    rw [if_neg fun hc => hne hc.1 hc.2, if_neg fun hc => hne hc.1 hc.2]
    refine ⟨?_, (h k hold).2⟩
    rw [BitMask.setBitIf]
    split_ifs with hp
    · rw [BitMask.getLsbD_setBit, if_neg fun hc => hne hp (BitVec.eq_of_toNat_eq hc.1)]
      exact (h k hold).1
    · exact (h k hold).1
  · have hp : s.tPushMiss i = true := by
      by_contra hp
      rw [Bool.not_eq_true] at hp
      rw [hp] at hlt
      simp only [Bool.toNat_false] at hlt
      omega
    have hkc : k = s.mqCount := by
      rw [hp] at hlt
      simp only [Bool.toNat_true] at hlt
      omega
    have hslot : Ring.slot (s.mqHeadPtr + BitVec.ofNat _ k) = Ring.slot s.mqTailPtr := by
      rw [hkc, ← htail]
    rw [if_pos ⟨hp, hslot⟩, if_pos ⟨hp, hslot⟩, BitMask.setBitIf, if_pos hp, BitMask.getLsbD_setBit,
      hslot, if_pos ⟨rfl, (Ring.slot s.mqTailPtr).isLt⟩]
    exact ⟨rfl, rfl⟩

theorem anyBusy_false {f : BitVec 3 → Bool} (h : anyBusy f = false) (k : BitVec 3) : f k = false := by
  simp only [anyBusy, Bool.or_eq_false_iff] at h
  obtain ⟨⟨⟨⟨⟨⟨⟨h0, h1⟩, h2⟩, h3⟩, h4⟩, h5⟩, h6⟩, h7⟩ := h
  have hk := k.isLt
  have he : k = BitVec.ofNat 3 k.toNat := by simp
  rw [he]
  generalize k.toNat = n at hk
  interval_cases n <;> assumption

/-- A set without a busy address has no request in the queue. -/
theorem Marked.clear (h : s.Marked) {idx : SetIdx}
    (hb : anyBusy (s.hitBusyAddrs idx) = false) {r : MemReq} (hr : r ∈ s.mqWindow) :
    setOf r.addr ≠ idx := by
  obtain ⟨j, hj, rfl⟩ := Ring.mem_contents.mp hr
  obtain ⟨hv, ha⟩ := h j hj
  have := anyBusy_false hb (Ring.slot (s.mqHeadPtr + BitVec.ofNat _ j))
  rw [hitBusyAddrs, hv, Bool.true_and, beq_eq_false_iff_ne] at this
  rw [← ha]
  exact this

/-- A load at the second port whose set is not busy has no store of its set in front of it. -/
def Clear2 (s : L1d) : Prop := s.gotReq2 = true → s.req2.isStore = false → s.hitBusyAddr2 = false →
  ∀ r, s.busy1 = true ∧ r = s.req ∨ r ∈ s.mqWindow → r.isStore = true →
    setOf r.addr ≠ setOf s.req2.addr

theorem reset_clear2 (m : L1dInit) : (L1d.reset m).Clear2 := fun h => by simp [L1d.reset] at h

/-- An accepted request leaves nothing at the first port but the request that fires. -/
theorem coreMemReqAck_busy1 (h : s.coreMemReqAck i = true) (hb : (s.step i).busy1 = true) :
    s.fires = true := by
  have hs := coreMemReqAck_active h
  by_contra hf
  rw [Bool.not_eq_true] at hf
  have hst : (s.step i).state = s.nState i := rfl
  have hgot : (s.step i).gotReq = s.tGotReq := rfl
  rw [busy1, hst, hgot, coreMemReqAck_nState h] at hb
  simp [tGotReq, hf, hs] at hb

theorem step_clear2 (hr : s.MqRoom) (hp2 : s.Port2) (hm : s.Marked) : (s.step i).Clear2 := by
  intro hg hld hb r hin hst
  have ha : s.coreMemReqAck i = true := hg
  have hreq : (s.step i).req2 = i.coreMemReq := if_pos ha
  have hidx : s.tCacheIdx2 i = setOf i.coreMemReq.addr := if_pos ha
  have hbusy : anyBusy (s.hitBusyAddrs (s.tCacheIdx2 i)) = false := hb
  rw [hreq] at hld ⊢
  rw [hidx] at hbusy
  rcases hin with ⟨hb1, rfl⟩ | hin
  · have hf := coreMemReqAck_busy1 ha hb1
    have hr1 : (s.step i).req = s.tMemHead := if_pos hf
    obtain ⟨rest, hw⟩ := tMemHead_cons (considers_nonempty (fires_considers hf))
    rw [hr1]
    exact hm.clear hbusy (hw ▸ List.mem_cons_self)
  · rw [step_mqWindow hr, List.mem_append] at hin
    rcases hin with hin | hin
    · exact hm.clear hbusy (List.mem_of_mem_drop hin)
    · split_ifs at hin with hpm
      · obtain rfl := List.mem_singleton.mp hin
        have hg2 := tPushMiss_gotReq2 hpm
        simp only [coreMemReqAck, Bool.and_eq_true, Bool.not_eq_true'] at ha
        have hlast := ha.1.1.2
        rw [hp2.store hg2, hst, hp2.idx hg2, hld] at hlast
        simpa using hlast
      · cases hin

end L1d

/-! ## Images of memory -/

namespace Traced
open DataSide Ledger
variable {t : Traced} {i : L1dIn} {mem : Word → Line}

theorem lined_init (mem : Word → Line) : Lined fun a => mem (lineOf a) := fun _ _ h => congrArg mem h

theorem lined_commit {m : Word → Line} (h : Lined m) (r : MemReq) : Lined (commit m r) := by
  intro a b hab
  rw [Traced.commit, Traced.commit, hab, h a b hab]

theorem lined_foldl {m : Word → Line} (h : Lined m) (rs : List MemReq) :
    Lined (rs.foldl Traced.commit m) := by
  induction rs generalizing m with
  | nil => exact h
  | cons r rs ih => exact ih (lined_commit h r)

/-- Only the stores of its line change the contents of a line. -/
theorem foldl_commit {m : Word → Line} (h : Lined m) (rs : List MemReq) (a : Word) :
    rs.foldl Traced.commit m a =
      (rs.filter fun r => lineOf r.addr = lineOf a).foldl (fun cl r => L1d.storeLine r cl) (m a) := by
  induction rs generalizing m with
  | nil => rfl
  | cons r rs ih =>
    rw [List.foldl_cons, ih (lined_commit h r)]
    by_cases hc : lineOf r.addr = lineOf a
    · rw [List.filter_cons_of_pos (by simpa using hc), List.foldl_cons, Traced.commit, if_pos hc.symm,
        h _ _ hc]
    · rw [List.filter_cons_of_neg (by simpa using hc), Traced.commit, if_neg fun he => hc he.symm]

/-- A request that the cache serves as it is meant. -/
structure Regular (r : MemReq) : Prop where
  wellFormed : r.WellFormed
  aligned : r.Aligned
  merges : ¬ r.AlignedSwl

/-- Stores that are merged as they are meant leave the bytes that they are to leave. -/
theorem byteAt_foldl {m : Word → Line} (h : Lined m) {rs : List MemReq}
    (hr : ∀ r ∈ rs, Regular r ∧ r.isStore = true) :
    byteAt (rs.foldl Traced.commit m) = rs.foldl (fun b r => r.stored b) (byteAt m) := by
  induction rs generalizing m with
  | nil => rfl
  | cons r rs ih =>
    rw [List.foldl_cons, List.foldl_cons, ih (lined_commit h r) fun q hq => hr q (List.mem_cons_of_mem _ hq)]
    obtain ⟨hreg, hst⟩ := hr r List.mem_cons_self
    have hop : L1d.writesArray r.op = true := hreg.wellFormed.symm.trans hst
    congr 1
    funext a
    rw [L1d.byteAt_storeLine h hop hreg.aligned hreg.merges a, byteAt, Traced.commit]
    split_ifs <;> rfl

/-! ## What loads return -/

/-- A load of memory, as opposed to the merge of a register. -/
def loads (r : MemReq) : Bool := L1d.loadsGpr r.op || L1d.loadsFpr r.op

/-- The stores that precede a request in program order and are not squashed. -/
def storesBefore (t : Traced) (n : ℕ) : List ℕ :=
  (List.range n).filter fun k => decide (k ∉ t.trace.squashed) && (t.req k).any (·.isStore)

/-- Memory as a request is to find it. -/
def memoryAt (t : Traced) (mem : Word → Line) (n : ℕ) : Bytes :=
  ((t.storesBefore n).filterMap t.req).foldl (fun b r => r.stored b) (byteAt fun a => mem (lineOf a))

/-- Every load response carries the bytes that the stores before the load have left. -/
def Coherent (mem : Word → Line) (t : Traced) : Prop := ∀ n v r, (n, v) ∈ t.trace.answered →
  t.req n = some r → loads r = true → v = r.loaded (t.memoryAt mem n)

/-- The written stores before a request. -/
def writtenBefore (t : Traced) (n : ℕ) : List MemReq :=
  (t.trace.written.filter (· < n)).filterMap t.req

/-- The stores of the line of a request have been written or squashed before it is answered, and
it finds those that have been written. -/
structure Answer (t : Traced) (mem : Word → Line) (n : ℕ) (v : Word) (r : MemReq) : Prop where
  settled : ∀ k < n, ∀ q, t.req k = some q → q.isStore = true → lineOf q.addr = lineOf r.addr →
    k ∈ t.trace.written ∨ k ∈ t.trace.squashed
  value : v = L1d.loadData r ((t.writtenBefore n).foldl Traced.commit (fun a => mem (lineOf a)) r.addr)

structure Loads (t : Traced) (mem : Word → Line) : Prop where
  fates : t.Fates mem
  marked : t.cache.Marked
  clear2 : t.cache.Clear2
  regular : ∀ r ∈ t.trace.accepted, Regular r
  answers : ∀ n v r, (n, v) ∈ t.trace.answered → t.req n = some r → loads r = true →
    t.Answer mem n v r

theorem reset_loads (m : L1dInit) (mem : Word → Line) : (reset m mem).Loads mem where
  fates := reset_fates m mem
  marked := L1d.reset_marked m
  clear2 := L1d.reset_clear2 m
  regular := fun _ h => by simp [reset] at h
  answers := fun _ _ _ h => by simp [reset] at h

theorem Fates.settled (h : t.Fates mem) {k : ℕ} {q : MemReq} (hq : t.req k = some q)
    (hst : q.isStore = true) (hh : k ∉ t.held) :
    k ∈ t.trace.written ∨ k ∈ t.trace.squashed := by
  rcases h.complete k (req_lt hq) with hk | hk | hk | ⟨v, hk⟩
  · exact absurd hk hh
  · exact Or.inl hk
  · exact Or.inr hk
  · obtain ⟨r, hr, hs⟩ := h.answered _ hk
    rw [hq] at hr
    cases hr
    rw [hst] at hs
    cases hs

theorem mem_squashed_mono {k : ℕ} (h : k ∈ t.trace.squashed) : k ∈ (t.step i).trace.squashed :=
  mem_squashed.mpr (Or.inl h)

theorem mem_written_mono {k : ℕ} (h : k ∈ t.trace.written) : k ∈ (t.step i).trace.written :=
  mem_written.mpr (Or.inl h)

/-- A cycle adds the store of the first port to the written ones. -/
theorem Fates.writtenBefore_step (h : t.Fates mem) (n : ℕ) : (t.step i).writtenBefore n =
    t.writtenBefore n ++
      if t.cache.tWrArray = true ∧ t.trace.first < n then [t.cache.req] else [] := by
  have hold : (t.trace.written.filter (· < n)).filterMap (t.step i).req =
      (t.trace.written.filter (· < n)).filterMap t.req :=
    List.filterMap_congr fun w hw => req_step (h.bound (List.mem_of_mem_filter hw))
  rw [writtenBefore, written_eq, List.filter_append, List.filterMap_append, hold, writtenBefore]
  congr 1
  by_cases hwr : t.cache.tWrArray = true
  · have hr := h.custody.first (tWrArray_busy1 h.custody.side hwr).1
    have hr' : (t.step i).req t.trace.first = some t.cache.req := (req_step (req_lt hr)).trans hr
    by_cases hn : t.trace.first < n
    · rw [if_pos hwr, if_pos ⟨hwr, hn⟩]
      simp [hn, hr']
    · rw [if_pos hwr, if_neg fun hc => hn hc.2]
      simp [hn]
  · rw [if_neg hwr, if_neg fun hc => hwr hc.1]
    rfl

theorem Answer.step {n : ℕ} {v : Word} {r : MemReq} (ha : t.Answer mem n v r) (h : t.Fates mem)
    (hn : n < t.trace.accepted.length) : (t.step i).Answer mem n v r where
  settled := fun k hk q hq hst hl => by
    rw [req_step (hk.trans hn)] at hq
    exact (ha.settled k hk q hq hst hl).imp mem_written_mono mem_squashed_mono
  value := by
    rw [h.writtenBefore_step, List.foldl_append]
    split_ifs with hc
    · have hb := (tWrArray_busy1 h.custody.side hc.1).1
      have hr := h.custody.first hb
      obtain ⟨rest, hheld⟩ := Custody.held_first hb
      have hin : t.trace.first ∈ t.held := hheld ▸ List.mem_cons_self
      obtain ⟨hg, -, ho⟩ := tWrArray_hits hc.1
      have hst : t.cache.req.isStore = true := (h.custody.side.req_wellFormed hg).trans ho
      have hne : lineOf r.addr ≠ lineOf t.cache.req.addr := by
        intro hl
        rcases ha.settled _ hc.2 _ hr hst hl.symm with hk | hk
        · exact Nat.lt_irrefl _ (h.written_lt _ hk _ hin)
        · exact h.squashed_held hk hin
      rw [List.foldl_cons, List.foldl_nil, Traced.commit, if_neg hne]
      exact ha.value
    · exact ha.value

theorem Fates.writtenBefore_held (h : t.Fates mem) {n : ℕ} (hn : n ∈ t.held) :
    t.writtenBefore n = t.trace.written.filterMap t.req := by
  rw [writtenBefore, List.filter_eq_self.mpr fun w hw => by simpa using h.written_lt w hw n hn]

/-- A request that finds its line finds the written stores. -/
theorem Fates.value_held (h : t.Fates mem) {n : ℕ} (hn : n ∈ t.held) (a : Word) :
    t.side.view a = (t.writtenBefore n).foldl Traced.commit (fun a => mem (lineOf a)) a := by
  rw [h.writtenBefore_held hn, h.view]
  rfl

/-- The first port answers when everything before its request is done. -/
theorem Fates.answer_first (h : t.Fates mem) (hl : t.cache.loadHit = true)
    (hld : loads t.cache.req = true) :
    (t.step i).Answer mem t.trace.first t.cache.tRspData t.cache.req := by
  have hc := h.custody
  simp only [L1d.loadHit, Bool.and_eq_true, Bool.not_eq_true'] at hl
  obtain ⟨⟨hs, hh⟩, hst⟩ := hl
  have hg : t.cache.gotReq = true := by rw [← L1d.serves_eq hc.side.port1, hs]
  have hb : t.cache.busy1 = true := by simp [L1d.busy1, hg, hc.side.port1.active hg]
  obtain ⟨rest, hheld⟩ := Custody.held_first hb
  have hin : t.trace.first ∈ t.held := hheld ▸ List.mem_cons_self
  have hsc : t.cache.req.op ≠ .SC := fun ho => by simp [loads, ho, L1d.loadsGpr, L1d.loadsFpr] at hld
  refine Answer.step ⟨fun k hk q hq hqs _ => h.settled hq hqs fun hkh => ?_, ?_⟩ h
    (hc.ordered.bound _ hin)
  · rw [hheld, List.mem_cons] at hkh
    rcases hkh with rfl | hkh
    · exact Nat.lt_irrefl _ hk
    · exact Nat.lt_asymm hk (Ordered.head_lt (hheld ▸ hc.ordered) (Or.inl hkh))
  · rw [L1d.tRspData, if_neg hsc, hc.side.hit_view hg hh, h.value_held hin]

/-- What the second port answers to a load of memory. -/
theorem replies2_load (hr : t.replies2 i = true) (hld : loads t.cache.req2 = true) :
    t.cache.tPort2HitCache = true ∧ t.cache.hitBusyAddr2 = false ∧
      (t.cache.rsp2 i).data = L1d.loadData t.cache.req2 t.cache.tData2 := by
  simp only [replies2, Bool.and_eq_true, Bool.not_eq_true'] at hr
  obtain ⟨⟨⟨hs, hd⟩, hst⟩, hp⟩ := hr
  have h1 : t.cache.req2.op ≠ .MTC1_MERGE := fun ho => by
    simp [loads, ho, L1d.loadsGpr, L1d.loadsFpr] at hld
  have h2 : t.cache.req2.op ≠ .MFC1_MERGE := fun ho => by
    simp [loads, ho, L1d.loadsGpr, L1d.loadsFpr] at hld
  have hlook : t.cache.looksUp2 i = true := by simp [L1d.looksUp2, hs, hd, h1, h2]
  have hhit : t.cache.tPort2HitCache = true ∧ t.cache.hitBusyAddr2 = false := by
    simpa [L1d.tPushMiss, hlook, hst] using hp
  have hl2 : t.cache.loadHit2 i = true := by simp [L1d.loadHit2, hlook, hst, hhit.1, hhit.2]
  refine ⟨hhit.1, hhit.2, ?_⟩
  simp [L1d.rsp2, hd, h1, h2, hl2]

/-- The second port answers when no store of the line is in front of its request. -/
theorem Loads.answer_second (h : t.Loads mem) (hr : t.replies2 i = true)
    (hld : loads t.cache.req2 = true) :
    (t.step i).Answer mem t.trace.second (t.cache.rsp2 i).data t.cache.req2 := by
  have hc := h.fates.custody
  obtain ⟨hhit, hbusy, hdata⟩ := replies2_load hr hld
  simp only [replies2, Bool.and_eq_true, Bool.not_eq_true'] at hr
  obtain ⟨⟨⟨hs, -⟩, hst⟩, -⟩ := hr
  have hg : t.cache.gotReq2 = true := by rw [← L1d.serves2_eq hc.side.port2, hs]
  have hin : t.trace.second ∈ t.held := List.mem_append_right _ (by simp [hg])
  have hclear := h.clear2 hg hst hbusy
  refine Answer.step ⟨fun k hk q hq hqs hl => h.fates.settled hq hqs fun hkh => ?_, ?_⟩ h.fates
    (hc.ordered.bound _ hin)
  · have hset : setOf q.addr = setOf t.cache.req2.addr := by
      have := congrArg setOf hl
      rwa [setOf_lineOf, setOf_lineOf] at this
    rw [held, List.mem_append, List.mem_append] at hkh
    rcases hkh with (hkh | hkh) | hkh
    · split_ifs at hkh with hb
      · obtain rfl := List.mem_singleton.mp hkh
        rw [hc.first hb] at hq
        cases hq
        exact hclear _ (Or.inl ⟨hb, rfl⟩) hqs hset
      · cases hkh
    · have hw := List.mem_map_of_mem (f := t.req) hkh
      rw [hc.queue, hq] at hw
      obtain ⟨r, hrw, he⟩ := List.mem_map.mp hw
      cases he
      exact hclear _ (Or.inr hrw) hqs hset
    · rw [if_pos hg] at hkh
      exact Nat.ne_of_lt hk (List.mem_singleton.mp hkh)
  · rw [hdata, hc.side.hit_view2 hg hhit, h.fates.value_held hin]

/-- What the core sends is regular in the cycle. -/
def Sends (t : Traced) (i : L1dIn) : Prop := t.cache.accepts i = true → Regular i.coreMemReq

theorem Loads.step (h : t.Loads mem) (hp : t.side.Promised i) (hf : t.side.FlushesApart i)
    (hs : t.Sends i) : (t.step i).Loads mem where
  fates := h.fates.step hp hf
  marked := L1d.step_marked h.fates.custody.side.holds.room h.marked
  clear2 := L1d.step_clear2 h.fates.custody.side.holds.room h.fates.custody.side.port2 h.marked
  regular := fun r hr => by
    have hr : r ∈ t.trace.accepted ++ if t.cache.accepts i then [i.coreMemReq] else [] := hr
    rcases List.mem_append.mp hr with hr | hr
    · exact h.regular r hr
    · split_ifs at hr with ha
      · exact List.mem_singleton.mp hr ▸ hs ha
      · cases hr
  answers := fun n v r hm hr hld => by
    have hc := h.fates.custody
    rcases mem_answered.mp hm with hm | ⟨hl, he⟩ | ⟨h2, he⟩
    · obtain ⟨q, hq, -⟩ := h.fates.answered _ hm
      have hr' : t.req n = some r := (req_step (req_lt hq)).symm.trans hr
      exact (h.answers n v r hm hr' hld).step h.fates (req_lt hq)
    · cases he
      have hb : t.cache.busy1 = true := by
        simp only [L1d.loadHit, L1d.serves, Bool.and_eq_true, beq_iff_eq] at hl
        simp [L1d.busy1, hl.1.1.1, hl.1.1.2]
      have hq := hc.first hb
      rw [req_step (req_lt hq), hq] at hr
      cases hr
      exact h.fates.answer_first hl hld
    · cases he
      have hg : t.cache.gotReq2 = true := by
        simp only [replies2, Bool.and_eq_true] at h2
        rw [← L1d.serves2_eq hc.side.port2, h2.1.1.1]
      have hq := hc.second hg
      rw [req_step (req_lt hq), hq] at hr
      cases hr
      exact h.answer_second h2 hld

/-! ## In terms of bytes -/

/-- The stores of a line that are written before a request are the ones that are not squashed. -/
theorem Answer.stores_eq {n : ℕ} {v : Word} {r : MemReq} (ha : t.Answer mem n v r)
    (h : t.Fates mem) :
    (t.writtenBefore n).filter (fun q => lineOf q.addr = lineOf r.addr) =
      ((t.storesBefore n).filterMap t.req).filter (fun q => lineOf q.addr = lineOf r.addr) := by
  have hline : ∀ l : List ℕ, (l.filterMap t.req).filter (fun q => lineOf q.addr = lineOf r.addr) =
      (l.filter fun k => (t.req k).any fun q => lineOf q.addr = lineOf r.addr).filterMap t.req := by
    intro l
    induction l with
    | nil => rfl
    | cons k l ih =>
      cases hk : t.req k with
      | none => simp [hk, ih]
      | some q => by_cases hq : lineOf q.addr = lineOf r.addr <;> simp [hk, hq, ih]
  rw [writtenBefore, hline, hline]
  congr 1
  refine List.Pairwise.eq_of_mem_iff ((h.sorted.filter _).filter _)
    ((List.pairwise_lt_range.filter _).filter _) fun k => ?_
  simp only [List.mem_filter, storesBefore, List.mem_range, Bool.and_eq_true, decide_eq_true_eq]
  constructor
  · rintro ⟨⟨hw, hk⟩, hl⟩
    obtain ⟨q, hq, hst⟩ := h.written k hw
    exact ⟨⟨hk, fun hs => h.squashed_written hs hw, by simp [hq, hst]⟩, hl⟩
  · rintro ⟨⟨hk, hs, hst⟩, hl⟩
    obtain ⟨q, hq, hqs⟩ := (Option.any_eq_true ..).mp hst
    have hql : lineOf q.addr = lineOf r.addr := by simpa [hq] using hl
    exact ⟨⟨(ha.settled k hk q hq hqs hql).resolve_right hs, hk⟩, hl⟩

theorem Loads.coherent (h : t.Loads mem) : t.Coherent mem := by
  intro n v r hm hr hld
  have ha := h.answers n v r hm hr hld
  have hreg := h.regular r (List.mem_of_getElem? hr)
  have hinit := lined_init mem
  have hstores : ∀ q ∈ (t.storesBefore n).filterMap t.req, Regular q ∧ q.isStore = true := by
    intro q hq
    obtain ⟨k, hk, hkq⟩ := List.mem_filterMap.mp hq
    refine ⟨h.regular q (List.mem_of_getElem? hkq), ?_⟩
    simp only [storesBefore, List.mem_filter, Bool.and_eq_true] at hk
    simpa [hkq] using hk.2.2
  have hsame : (t.writtenBefore n).foldl Traced.commit (fun a => mem (lineOf a)) r.addr =
      ((t.storesBefore n).filterMap t.req).foldl Traced.commit (fun a => mem (lineOf a)) r.addr := by
    rw [foldl_commit hinit, foldl_commit hinit, ha.stores_eq h.fates]
  rw [ha.value, hsame, L1d.loadData_bytes (lined_foldl hinit _) hreg.aligned,
    byteAt_foldl hinit hstores]
  rfl

/-- The cache is used as it may be: its neighbours keep their promises, the addresses are aligned,
and no flush starts with a miss. -/
structure Driven (t : Traced) (i : L1dIn) : Prop where
  promised : t.side.Promised i
  apart : t.side.FlushesApart i
  aligned : i.coreMemReqValid = true → i.coreMemReq.Aligned

instance (t : Traced) (i : L1dIn) : Decidable (t.Driven i) :=
  decidable_of_iff (t.side.Promised i ∧ t.side.FlushesApart i ∧
    (i.coreMemReqValid = true → i.coreMemReq.Aligned))
    ⟨fun h => ⟨h.1, h.2.1, h.2.2⟩, fun h => ⟨h.1, h.2, h.3⟩⟩

/-- No `SWL` at an aligned address is accepted. -/
def SparesSwl (t : Traced) (i : L1dIn) : Prop :=
  t.cache.accepts i = true → ¬ i.coreMemReq.AlignedSwl

instance (t : Traced) (i : L1dIn) : Decidable (t.SparesSwl i) := inferInstanceAs (Decidable (_ → _))

/-- A store at address 0, the cycles until it is written, and a load of the word. -/
def storeLoad (op : MemOp) : List L1dIn :=
  let quiet : L1dIn := {}
  [{ coreMemReqValid := true, coreMemReq := { isStore := true, op := op, data := 1 } }, quiet,
    { retiredRobPtrValid := true }, quiet, quiet, { memRspValid := true }, quiet, quiet,
    { coreMemReqValid := true, coreMemReq := { op := .LW, robPtr := 1 } }, quiet]

end Traced
end MipsCore
