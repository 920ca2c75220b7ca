import MipsCore.L1d.Responses

/-! # Graduation

A store waits in the queue until the slot of the reorder buffer that it belongs to is
retired, and is written only then.  The cache keeps two bits for each slot; the retired
stores are kept here beside the trace, and the bits say which they are.
-/
namespace MipsCore
namespace Traced
open Ledger
variable (t : Traced) (i : L1dIn)

/-- The requests in front of the second port. -/
def line : List ℕ := (if t.cache.busy1 then [t.trace.first] else []) ++ t.trace.queue

/-- Those that stay there. -/
def kept : List ℕ :=
  (if (t.step i).cache.busy1 then [(t.step i).trace.first] else []) ++
    t.trace.queue.drop (t.cache.tPopMq i).toNat

/-- The reorder buffer slot of a store. -/
def storeSlot (k : ℕ) : Option RobPtr :=
  (t.req k).bind fun r => if r.isStore then some r.robPtr else none

variable {t i}

theorem storeSlot_of_req {k : ℕ} {r : MemReq} (h : t.req k = some r) {p : RobPtr} :
    t.storeSlot k = some p ↔ r.isStore = true ∧ r.robPtr = p := by
  rw [storeSlot, h, Option.bind_some]
  cases r.isStore <;> simp

theorem storeSlot_step {k : ℕ} (h : k < t.trace.accepted.length) :
    (t.step i).storeSlot k = t.storeSlot k := by
  rw [storeSlot, req_step h, storeSlot]

theorem held_line : t.held = t.line ++ if t.cache.gotReq2 then [t.trace.second] else [] := rfl

theorem step_line : (t.step i).line =
    t.kept i ++ if t.cache.tPushMiss i then [t.trace.second] else [] := by
  have hq : (t.step i).trace.queue = t.trace.queue.drop (t.cache.tPopMq i).toNat ++
    if t.cache.tPushMiss i then [t.trace.second] else [] := rfl
  rw [line, hq, kept, List.append_assoc]

section Line
variable (hc : t.Custody) (hf : t.side.FlushesApart i)
include hc

theorem Custody.line_lt {k : ℕ} (hk : k ∈ t.line) : k < t.trace.accepted.length :=
  hc.ordered.bound k (by rw [held_line]; exact List.mem_append_left _ hk)

/-- The second port comes behind the line. -/
theorem Custody.second_notMem (hg : t.cache.gotReq2 = true) : t.trace.second ∉ t.line := by
  have hnd := hc.ordered.nodup
  rw [held_line, if_pos hg, List.nodup_append'] at hnd
  exact fun hk => hnd.2.2 hk (List.mem_singleton_self _)

include hf

theorem Custody.line_eq : t.line = t.front i ++ t.kept i := front_eq hc hf

theorem Custody.kept_line {k : ℕ} (hk : k ∈ t.kept i) : k ∈ t.line := by
  rw [hc.line_eq hf]
  exact List.mem_append_right _ hk

theorem Custody.kept_notMem {k : ℕ} (hk : k ∈ t.kept i) : k ∉ t.front i := by
  have hnd := hc.ordered.nodup
  rw [held_line, hc.line_eq hf, List.append_assoc, List.nodup_append'] at hnd
  exact fun hfr => hnd.2.2 hfr (List.mem_append_left _ hk)

end Line

theorem mem_step_line {k : ℕ} : k ∈ (t.step i).line ↔
    k ∈ t.kept i ∨ t.cache.tPushMiss i = true ∧ k = t.trace.second := by
  rw [step_line, List.mem_append]
  cases t.cache.tPushMiss i <;> simp

/-- The head of the queue leaves when its store is cleared. -/
theorem Custody.cleared (hc : t.Custody) (h : t.cache.tForceClearBusy i = true) :
    ∃ k, k ∈ t.front i ∧ k = t.trace.queue.headD 0 ∧ k ∈ t.trace.queue ∧
      t.storeSlot k = some t.cache.tMemHead.robPtr := by
  obtain ⟨k, rest, hq, hk⟩ :=
    hc.queue_head (L1d.considers_nonempty (L1d.tForceClearBusy_considers h))
  have hst : t.cache.tMemHead.isStore = true := by
    simp only [L1d.tForceClearBusy, Bool.and_eq_true] at h
    exact h.1.1.1.2
  refine ⟨k, ?_, by rw [hq]; rfl, by rw [hq]; exact List.mem_cons_self,
    (storeSlot_of_req hk).mpr ⟨hst, rfl⟩⟩
  exact List.mem_append_right _ (by simp [h, hq])

/-- The first port lets a store go when it finds its line. -/
theorem Custody.wrote (hc : t.Custody) (h : t.cache.tResetGraduated = true) :
    t.trace.first ∈ t.front i ∧ t.cache.busy1 = true ∧
      t.storeSlot t.trace.first = some t.cache.req.robPtr ∧ t.cache.tWrArray = true := by
  simp only [L1d.tResetGraduated, Bool.and_eq_true] at h
  obtain ⟨⟨hs, hh⟩, hst⟩ := h
  have hact : t.cache.state = .ACTIVE ∧ t.cache.gotReq = true := by
    simpa [L1d.serves] using hs
  have hb : t.cache.busy1 = true := by simp [L1d.busy1, hact.1, hact.2]
  have hwf : t.cache.req.isStore = L1d.writesArray t.cache.req.op :=
    hc.side.req_wellFormed hact.2
  refine ⟨List.mem_append_left _ (by simp [hs, hh]), hb,
    (storeSlot_of_req (hc.first hb)).mpr ⟨hst, rfl⟩, ?_⟩
  rw [L1d.tWrArray_eq hc.side.port1, ← hwf, hs, hh, hst]
  rfl

theorem tIncrBusy_iff : t.cache.tIncrBusy i = true ↔
    t.cache.tPushMiss i = true ∧ t.cache.req2.isStore = true := by
  simp only [L1d.tIncrBusy, L1d.tPushMiss, Bool.and_eq_true, Bool.or_eq_true]
  tauto

theorem tForceClearBusy_iff : t.cache.tForceClearBusy i = true ↔
    t.cache.considers = true ∧ t.cache.tMemHead.isStore = true ∧
      t.cache.graduated t.cache.tMemHead.robPtr ≠ 2 ∧ i.drainDsComplete = true ∧
        i.deadRobMask.getLsbD t.cache.tMemHead.robPtr.toNat = true := by
  simp only [L1d.tForceClearBusy, Bool.and_eq_true, bne_iff_ne]
  tauto

/-- A store that leaves at the front is written or cleared. -/
theorem Custody.front_slot (hc : t.Custody) {k : ℕ} (hk : k ∈ t.front i) {p : RobPtr}
    (hp : t.storeSlot k = some p) :
    t.cache.tResetGraduated = true ∧ k = t.trace.first ∧ p = t.cache.req.robPtr ∨
      t.cache.tForceClearBusy i = true ∧ p = t.cache.tMemHead.robPtr := by
  rcases List.mem_append.mp hk with hk | hk
  · split_ifs at hk with hsh
    · obtain rfl := List.mem_singleton.mp hk
      have hb : t.cache.busy1 = true := by
        simp only [L1d.serves, Bool.and_eq_true, beq_iff_eq] at hsh
        simp [L1d.busy1, hsh.1.1, hsh.1.2]
      obtain ⟨hst, rfl⟩ := (storeSlot_of_req (hc.first hb)).mp hp
      exact Or.inl ⟨by rw [L1d.tResetGraduated, hsh, hst]; rfl, rfl, rfl⟩
    · cases hk
  · split_ifs at hk with hcl
    · obtain rfl := List.mem_singleton.mp hk
      obtain ⟨j, -, rfl, -, hj⟩ := hc.cleared hcl
      rw [hp] at hj
      exact Or.inr ⟨hcl, Option.some.inj hj⟩
    · cases hk

/-- Its slot is free afterwards. -/
theorem Custody.front_clears (hc : t.Custody) {k : ℕ} (hk : k ∈ t.front i) {p : RobPtr}
    (hp : t.storeSlot k = some p) : t.cache.nGraduated i p = 0 := by
  rw [L1d.nGraduated_apply]
  rcases hc.front_slot hk hp with ⟨hr, -, he⟩ | ⟨hcl, he⟩
  · rw [if_pos (c := _ ∧ p = t.cache.req.robPtr) ⟨hr, he⟩, ite_self]
  · rw [if_pos ⟨hcl, he⟩]

/-- A store in the line stays there or comes from the second port. -/
theorem Custody.step_line_slot (hc : t.Custody) (hf : t.side.FlushesApart i) {k : ℕ}
    (hk : k ∈ (t.step i).line) {p : RobPtr} (hp : (t.step i).storeSlot k = some p) :
    k ∈ t.kept i ∧ t.storeSlot k = some p ∨
      t.cache.tIncrBusy i = true ∧ k = t.trace.second ∧ p = t.cache.req2.robPtr := by
  rcases mem_step_line.mp hk with hk | ⟨hpush, rfl⟩
  · have hlt := hc.line_lt (hc.kept_line hf hk)
    exact Or.inl ⟨hk, (storeSlot_step hlt).symm.trans hp⟩
  · have hreq := hc.second (L1d.tPushMiss_gotReq2 hpush)
    rw [storeSlot_step (req_lt hreq)] at hp
    obtain ⟨hst, rfl⟩ := (storeSlot_of_req hreq).mp hp
    exact Or.inr ⟨tIncrBusy_iff.mpr ⟨hpush, hst⟩, rfl, rfl⟩

end Traced

/-! ## Retired stores -/

/-- The data side with the stores that have been retired while they waited. -/
structure Graded where
  traced : Traced
  retired : List ℕ

namespace Graded
open Traced DataSide Ledger
variable (g : Graded) (i : L1dIn)

abbrev cache : L1d := g.traced.cache

def reset (m : L1dInit) (mem : Word → Line) : Graded where
  traced := Traced.reset m mem
  retired := []

/-- A waiting store whose slot is retired. -/
def retires (k : ℕ) : Bool :=
  (g.traced.storeSlot k).any fun p => g.cache.graduated p == 1 && L1d.strobes i p

def step : Graded where
  traced := g.traced.step i
  retired := g.retired ++ g.traced.line.filter (g.retires i)

/-- What the core promises about slots: nothing is retired once the drain is complete, which the
cache checks, and the slot of a new store is not that of the store at the second port. -/
structure SlotsApart : Prop where
  drained : i.drainDsComplete = true → ∀ p, L1d.strobes i p = false
  fresh : g.cache.accepts i = true → i.coreMemReq.isStore = true → g.cache.gotReq2 = true →
    g.cache.req2.isStore = true → i.coreMemReq.robPtr ≠ g.cache.req2.robPtr

instance : Decidable (SlotsApart g i) :=
  decidable_of_iff ((i.drainDsComplete = true → ∀ p, L1d.strobes i p = false) ∧
    (g.cache.accepts i = true → i.coreMemReq.isStore = true → g.cache.gotReq2 = true →
      g.cache.req2.isStore = true → i.coreMemReq.robPtr ≠ g.cache.req2.robPtr))
    ⟨fun h => ⟨h.1, h.2⟩, fun h => ⟨h.1, h.2⟩⟩

/-- The two bits of a slot say whether a store of the slot waits, and whether it is retired. -/
structure Marked : Prop where
  mark : ∀ k ∈ g.traced.line, ∀ p, g.traced.storeSlot k = some p →
    g.cache.graduated p = if k ∈ g.retired then 2 else 1
  owner : ∀ p, g.cache.graduated p ≠ 0 → ∃ k ∈ g.traced.line, g.traced.storeSlot k = some p
  alone : ∀ k ∈ g.traced.line, ∀ j ∈ g.traced.line, ∀ p, g.traced.storeSlot k = some p →
    g.traced.storeSlot j = some p → k = j
  first : g.cache.busy1 = true → g.cache.req.isStore = true → g.traced.trace.first ∈ g.retired
  second : g.cache.gotReq2 = true → g.cache.req2.isStore = true →
    g.cache.graduated g.cache.req2.robPtr = 0
  written : ∀ k ∈ g.traced.trace.written, k ∈ g.retired
  retired : ∀ k ∈ g.retired, k ∈ g.traced.trace.written ∨ k ∈ g.traced.line
  stores : ∀ k ∈ g.retired, ∃ p, g.traced.storeSlot k = some p

variable {g i}

theorem Marked.mark_ne (h : g.Marked) {k : ℕ} (hk : k ∈ g.traced.line) {p : RobPtr}
    (hp : g.traced.storeSlot k = some p) : g.cache.graduated p ≠ 0 := by
  rw [h.mark k hk p hp]
  split_ifs <;> decide

theorem mem_step_retired {k : ℕ} : k ∈ (g.step i).retired ↔
    k ∈ g.retired ∨ k ∈ g.traced.line ∧ g.retires i k = true := by
  change k ∈ g.retired ++ g.traced.line.filter (g.retires i) ↔ _
  rw [List.mem_append, List.mem_filter]

section Step
variable {mem : Word → Line} (h : g.Marked) (ht : g.traced.Fates mem)
  (hf : g.traced.side.FlushesApart i)
include h ht hf

/-- The slot of a store that stays in the line moves by its retirement only. -/
theorem Marked.kept_graduated {k : ℕ} (hk : k ∈ g.traced.kept i) {p : RobPtr}
    (hp : g.traced.storeSlot k = some p) : g.cache.nGraduated i p =
      if g.cache.graduated p = 1 ∧ L1d.strobes i p = true then 2 else g.cache.graduated p := by
  have hc := ht.custody
  have hline := hc.kept_line hf hk
  have hfront : ∀ j ∈ g.traced.front i, g.traced.storeSlot j ≠ some p := by
    intro j hj hjp
    have hjl : j ∈ g.traced.line := by
      rw [hc.line_eq hf]
      exact List.mem_append_left _ hj
    have hkj := h.alone k hline j hjl p hp hjp
    exact hc.kept_notMem hf hk (hkj ▸ hj)
  rw [L1d.nGraduated_apply, if_neg, if_neg, if_neg]
  · rintro ⟨hi, he⟩
    obtain ⟨hpush, hst⟩ := tIncrBusy_iff.mp hi
    have hzero := h.second (L1d.tPushMiss_gotReq2 hpush) hst
    exact h.mark_ne hline hp (he ▸ hzero)
  · rintro ⟨hr, he⟩
    obtain ⟨hfr, -, hslot, -⟩ := hc.wrote hr (i := i)
    exact hfront _ hfr (he ▸ hslot)
  · rintro ⟨hcl, he⟩
    obtain ⟨j, hfr, -, -, hslot⟩ := hc.cleared hcl
    exact hfront j hfr (he ▸ hslot)

/-- A store that is queued waits for its retirement. -/
theorem Marked.queued_graduated (hi : g.cache.tIncrBusy i = true) :
    g.cache.nGraduated i g.cache.req2.robPtr = 1 := by
  have hc := ht.custody
  obtain ⟨hpush, hst⟩ := tIncrBusy_iff.mp hi
  have hzero := h.second (L1d.tPushMiss_gotReq2 hpush) hst
  have hfront : ∀ j ∈ g.traced.front i, g.traced.storeSlot j ≠ some g.cache.req2.robPtr := by
    intro j hj hjp
    have hjl : j ∈ g.traced.line := by
      rw [hc.line_eq hf]
      exact List.mem_append_left _ hj
    exact h.mark_ne hjl hjp hzero
  rw [L1d.nGraduated_apply, if_neg, if_neg, if_pos ⟨hi, rfl⟩]
  · rintro ⟨hr, he⟩
    obtain ⟨hfr, -, hslot, -⟩ := hc.wrote hr (i := i)
    exact hfront _ hfr (he ▸ hslot)
  · rintro ⟨hcl, he⟩
    obtain ⟨j, hfr, -, -, hslot⟩ := hc.cleared hcl
    exact hfront j hfr (he ▸ hslot)

omit hf in
/-- The request at the second port is not retired. -/
theorem Marked.second_notRetired (hg : g.cache.gotReq2 = true) :
    g.traced.trace.second ∉ (g.step i).retired := by
  have hline := ht.custody.second_notMem hg
  intro hk
  rcases mem_step_retired.mp hk with hk | ⟨hk, -⟩
  · rcases h.retired _ hk with hw | hl
    · have hheld : g.traced.trace.second ∈ g.traced.held := by
        rw [held_line, if_pos hg]
        exact List.mem_append_right _ (List.mem_singleton_self _)
      exact Nat.lt_irrefl _ (ht.written_lt _ hw _ hheld)
    · exact hline hl
  · exact hline hk

theorem Marked.step_mark : ∀ k ∈ (g.step i).traced.line, ∀ p,
    (g.step i).traced.storeSlot k = some p →
      (g.step i).cache.graduated p = if k ∈ (g.step i).retired then 2 else 1 := by
  have hc := ht.custody
  intro k hk p hp
  change g.cache.nGraduated i p = _
  rcases hc.step_line_slot hf hk hp with ⟨hk, hp⟩ | ⟨hi, rfl, rfl⟩
  · have hline := hc.kept_line hf hk
    have hmark := h.mark k hline p hp
    have hret : g.retires i k = (g.cache.graduated p == 1 && L1d.strobes i p) := by
      rw [retires, hp, Option.any_some]
    rw [h.kept_graduated ht hf hk hp, if_congr mem_step_retired rfl rfl, hret]
    by_cases hr : k ∈ g.retired
    · rw [if_pos hr] at hmark
      simp [hr, hmark]
    · rw [if_neg hr] at hmark
      simp [hr, hmark, hline]
  · have hg := L1d.tPushMiss_gotReq2 (tIncrBusy_iff.mp hi).1
    rw [h.queued_graduated ht hf hi, if_neg (h.second_notRetired ht hg)]

omit h in
/-- A slot in use belongs to a store that has stayed or that has come. -/
theorem step_owner (h : ∀ p, g.cache.graduated p ≠ 0 →
    ∃ k ∈ g.traced.line, g.traced.storeSlot k = some p) : ∀ p, (g.step i).cache.graduated p ≠ 0 →
      ∃ k ∈ (g.step i).traced.line, (g.step i).traced.storeSlot k = some p := by
  have hc := ht.custody
  intro p hp
  change g.cache.nGraduated i p ≠ 0 at hp
  by_cases hi : g.cache.tIncrBusy i = true ∧ p = g.cache.req2.robPtr
  · obtain ⟨hpush, hst⟩ := tIncrBusy_iff.mp hi.1
    have hreq := hc.second (L1d.tPushMiss_gotReq2 hpush)
    refine ⟨_, mem_step_line.mpr (Or.inr ⟨hpush, rfl⟩), ?_⟩
    exact (storeSlot_step (req_lt hreq)).trans ((storeSlot_of_req hreq).mpr ⟨hst, hi.2.symm⟩)
  · have hold : g.cache.graduated p ≠ 0 := by
      intro hz
      rw [L1d.nGraduated_apply, if_neg hi, hz] at hp
      simp at hp
    obtain ⟨k, hk, hkp⟩ := h p hold
    rw [hc.line_eq hf, List.mem_append] at hk
    rcases hk with hk | hk
    · exact absurd (hc.front_clears hk hkp) hp
    · have hlt := hc.line_lt (hc.kept_line hf hk)
      exact ⟨k, mem_step_line.mpr (Or.inl hk), (storeSlot_step hlt).trans hkp⟩

/-- The slot of the store that comes was free. -/
theorem Marked.step_alone : ∀ k ∈ (g.step i).traced.line, ∀ j ∈ (g.step i).traced.line, ∀ p,
    (g.step i).traced.storeSlot k = some p → (g.step i).traced.storeSlot j = some p → k = j := by
  have hc := ht.custody
  have hnew : g.cache.tIncrBusy i = true → ∀ j ∈ g.traced.kept i,
      g.traced.storeSlot j ≠ some g.cache.req2.robPtr := by
    intro hi j hj hjp
    obtain ⟨hpush, hst⟩ := tIncrBusy_iff.mp hi
    exact h.mark_ne (hc.kept_line hf hj) hjp (h.second (L1d.tPushMiss_gotReq2 hpush) hst)
  intro k hk j hj p hkp hjp
  rcases hc.step_line_slot hf hk hkp with ⟨hk, hkp⟩ | ⟨hi, rfl, rfl⟩
  · rcases hc.step_line_slot hf hj hjp with ⟨hj, hjp⟩ | ⟨hi, rfl, rfl⟩
    · exact h.alone k (hc.kept_line hf hk) j (hc.kept_line hf hj) p hkp hjp
    · exact absurd hkp (hnew hi k hk)
  · rcases hc.step_line_slot hf hj hjp with ⟨hj, hjp⟩ | ⟨-, rfl, -⟩
    · exact absurd hjp (hnew hi j hj)
    · rfl

omit hf in
/-- The first port takes a store up when it is retired. -/
theorem Marked.step_first (hb : (g.step i).cache.busy1 = true)
    (hst : (g.step i).cache.req.isStore = true) :
    (g.step i).traced.trace.first ∈ (g.step i).retired := by
  have hfirst : (g.step i).traced.trace.first =
    if g.cache.fires then g.traced.trace.queue.headD 0 else g.traced.trace.first := rfl
  refine mem_step_retired.mpr (Or.inl ?_)
  rcases L1d.step_busy1 (i := i) hb with ⟨hfi, hr⟩ | ⟨hfi, hb, hr⟩
  · obtain ⟨k, rest, hq, hk⟩ :=
      ht.custody.queue_head (L1d.considers_nonempty (L1d.fires_considers hfi))
    have hst : g.cache.tMemHead.isStore = true := hr ▸ hst
    have htwo : g.cache.graduated g.cache.tMemHead.robPtr = 2 := by
      simp only [L1d.fires, L1d.firesStore, L1d.firesLoad, hst, Bool.not_true, Bool.and_false,
        Bool.or_false, Bool.and_eq_true, beq_iff_eq] at hfi
      exact hfi.2
    have hline : k ∈ g.traced.line := List.mem_append_right _ (hq ▸ List.mem_cons_self)
    have hmark := h.mark k hline _ ((storeSlot_of_req hk).mpr ⟨hst, rfl⟩)
    have hk' : (g.step i).traced.trace.first = k := by rw [hfirst, hfi, hq]; rfl
    rw [hk']
    by_contra hn
    rw [if_neg hn, htwo] at hmark
    cases hmark
  · rw [hfirst, hfi]
    exact h.first hb (hr ▸ hst)

omit h ht hf in
/-- The cache takes a store only when its slot is free, and no other store comes to the slot. -/
theorem step_second (ha : g.SlotsApart i) (hg : (g.step i).cache.gotReq2 = true)
    (hst : (g.step i).cache.req2.isStore = true) :
    (g.step i).cache.graduated (g.step i).cache.req2.robPtr = 0 := by
  have hack : g.cache.coreMemReqAck i = true := hg
  have hreq : (g.step i).cache.req2 = i.coreMemReq := if_pos hack
  rw [hreq] at hst ⊢
  have hzero : g.cache.graduated i.coreMemReq.robPtr = 0 := by
    simp only [L1d.coreMemReqAck, Bool.and_eq_true, beq_iff_eq] at hack
    exact hack.2
  have hne : ¬(g.cache.tIncrBusy i = true ∧ i.coreMemReq.robPtr = g.cache.req2.robPtr) := by
    rintro ⟨hi, he⟩
    obtain ⟨hpush, hst2⟩ := tIncrBusy_iff.mp hi
    exact ha.fresh (accepts_eq.trans hack) hst (L1d.tPushMiss_gotReq2 hpush) hst2 he
  change g.cache.nGraduated i _ = 0
  rw [L1d.nGraduated_apply, if_neg hne, hzero]
  simp

omit hf in
theorem Marked.step_written {k : ℕ} (hk : k ∈ (g.step i).traced.trace.written) :
    k ∈ (g.step i).retired := by
  refine mem_step_retired.mpr (Or.inl ?_)
  rcases mem_written.mp hk with hk | ⟨hwr, rfl⟩
  · exact h.written k hk
  · have hside := ht.custody.side
    obtain ⟨hg, -, ho⟩ := tWrArray_hits hwr
    exact h.first (tWrArray_busy1 hside hwr).1 ((hside.req_wellFormed hg).trans ho)

omit hf in
/-- A retired request is a store with a slot. -/
theorem Marked.step_stores {k : ℕ} (hk : k ∈ (g.step i).retired) :
    k < g.traced.trace.accepted.length ∧ ∃ p, g.traced.storeSlot k = some p := by
  rcases mem_step_retired.mp hk with hk | ⟨hk, hr⟩
  · exact ⟨(h.retired k hk).elim ht.bound ht.custody.line_lt, h.stores k hk⟩
  · obtain ⟨p, hp, -⟩ := (Option.any_eq_true ..).mp hr
    exact ⟨ht.custody.line_lt hk, p, hp⟩

/-- A retired store leaves the line to be written. -/
theorem Marked.front_written (ha : g.SlotsApart i) {k : ℕ} (hk : k ∈ g.traced.front i)
    (hr : k ∈ (g.step i).retired) : k ∈ (g.step i).traced.trace.written := by
  have hc := ht.custody
  obtain ⟨-, p, hp⟩ := h.step_stores ht hr
  rcases hc.front_slot hk hp with ⟨hw, rfl, -⟩ | ⟨hcl, rfl⟩
  · exact mem_written.mpr (Or.inr ⟨(hc.wrote (i := i) hw).2.2.2, rfl⟩)
  · -- a store that is cleared was not retired before, and nothing is in this cycle
    obtain ⟨-, -, hne, hd, -⟩ := tForceClearBusy_iff.mp hcl
    rcases mem_step_retired.mp hr with hr | ⟨-, hr⟩
    · have hline : k ∈ g.traced.line := by
        rw [hc.line_eq hf]
        exact List.mem_append_left _ hk
      have hmark := h.mark k hline _ hp
      rw [if_pos hr] at hmark
      exact absurd hmark hne
    · rw [retires, hp, Option.any_some, ha.drained hd, Bool.and_false] at hr
      cases hr

theorem Marked.step_retired (ha : g.SlotsApart i) {k : ℕ} (hk : k ∈ (g.step i).retired) :
    k ∈ (g.step i).traced.trace.written ∨ k ∈ (g.step i).traced.line := by
  have hold : k ∈ g.traced.trace.written ∨ k ∈ g.traced.line :=
    (mem_step_retired.mp hk).elim (h.retired k) fun hk => Or.inr hk.1
  rcases hold with hw | hl
  · exact Or.inl (mem_written.mpr (Or.inl hw))
  · rw [ht.custody.line_eq hf, List.mem_append] at hl
    rcases hl with hl | hl
    · exact Or.inl (h.front_written ht hf ha hl hk)
    · exact Or.inr (mem_step_line.mpr (Or.inl hl))

theorem Marked.step (ha : g.SlotsApart i) : (g.step i).Marked where
  mark := h.step_mark ht hf
  owner := step_owner ht hf h.owner
  alone := h.step_alone ht hf
  first := h.step_first ht
  second := step_second ha
  written := fun _ hk => h.step_written ht hk
  retired := fun _ hk => h.step_retired ht hf ha hk
  stores := fun k hk => by
    obtain ⟨hlt, p, hp⟩ := h.step_stores ht hk
    exact ⟨p, (storeSlot_step hlt).trans hp⟩

end Step

theorem reset_marked (m : L1dInit) (mem : Word → Line) : (reset m mem).Marked where
  mark := fun _ hk => by simp [line, reset, Traced.reset, DataSide.reset, L1d.reset, L1d.busy1] at hk
  owner := fun _ h => absurd rfl h
  alone := fun _ hk => by simp [line, reset, Traced.reset, DataSide.reset, L1d.reset, L1d.busy1] at hk
  first := fun h => by simp [reset, Traced.reset, DataSide.reset, L1d.reset, L1d.busy1] at h
  second := fun h => by simp [reset, Traced.reset, DataSide.reset, L1d.reset] at h
  written := fun _ h => by simp [reset, Traced.reset] at h
  retired := fun _ h => by simp [reset] at h
  stores := fun _ h => by simp [reset] at h

/-! ## Precise stores -/

/-- A store is written only after the retirement ports have named its slot while it waited, and
such a store is not squashed but waits until it is written.  The slot of a store that is queued
was free and that of the head is in use, as the source checks. -/
structure Graduates (g : Graded) : Prop where
  graduates : ∀ i k, k ∈ (g.step i).retired ↔
    k ∈ g.retired ∨ k ∈ g.traced.line ∧ ∃ p, g.traced.storeSlot k = some p ∧ L1d.strobes i p = true
  written : ∀ k ∈ g.traced.trace.written, k ∈ g.retired
  kept : ∀ k ∈ g.retired, k ∈ g.traced.trace.written ∨ k ∈ g.traced.line
  squashed : ∀ k ∈ g.retired, k ∉ g.traced.trace.squashed
  queued : ∀ i, g.cache.tIncrBusy i = true → g.cache.graduated g.cache.req2.robPtr = 0
  head : g.cache.considers = true → g.cache.tMemHead.isStore = true →
    g.cache.graduated g.cache.tMemHead.robPtr ≠ 0

/-- A store in the line is retired when the retirement ports name its slot. -/
theorem Marked.mem_step_retired_iff (h : g.Marked) {k : ℕ} : k ∈ (g.step i).retired ↔
    k ∈ g.retired ∨ k ∈ g.traced.line ∧ ∃ p, g.traced.storeSlot k = some p ∧ L1d.strobes i p = true := by
  rw [mem_step_retired]
  refine or_congr_right' fun hn => and_congr_right fun hk => ?_
  rw [retires, Option.any_eq_true]
  refine exists_congr fun p => and_congr_right fun hp => ?_
  rw [h.mark k hk p hp, if_neg hn]
  simp

theorem Marked.graduates {mem : Word → Line} (h : g.Marked) (ht : g.traced.Fates mem) :
    g.Graduates where
  graduates := fun _ _ => h.mem_step_retired_iff
  written := h.written
  kept := h.retired
  squashed := fun k hk hs => by
    rcases h.retired k hk with hw | hl
    · exact ht.squashed_written hs hw
    · exact ht.squashed_held hs (held_line ▸ List.mem_append_left _ hl)
  queued := fun _ hi => by
    obtain ⟨hpush, hst⟩ := tIncrBusy_iff.mp hi
    exact h.second (L1d.tPushMiss_gotReq2 hpush) hst
  head := fun hco hst => by
    obtain ⟨k, rest, hq, hk⟩ := ht.custody.queue_head (L1d.considers_nonempty hco)
    exact h.mark_ne (List.mem_append_right _ (hq ▸ List.mem_cons_self))
      ((storeSlot_of_req hk).mpr ⟨hst, rfl⟩)

/-- While the neighbours keep their promises and flushes keep apart from misses, stores are precise. -/
theorem run_graduates (m : L1dInit) (mem : Word → Line) (inputs : List L1dIn)
    (h : Clocked.Guarded step
      (fun g i => g.traced.side.Promised i ∧ g.traced.side.FlushesApart i ∧ g.SlotsApart i)
      (reset m mem) inputs) :
    (Clocked.run step (reset m mem) inputs).Graduates := by
  have hstep : ∀ g i, g.traced.Fates mem ∧ g.Marked →
      g.traced.side.Promised i ∧ g.traced.side.FlushesApart i ∧ g.SlotsApart i →
        (step g i).traced.Fates mem ∧ (step g i).Marked :=
    fun _ _ hx hg => ⟨hx.1.step hg.1 hg.2.1, hx.2.step hx.1 hg.2.1 hg.2.2⟩
  have hinv := h.invariant hstep ⟨reset_fates m mem, reset_marked m mem⟩
  exact hinv.2.graduates hinv.1

theorem run_graduates_squash :
    (Clocked.run step (reset {} fun _ => 0) storeLoadSquash).retired = [0] ∧
      (Clocked.run step (reset {} fun _ => 0) storeLoadSquash).Graduates :=
  ⟨by decide +kernel, run_graduates {} _ storeLoadSquash (by decide +kernel)⟩

end Graded
end MipsCore
