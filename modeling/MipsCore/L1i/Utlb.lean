import Mathlib
import MipsCore.BitCount
import MipsCore.L1i.Step

/-! # Translation of fetch addresses

`utlb.sv` as the instruction cache instantiates it, and `tlb.sv`, which answers every page that is
asked for.  The look-up and the refill of the uTLB are registered at the same edge, and a look-up
does not see what is written beside it.
-/
namespace MipsCore
open Clocked (run Guarded Since)
open Ring (writeIf writeIf_apply)

/-- An address without its `LG_PG_SZ` low bits. -/
abbrev Page := BitVec 52

def pageOf (a : Word) : Page := a.extractLsb' 12 52

/-- `utlb_entry_t` -/
structure UtlbEntry where
  paddr : Page := 0
  r : Bool := false
  w : Bool := false
  x : Bool := false
  bogus : Bool := false
  valid : Bool := false
  deriving DecidableEq, Repr

/-- The registers of `utlb.sv` but for `r_repl` and `r_addr`, which nothing reads. -/
structure Utlb where
  entries : BitVec 3 → UtlbEntry
  hit : Bool
  hitEntry : UtlbEntry
  pMru : BitVec 8

structure UtlbIn where
  flush : Bool
  req : Bool
  addr : Word
  tlbRsp : UtlbEntry
  tlbRspValid : Bool

namespace Utlb
variable (u : Utlb) (i : UtlbIn)

/-- One bit for every entry. -/
def bits (m : BitVec 3 → Bool) : BitVec 8 :=
  (BitVec.ofBool (m 7) ++ BitVec.ofBool (m 6) ++ BitVec.ofBool (m 5) ++ BitVec.ofBool (m 4) ++
    BitVec.ofBool (m 3) ++ BitVec.ofBool (m 2) ++ BitVec.ofBool (m 1) ++ BitVec.ofBool (m 0)).cast
    (by decide)

/-- `t_hit_vec` -/
def hitVec : BitVec 8 :=
  bits fun k => if (u.entries k).valid then (u.entries k).paddr == pageOf i.addr else false

/-- `t_hit_pos` and `t_repl_pos` as the entries are indexed with them. -/
def hitPos : BitVec 3 := (findFirstSet 1 (u.hitVec i)).setWidth 3
def replPos : BitVec 3 := (findFirstSet 1 (~~~u.pMru)).setWidth 3

def nPMru : BitVec 8 := if i.req then u.pMru ||| u.hitVec i else u.pMru

/-- One cycle of the uTLB; a flush goes before a refill. -/
def step : Utlb where
  entries :=
    if i.flush then fun k => { u.entries k with valid := false }
    else writeIf i.tlbRspValid u.replPos i.tlbRsp u.entries
  hit := i.req && u.hitVec i != 0
  hitEntry := u.entries (u.hitPos i)
  pMru := if u.nPMru i = BitVec.allOnes 8 then 0 else u.nPMru i

end Utlb

inductive TlbFsm
  | IDLE | ISIDE | DSIDE
  deriving DecidableEq, Repr

structure Tlb where
  state : TlbFsm := .IDLE
  isideRspValid : Bool := false
  dsideRspValid : Bool := false
  gotIside : Bool := false
  gotDside : Bool := false
  tlbHit : Bool := false
  isideTlbMiss : Bool := false
  dsideTlbMiss : Bool := false
  tlbRsp : UtlbEntry := {}
  deriving DecidableEq, Repr

structure TlbIn where
  isideReq : Bool
  dsideReq : Bool
  isidePaddr : Page
  dsidePaddr : Page

namespace Tlb
variable (t : Tlb) (i : TlbIn)

/-- One cycle of the TLB. -/
def step : Tlb :=
  let gotIside := t.gotIside || i.isideReq
  let gotDside := t.gotDside || i.dsideReq
  match t.state with
  | .IDLE =>
    { state := if gotIside then .ISIDE else if gotDside then .DSIDE else .IDLE
      gotIside := gotIside
      gotDside := gotDside
      isideTlbMiss := gotIside
      dsideTlbMiss := gotDside
      tlbRsp := t.tlbRsp }
  | .ISIDE =>
    { isideRspValid := true
      gotDside := gotDside
      tlbRsp := { paddr := i.isidePaddr, x := true, valid := true } }
  | .DSIDE =>
    { dsideRspValid := true
      gotIside := gotIside
      tlbRsp := { paddr := i.dsidePaddr, r := true, w := true, valid := true } }

end Tlb

/-- The instruction cache with its uTLB, its miss registers and the TLB. -/
structure Itlb where
  l1i : L1i
  utlbMissReq : Bool
  utlbMissPaddr : Page
  utlb : Utlb
  tlb : Tlb

/-- What the cache reads, and what the data side asks the TLB. -/
structure ItlbIn extends L1iIn where
  dsideReq : Bool := false
  dsidePaddr : Page := 0

/-- What reset leaves alone. -/
structure ItlbInit where
  l1i : L1iInit := {}
  entries : BitVec 3 → UtlbEntry := fun _ => {}
  hitEntry : UtlbEntry := {}
  tlbRsp : UtlbEntry := {}

namespace Itlb

def reset (m : ItlbInit) : Itlb where
  l1i := L1i.reset m.l1i
  utlbMissReq := false
  utlbMissPaddr := 0
  utlb :=
    { entries := fun k => { m.entries k with paddr := 0, valid := false }
      hit := false
      hitEntry := m.hitEntry
      pMru := 0 }
  tlb := { tlbRsp := m.tlbRsp }

variable (s : Itlb) (i : ItlbIn)

def l1iIn : L1iIn := { i.toL1iIn with utlbHit := s.utlb.hit, tlbRspValid := s.tlb.isideRspValid }

/-- `n_utlb_miss_req` -/
def nUtlbMissReq : Bool := s.l1i.state == .ACTIVE && s.l1i.action (s.l1iIn i) == .reloadUtlb

/-- `n_flush_complete` -/
def nFlushComplete : Bool := s.l1i.state == .FLUSH_CACHE && s.l1i.cacheIdx == lastSet

def utlbIn : UtlbIn where
  flush := s.nFlushComplete
  req := s.l1i.nReq (s.l1iIn i)
  addr := lineAddr (s.l1i.tCacheTag (s.l1iIn i)) (s.l1i.tCacheIdx (s.l1iIn i))
  tlbRsp := s.tlb.tlbRsp
  tlbRspValid := s.tlb.isideRspValid

def tlbIn : TlbIn where
  isideReq := s.utlbMissReq
  dsideReq := i.dsideReq
  isidePaddr := s.utlbMissPaddr
  dsidePaddr := i.dsidePaddr

/-- One cycle. -/
def step : Itlb where
  l1i := s.l1i.step (s.l1iIn i)
  utlbMissReq := s.nUtlbMissReq i
  utlbMissPaddr := if s.nUtlbMissReq i then pageOf s.l1i.cachePc else s.utlbMissPaddr
  utlb := s.utlb.step (s.utlbIn i)
  tlb := s.tlb.step (s.tlbIn i)

/-! ## Pages that the uTLB holds -/

end Itlb

/-- The entry is valid and translates the page. -/
def UtlbEntry.Maps (e : UtlbEntry) (p : Page) : Prop := e.valid = true ∧ e.paddr = p

instance (e : UtlbEntry) (p : Page) : Decidable (e.Maps p) := inferInstanceAs (Decidable (_ ∧ _))

namespace Utlb
variable {u : Utlb} {i : UtlbIn} {p : Page}

/-- Some entry translates the page. -/
def Holds (u : Utlb) (p : Page) : Prop := ∃ k, (u.entries k).Maps p

/-- No two entries translate the page. -/
def Unique (u : Utlb) (p : Page) : Prop :=
  ∀ k l, (u.entries k).Maps p → (u.entries l).Maps p → k = l

/-- An entry of the page is written. -/
def Installs (i : UtlbIn) (p : Page) : Prop :=
  i.flush = false ∧ i.tlbRspValid = true ∧ i.tlbRsp.Maps p

/-- The only entry of the page is replaced by another page's. -/
def Replaces (u : Utlb) (i : UtlbIn) (p : Page) : Prop :=
  i.tlbRspValid = true ∧ ¬i.tlbRsp.Maps p ∧ ∀ k, (u.entries k).Maps p ↔ k = u.replPos

instance (i : UtlbIn) (p : Page) : Decidable (Installs i p) := inferInstanceAs (Decidable (_ ∧ _))
instance (u : Utlb) (p : Page) : Decidable (u.Holds p) := inferInstanceAs (Decidable (∃ _, _))
instance (u : Utlb) (p : Page) : Decidable (u.Unique p) := inferInstanceAs (Decidable (∀ _, _))

theorem getLsbD_bits (m : BitVec 3 → Bool) (k : BitVec 3) : (bits m).getLsbD k.toNat = m k := by
  have hk : k = 0 ∨ k = 1 ∨ k = 2 ∨ k = 3 ∨ k = 4 ∨ k = 5 ∨ k = 6 ∨ k = 7 := by
    revert k
    decide
  simp only [bits, BitVec.getLsbD_cast, BitVec.getLsbD_append, BitVec.getLsbD_ofBool]
  rcases hk with rfl | rfl | rfl | rfl | rfl | rfl | rfl | rfl <;> simp

theorem getLsbD_hitVec (u : Utlb) (i : UtlbIn) (k : BitVec 3) :
    (u.hitVec i).getLsbD k.toNat = true ↔ (u.entries k).Maps (pageOf i.addr) := by
  rw [hitVec, getLsbD_bits, UtlbEntry.Maps]
  cases (u.entries k).valid <;> simp

/-- A look-up that hits answers an entry of the page. -/
theorem maps_hitPos (h : u.hitVec i ≠ 0) : (u.entries (u.hitPos i)).Maps (pageOf i.addr) := by
  obtain ⟨hlt, hbit, -⟩ := (bitScanners 1 (u.hitVec i)).1 h
  have hpos : (u.hitPos i).toNat = (findFirstSet 1 (u.hitVec i)).toNat := by
    rw [hitPos, BitVec.toNat_setWidth]
    exact Nat.mod_eq_of_lt hlt
  rw [← getLsbD_hitVec, hpos]
  exact hbit

/-- What the entries translate after a cycle. -/
theorem maps_step (u : Utlb) (i : UtlbIn) (p : Page) (k : BitVec 3) :
    ((u.step i).entries k).Maps p ↔ i.flush = false ∧
      if i.tlbRspValid = true ∧ k = u.replPos then i.tlbRsp.Maps p else (u.entries k).Maps p := by
  cases hf : i.flush with
  | true => simp [step, hf, UtlbEntry.Maps]
  | false =>
    simp only [step, hf, Bool.false_eq_true, if_false, writeIf_apply, true_and]
    split <;> rfl

/-- A page is held from when it is installed until a flush, or until another page replaces it. -/
theorem holds_step (u : Utlb) (i : UtlbIn) (p : Page) : (u.step i).Holds p ↔
    ¬(i.flush = true ∨ u.Replaces i p) ∧ (Installs i p ∨ u.Holds p) := by
  unfold Holds Installs Replaces
  simp only [maps_step]
  cases hf : i.flush with
  | true => simp
  | false =>
    cases hv : i.tlbRspValid with
    | false => simp
    | true =>
      by_cases hm : i.tlbRsp.Maps p
      · simp only [hm, Bool.false_eq_true, false_or, true_and, not_true_eq_false, false_and,
          not_false_iff, true_or, iff_true]
        exact ⟨u.replPos, by simp⟩
      · simp only [hm, Bool.false_eq_true, false_or, true_and, not_false_iff, and_false]
        constructor
        · rintro ⟨k, hk⟩
          split at hk
          · exact absurd hk not_false
          · next hne => exact ⟨fun hall => hne ((hall k).mp hk), k, hk⟩
        · rintro ⟨hall, k, hk⟩
          by_contra hno
          have hall' : ∀ k, (u.entries k).Maps p → k = u.replPos := fun l hl => by
            by_contra hne
            exact hno ⟨l, by rwa [if_neg hne]⟩
          exact hall fun l => ⟨hall' l, fun hl => by rwa [hl, ← hall' k hk]⟩

/-- A refill with a page that is not held leaves one entry of it. -/
theorem unique_step (hu : u.Unique p)
    (habs : i.flush = false → i.tlbRspValid = true → i.tlbRsp.Maps p → ¬u.Holds p) :
    (u.step i).Unique p := by
  intro k l hk hl
  rw [maps_step] at hk hl
  obtain ⟨hf, hk⟩ := hk
  obtain ⟨-, hl⟩ := hl
  split at hk <;> split at hl
  · next h1 h2 => exact h1.2.trans h2.2.symm
  · next h1 h2 => exact absurd ⟨l, hl⟩ (habs hf h1.1 hk)
  · next h1 h2 => exact absurd ⟨k, hk⟩ (habs hf h2.1 hl)
  · exact hu k l hk hl

/-- The entry that a look-up answers is the only one of the page. -/
theorem hitEntry_step (hu : u.Unique (pageOf i.addr)) (h : (u.step i).hit = true) :
    ∃ k, (u.step i).hitEntry = u.entries k ∧
      ∀ l, (u.entries l).Maps (pageOf i.addr) ↔ l = k := by
  have hne : u.hitVec i ≠ 0 := by
    simp only [step, Bool.and_eq_true, bne_iff_ne] at h
    exact h.2
  have hm := maps_hitPos hne
  exact ⟨u.hitPos i, rfl, fun l => ⟨fun hl => hu _ _ hl hm, fun hl => hl ▸ hm⟩⟩

end Utlb

namespace Itlb
variable {s : Itlb} {i : ItlbIn} {p : Page}

/-! ## One miss at a time -/

/-- A miss is taken for a page that the uTLB holds. -/
def MissesHeld (s : Itlb) (i : ItlbIn) (p : Page) : Prop :=
  s.nUtlbMissReq i = true ∧ pageOf s.l1i.cachePc = p ∧ s.utlb.Holds p

instance (s : Itlb) (i : ItlbIn) (p : Page) : Decidable (s.MissesHeld i p) :=
  inferInstanceAs (Decidable (_ ∧ _))

/-- The cache waits for the TLB just while it has asked it, and is answered with the page. -/
structure Asks (s : Itlb) : Prop where
  idle : s.l1i.state ≠ .RELOAD_UTLB → s.utlbMissReq = false ∧ s.tlb.gotIside = false ∧
    s.tlb.state ≠ .ISIDE ∧ s.tlb.isideRspValid = false
  answered : s.tlb.isideRspValid = true → s.utlbMissReq = false ∧ s.tlb.gotIside = false ∧
    s.tlb.state ≠ .ISIDE ∧ s.tlb.tlbRsp.Maps s.utlbMissPaddr
  once : s.tlb.state = .ISIDE → s.utlbMissReq = false

/-- When the next state waits for the TLB. -/
theorem nState_iff {s : L1i} {i : L1iIn} : s.nState i = .RELOAD_UTLB ↔
    (s.state == .ACTIVE && s.action i == .reloadUtlb) = true ∨
      s.state = .RELOAD_UTLB ∧ i.tlbRspValid = false := by
  unfold L1i.nState L1i.flushes L1i.restarts
  cases hs : s.state <;> simp
  case ACTIVE => cases s.action i <;> simp
  all_goals split_ifs <;> simp_all

theorem nState_step (s : Itlb) (i : ItlbIn) : (s.step i).l1i.state = .RELOAD_UTLB ↔
    s.nUtlbMissReq i = true ∨ s.l1i.state = .RELOAD_UTLB ∧ s.tlb.isideRspValid = false :=
  nState_iff

/-- A miss is taken in the active state. -/
theorem state_of_miss (h : s.nUtlbMissReq i = true) : s.l1i.state = .ACTIVE := by
  simp only [nUtlbMissReq, Bool.and_eq_true, beq_iff_eq] at h
  exact h.1

theorem step_asks (h : s.Asks) : (s.step i).Asks := by
  have hmiss : (s.step i).utlbMissReq = true → s.utlbMissReq = false ∧ s.tlb.gotIside = false ∧
      s.tlb.state ≠ .ISIDE := by
    intro hm
    obtain ⟨h1, h2, h3, -⟩ := h.idle (by rw [state_of_miss hm]; decide)
    exact ⟨h1, h2, h3⟩
  -- without a request, what is not on its way to the instruction side stays so
  have hquiet : s.utlbMissReq = false → s.tlb.gotIside = false → s.tlb.state ≠ .ISIDE →
      (s.step i).tlb.gotIside = false ∧ (s.step i).tlb.state ≠ .ISIDE ∧
        (s.step i).tlb.isideRspValid = false := by
    intro h1 h2 h3
    simp only [step, Tlb.step, tlbIn, h1, h2]
    cases ht : s.tlb.state with
    | IDLE => cases s.tlb.gotDside <;> cases i.dsideReq <;> simp
    | ISIDE => exact absurd ht h3
    | DSIDE => simp
  refine ⟨fun hs => ?_, fun hv => ?_, fun ht => ?_⟩
  · rw [Ne, nState_step, not_or, Bool.not_eq_true] at hs
    have hreq : (s.step i).utlbMissReq = false := hs.1
    by_cases hw : s.l1i.state = .RELOAD_UTLB
    · obtain ⟨h1, h2, h3, -⟩ := h.answered (Bool.eq_true_of_not_eq_false fun hv => hs.2 ⟨hw, hv⟩)
      exact ⟨hreq, hquiet h1 h2 h3⟩
    · obtain ⟨h1, h2, h3, -⟩ := h.idle hw
      exact ⟨hreq, hquiet h1 h2 h3⟩
  · have ht : s.tlb.state = .ISIDE := by
      by_contra ht
      revert hv
      simp only [step, Tlb.step]
      cases ht' : s.tlb.state <;> simp_all
    have hreq : (s.step i).utlbMissReq = false :=
      Bool.eq_false_iff.mpr fun hm => (hmiss hm).2.2 ht
    have hreq' : s.nUtlbMissReq i = false := hreq
    refine ⟨hreq, ?_⟩
    simp [step, Tlb.step, ht, tlbIn, hreq', UtlbEntry.Maps]
  · refine Bool.eq_false_iff.mpr fun hm => ?_
    obtain ⟨h1, h2, h3⟩ := hmiss hm
    exact (hquiet h1 h2 h3).2.1 ht

/-- A page is in one entry at most, and in none while it is asked for. -/
structure PageInv (s : Itlb) (p : Page) : Prop where
  asks : s.Asks
  unique : s.utlb.Unique p
  absent : s.l1i.state = .RELOAD_UTLB → s.utlbMissPaddr = p → ¬s.utlb.Holds p

theorem reset_pageInv (m : ItlbInit) (p : Page) : (reset m).PageInv p where
  asks := ⟨fun _ => ⟨rfl, rfl, by simp [reset], rfl⟩, fun h => by simp [reset] at h, fun _ => rfl⟩
  unique := fun k l hk => by simp [reset, UtlbEntry.Maps] at hk
  absent := fun h => by simp [reset, L1i.reset] at h

/-- A refill is what the cache waits for. -/
theorem Asks.refill (h : s.Asks) (hv : s.tlb.isideRspValid = true) :
    s.l1i.state = .RELOAD_UTLB ∧ s.tlb.tlbRsp.Maps s.utlbMissPaddr := by
  refine ⟨?_, (h.answered hv).2.2.2⟩
  by_contra hs
  have := (h.idle hs).2.2.2
  rw [hv] at this
  exact Bool.noConfusion this

/-- The uTLB is left alone while no answer comes and no flush completes. -/
theorem holds_step_of_quiet (hf : s.nFlushComplete = false) (hv : s.tlb.isideRspValid = false) :
    (s.step i).utlb.Holds p ↔ s.utlb.Holds p := by
  have hinstalls : ¬Utlb.Installs (s.utlbIn i) p := fun h => by
    have := h.2.1
    rw [utlbIn, hv] at this
    exact Bool.noConfusion this
  have hclears : ¬((s.utlbIn i).flush = true ∨ s.utlb.Replaces (s.utlbIn i) p) := by
    rintro (h | ⟨h, -⟩)
    · rw [utlbIn, hf] at h
      exact Bool.noConfusion h
    · rw [utlbIn, hv] at h
      exact Bool.noConfusion h
  exact (Utlb.holds_step _ _ _).trans
    ⟨fun h => h.2.resolve_left hinstalls, fun h => ⟨hclears, Or.inr h⟩⟩

/-- What one cycle keeps, while no miss is taken for the page when it is held. -/
theorem step_pageInv (h : s.PageInv p) (hg : ¬s.MissesHeld i p) : (s.step i).PageInv p := by
  have hflush : s.l1i.state ≠ .FLUSH_CACHE → s.nFlushComplete = false := fun hs => by
    simp [nFlushComplete, hs]
  refine ⟨step_asks h.asks, Utlb.unique_step h.unique fun _ hv hm => ?_, fun hs hp => ?_⟩
  · obtain ⟨hs, hmaps⟩ := h.asks.refill hv
    exact h.absent hs (hmaps.2.symm.trans hm.2)
  · rcases (nState_step s i).mp hs with hmiss | ⟨hw, hv⟩
    · -- the page has just been asked for
      have hst := state_of_miss hmiss
      have hv := (h.asks.idle (by rw [hst]; decide)).2.2.2
      rw [holds_step_of_quiet (hflush (by rw [hst]; decide)) hv]
      have hpage : pageOf s.l1i.cachePc = p := by
        rw [← hp]
        simp [step, hmiss]
      exact fun hh => hg ⟨hmiss, hpage, hh⟩
    · rw [holds_step_of_quiet (hflush (by rw [hw]; decide)) hv]
      have hmiss : s.nUtlbMissReq i = false :=
        Bool.eq_false_iff.mpr fun hm => by simp [state_of_miss hm] at hw
      refine h.absent hw ?_
      rw [← hp]
      simp [step, hmiss]

/-- In every run that takes no miss for a page while the uTLB holds it, no two entries translate
the page, a look-up of it that hits answers its only entry, and it is not installed again before
a flush or another page has removed it. -/
theorem guarded_unique (m : ItlbInit) (p : Page) (inputs : List ItlbIn)
    (hg : Guarded step (fun s i => ¬s.MissesHeld i p) (reset m) inputs) (i : ItlbIn) :
    let s := run step (reset m) inputs
    s.utlb.Unique p ∧
      (pageOf (s.utlbIn i).addr = p → (s.step i).utlb.hit = true →
        ∃ k, (s.step i).utlb.hitEntry = s.utlb.entries k ∧
          ∀ l, (s.utlb.entries l).Maps p ↔ l = k) ∧
      (Utlb.Installs (s.utlbIn i) p →
        ¬Since step (fun s i => Utlb.Installs (s.utlbIn i) p)
          (fun s i => (s.utlbIn i).flush = true ∨ s.utlb.Replaces (s.utlbIn i) p) (reset m)
          inputs) := by
  intro s
  have hstep : ∀ (s : Itlb) (i : ItlbIn), s.PageInv p → ¬s.MissesHeld i p → (s.step i).PageInv p :=
    fun _ _ => step_pageInv
  have h : s.PageInv p := hg.invariant hstep (reset_pageInv m p)
  refine ⟨h.unique, ?_, ?_⟩
  · rintro rfl hhit
    exact Utlb.hitEntry_step h.unique hhit
  · rintro ⟨-, hv, hm⟩ hsince
    obtain ⟨hs, hmaps⟩ := h.asks.refill hv
    refine h.absent hs (hmaps.2.symm.trans hm.2) ?_
    refine (Clocked.flag_iff_since (P := fun s : Itlb => s.utlb.Holds p)
      (fun s i => Utlb.holds_step _ _ _) ?_ inputs).mpr hsince
    rintro ⟨k, hk⟩
    simp [reset, UtlbEntry.Maps] at hk

/-! ## The cycle after a refill -/

/-- A cycle without any request. -/
def quiet : ItlbIn := {}

/-- A restart that misses, with the cycle in which the answer is installed. -/
def missRun (pc : Word) : List ItlbIn :=
  [{ restartPc := pc, restartValid := true }, quiet, quiet, quiet, quiet, quiet]

/-- The answer is installed, and a restart comes before its page is looked up again. -/
theorem guarded_unique_restart :
    (run step (reset {}) (missRun 0 ++ missRun 0)).utlb.Unique 0 ∧
      (run step (reset {}) (missRun 0 ++ missRun 0)).utlb.Holds 0 :=
  ⟨(guarded_unique {} 0 (missRun 0 ++ missRun 0) (by decide +kernel) quiet).1, by decide +kernel⟩

/-- The page is replaced by another one and asked for again. -/
def replaceRun : List ItlbIn := missRun 0 ++ missRun 0x1000 ++ missRun 0

/-- Without the restart the page misses again in the cycle after its refill, and is installed in
another entry.  A page that another one has replaced is installed again without a flush. -/
theorem not_unique :
    ¬(run step (reset {}) (missRun 0 ++ [quiet, quiet, quiet, quiet])).utlb.Unique 0 ∧
      Guarded step (fun s i => ¬s.MissesHeld i 0 ∧ s.nFlushComplete = false) (reset {}) replaceRun ∧
      Utlb.Installs ((run step (reset {}) (replaceRun.take 5)).utlbIn quiet) 0 ∧
      Utlb.Installs ((run step (reset {}) (replaceRun.take 17)).utlbIn quiet) 0 :=
  ⟨by decide +kernel, by decide +kernel, by decide +kernel, by decide +kernel⟩

end Itlb
end MipsCore
