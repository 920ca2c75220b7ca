import MipsCore.L1i.Stream

/-! # The instruction cache and its memory

The instruction cache beside the memory that answers it.  The arrays agree with
memory between flushes, the queue takes what is pushed, and so the stream that
the decoder reads is the program's, as long as the idle state takes no restart
with the delay-slot flag set.
-/
namespace MipsCore
open Clocked (Guarded run)

structure Fetch where
  l1i : L1i
  image : Word → Line
  /-- A request has been seen that is not answered yet. -/
  pending : Bool
  expect : Expect

structure FetchIn extends L1iIn where
  /-- A line that memory takes at the end of the cycle. -/
  store : Option (Word × Line) := none

def Fetch.reset (m : L1iInit) (image : Word → Line) : Fetch where
  l1i := .reset m
  image := image
  pending := false
  expect := .idle

namespace L1i
variable (s : L1i) (i : L1iIn)

def fqCount : ℕ := Ring.count s.fqHeadPtr s.fqTailPtr
/-- The fetch queue, oldest record first. -/
def fqWindow : List InsnFetch := Ring.contents s.fq s.fqHeadPtr s.fqCount

/-- The cache holds the line of an address, is reading it or has asked for it. -/
def holds (a : Word) : Bool :=
  s.validRam (setOf a) && s.tagRam (setOf a) == tagOf a ||
    s.req && s.validOut && s.cacheIdx == setOf a && s.tagOut == tagOf a ||
    s.state == .INJECT_RELOAD && s.memReqAddr == lineOf a

/-! ## The fetch queue -/

section Queue
variable {s : L1i} {i : L1iIn}

/-- The queue pointers are consistent; the tail pointers are set up by the first restart. -/
structure FqOk (s : L1i) : Prop where
  nextHead : s.fqNextHeadPtr = s.fqHeadPtr + 1
  tails : s.state ≠ .IDLE → s.fqNextTailPtr = s.fqTailPtr + 1 ∧
    s.fqNext3TailPtr = s.fqTailPtr + 2 ∧ s.fqNext4TailPtr = s.fqTailPtr + 3
  le : s.fqCount ≤ 8

theorem fullAt_room {k : ℕ} (hc : s.fqCount + k ≤ 8)
    (hf : s.fullAt (s.fqTailPtr + BitVec.ofNat 4 k) = false) : s.fqCount + (k + 1) ≤ 8 := by
  refine @Ring.count_lt_of_not_full_at 3 _ _ _ hc fun h => ?_
  rw [fullAt, bne_iff_ne.mpr h.2, beq_iff_eq.mpr h.1] at hf
  cases hf

theorem pushed_room (hq : s.FqOk) (hb : s.resteerBubble = false) :
    s.fqCount + (s.pushed i).length ≤ 8 := by
  cases hp : s.pushes i with
  | false => simpa [pushed_of_not hp] using hq.le
  | true =>
    simp only [pushes, Bool.and_eq_true, beq_iff_eq] at hp
    have hspec := action_spec (s := s) (i := i) hb
    rw [hp.2] at hspec
    obtain ⟨h2, h3, h4⟩ := hq.tails (by rw [hp.1]; decide)
    have room1 : s.fqCount + 1 ≤ 8 :=
      fullAt_room hq.le (by rw [BitVec.add_zero]; exact hspec.2.2)
    have room2 (h : s.fqFull2 = false) : s.fqCount + 2 ≤ 8 := by
      simp only [fqFull2, Bool.or_eq_false_iff] at h
      exact fullAt_room room1 (h2 ▸ h.1)
    have room3 (h : s.fqFull3 = false) : s.fqCount + 3 ≤ 8 := by
      simp only [fqFull3, Bool.or_eq_false_iff] at h
      exact fullAt_room (room2 h.2) (h3 ▸ h.1)
    have room4 (h : s.fqFull4 = false) : s.fqCount + 4 ≤ 8 := by
      simp only [fqFull4, Bool.or_eq_false_iff] at h
      exact fullAt_room (room3 h.2) (h4 ▸ h.1)
    have hw := s.pushWidth_cases
    rw [pushed, if_pos (push_pushes hp.1 hp.2)]
    generalize s.pushWidth = w at hw ⊢
    cases hw with
    | one => exact room1
    | two h => exact room2 h
    | three h => exact room3 h
    | four h => exact room4 h

theorem writeFq_pushed (hq : s.FqOk) : s.writeFq (s.pushed i) =
    Ring.writeAll s.fq s.fqTailPtr (s.pushed i) := by
  cases hp : s.pushes i with
  | false => rw [pushed_of_not hp]; rfl
  | true =>
    simp only [pushes, Bool.and_eq_true, beq_iff_eq] at hp
    obtain ⟨h2, h3, h4⟩ := hq.tails (by rw [hp.1]; decide)
    have hw := s.pushWidth_cases
    have e2 : s.fqTailPtr + 1 + 1 = s.fqTailPtr + 2 := BitVec.add_assoc ..
    have e3 : s.fqTailPtr + 2 + 1 = s.fqTailPtr + 3 := BitVec.add_assoc ..
    rw [pushed, if_pos (push_pushes hp.1 hp.2)]
    generalize s.pushWidth = w at hw ⊢
    cases hw <;> simp only [writeFq, Ring.writeAll, h2, h3, h4, e2, e3]

/-- What is taken was there. -/
theorem popStep_le (hq : s.FqOk) (hack : i.insnAck = true →
    s.fqEmpty = false ∧ (i.insnAckTwo = true → s.fqNextEmpty = false)) :
    (popStep i).toNat ≤ s.fqCount := by
  unfold popStep
  split
  · next h =>
    obtain ⟨he, hne⟩ := hack h
    have h0 : s.fqCount ≠ 0 := fun hc => by
      simp [fqEmpty, Ring.count_eq_zero.mp hc] at he
    split
    · next h2 =>
      have h1 : s.fqCount ≠ 1 := fun hc => by
        have := hne h2
        rw [fqNextEmpty, hq.nextHead, Ring.count_eq_one.mpr hc] at this
        simp at this
      change 2 ≤ s.fqCount
      omega
    · change 1 ≤ s.fqCount
      omega
  · exact Nat.zero_le _

/-- A cycle clears the queue, or takes records from its head and appends what is pushed. -/
theorem step_fqWindow (hq : s.FqOk) (hb : s.resteerBubble = false) (hack : i.insnAck = true →
    s.fqEmpty = false ∧ (i.insnAckTwo = true → s.fqNextEmpty = false)) :
    (s.step i).FqOk ∧ (s.step i).fqWindow =
      if s.tClearFq i then [] else s.fqWindow.drop (popStep i).toNat ++ s.pushed i := by
  have hroom := pushed_room (i := i) hq hb
  have hpop := popStep_le hq hack
  cases hc : s.tClearFq i with
  | true =>
    have hp (first k p : BitVec 4) : s.nFqPtr i first k p = first := by simp [nFqPtr, hc]
    have h0 : (s.step i).fqCount = 0 := by
      change Ring.count (s.nFqPtr i 0 (popStep i) _) (s.nFqPtr i 0 (s.pushStep i) _) = 0
      rw [hp, hp, Ring.count_self]
    refine ⟨⟨?_, fun _ => ⟨?_, ?_, ?_⟩, by omega⟩, by rw [fqWindow, h0]; rfl⟩ <;>
      simp only [step, hp] <;> rfl
  | false =>
    have hp (first k p : BitVec 4) : s.nFqPtr i first k p = p + k := by simp [nFqPtr, hc]
    have hidle : (s.step i).state ≠ .IDLE → s.state ≠ .IDLE := fun hn hs => hn (by
      have hr : s.restarts i = false := by
        simp only [tClearFq, Bool.or_eq_false_iff] at hc
        exact hc.2
      simp [nState, hr, flushes, hs])
    have hhead : (s.step i).fqHeadPtr = s.fqHeadPtr + BitVec.ofNat 4 (popStep i).toNat := by
      rw [BitVec.ofNat_toNat, BitVec.setWidth_eq]
      exact hp ..
    have htail : (s.step i).fqTailPtr = s.fqTailPtr + BitVec.ofNat 4 (s.pushed i).length := hp ..
    have hpush : Ring.count s.fqHeadPtr (s.fqTailPtr + BitVec.ofNat 4 (s.pushed i).length) =
        s.fqCount + (s.pushed i).length :=
      @Ring.count_push 3 _ _ _ (show s.fqCount + _ < 16 by omega)
    have hcount : (s.step i).fqCount = s.fqCount + (s.pushed i).length - (popStep i).toNat := by
      rw [fqCount, hhead, htail, Ring.count_pop (by omega), hpush]
    refine ⟨⟨?_, fun hn => ?_, by omega⟩, ?_⟩
    · simp only [step, hp, hq.nextHead]
      ac_rfl
    · obtain ⟨h2, h3, h4⟩ := hq.tails (hidle hn)
      simp only [step, hp, h2, h3, h4]
      refine ⟨?_, ?_, ?_⟩ <;> ac_rfl
    · have hfq : (s.step i).fq = Ring.writeAll s.fq s.fqTailPtr (s.pushed i) := writeFq_pushed hq
      rw [fqWindow, hcount, hhead, hfq, ← Ring.contents_drop]
      rw [fqCount, Ring.contents_writeAll hroom, List.drop_append_of_le_length
        (by rw [Ring.length_contents]; exact hpop)]
      rfl

end Queue

end L1i

namespace Fetch
variable (s : Fetch) (i : FetchIn)

def outstanding : Bool := s.pending || s.l1i.memReqValid

def nImage : Word → Line :=
  match i.store with
  | some (a, l) => Function.update s.image (lineOf a) l
  | none => s.image

def step : Fetch where
  l1i := s.l1i.step i.toL1iIn
  image := s.nImage i
  pending := s.outstanding && !i.memRspValid
  expect := s.l1i.nExpect i.toL1iIn s.expect

theorem step_eval :
    step = fun s i => { step s i with l1i := s.l1i.stepEval i.toL1iIn } := by
  rw [← L1i.step_eq_stepEval]
  rfl

/-- What the surroundings promise in a cycle: memory answers what it is asked, the decoder takes
what the queue offers, no delay slot holds a transfer, and no store hits a line that the cache
holds unless a flush is asked for or under way. -/
structure Env : Prop where
  answer : i.memRspValid = true →
    s.outstanding = true ∧ i.memRspLoadData = s.image s.l1i.memReqAddr
  ack : i.insnAck = true → s.l1i.fqEmpty = false ∧ (i.insnAckTwo = true → s.l1i.fqNextEmpty = false)
  slot : ∀ pc target, s.expect = .slot pc target → predecode (wordAt s.image pc) = .NOT_CFLOW
  store : ∀ a l, i.store = some (a, l) →
    s.l1i.wantsFlush i.toL1iIn = true ∨ s.l1i.state = .FLUSH_CACHE ∨ s.l1i.holds a = false

/-- The idle state takes a restart only with the delay-slot flag clear. -/
def SlotClear : Prop :=
  s.l1i.state = .IDLE → s.l1i.restarts i.toL1iIn = true → s.l1i.delaySlot = false

/-- What the cycle pushes continues the stream, and the queue takes it behind what it holds. -/
structure Streams : Prop where
  follows : s.expect.Follows s.image (s.l1i.pushed i.toL1iIn)
  queue : (s.step i).l1i.fqWindow =
    if s.l1i.tClearFq i.toL1iIn then []
    else s.l1i.fqWindow.drop (L1i.popStep i.toL1iIn).toNat ++ s.l1i.pushed i.toL1iIn

variable {s : Fetch} {i : FetchIn}

/-- The promises as a check of one cycle. -/
def envCheck (s : Fetch) (i : FetchIn) : Bool :=
  (!i.memRspValid || s.outstanding && i.memRspLoadData == s.image s.l1i.memReqAddr) &&
  (!i.insnAck || !s.l1i.fqEmpty && (!i.insnAckTwo || !s.l1i.fqNextEmpty)) &&
  (match s.expect with
    | .slot pc _ => predecode (wordAt s.image pc) == .NOT_CFLOW
    | _ => true) &&
  (match i.store with
    | some (a, _) =>
      s.l1i.wantsFlush i.toL1iIn || s.l1i.state == .FLUSH_CACHE || !s.l1i.holds a
    | none => true)

theorem envCheck_iff (s : Fetch) (i : FetchIn) : envCheck s i = true ↔ s.Env i := by
  simp only [envCheck, Bool.and_eq_true]
  constructor
  · rintro ⟨⟨⟨ha, hk⟩, hp⟩, hst⟩
    refine ⟨fun h => by simpa [h] using ha, fun h => ?_, fun pc t h => ?_, fun a l h => ?_⟩
    · simp only [h, Bool.not_true, Bool.false_or, Bool.and_eq_true, Bool.not_eq_true'] at hk
      exact ⟨hk.1, fun h2 => by simpa [h2] using hk.2⟩
    · simpa [h] using hp
    · simpa [h, or_assoc] using hst
  · rintro ⟨ha, hk, hp, hst⟩
    refine ⟨⟨⟨?_, ?_⟩, ?_⟩, ?_⟩
    · cases h : i.memRspValid <;> simp_all
    · cases h : i.insnAck <;> cases h2 : i.insnAckTwo <;> simp_all
    · cases h : s.expect <;> simp_all
    · cases h : i.store with
      | none => rfl
      | some p => simpa [or_assoc] using hst p.1 p.2 h

instance (s : Fetch) (i : FetchIn) : Decidable (s.Env i) := decidable_of_iff _ (envCheck_iff s i)
instance (s : Fetch) (i : FetchIn) : Decidable (s.SlotClear i) := by
  unfold SlotClear; infer_instance

/-- The registers keep the stream, and the arrays agree with memory unless a flush is asked for
or under way, which clears the sets one by one. -/
structure StreamInv (s : Fetch) : Prop where
  bubble : s.l1i.resteerBubble = false
  tracks : s.l1i.Tracks s.expect
  arrays : s.l1i.flushReq = false → s.l1i.state ≠ .FLUSH_CACHE → s.l1i.Agrees s.image
  flushed : s.l1i.state = .FLUSH_CACHE →
    ∀ k, k.toNat < s.l1i.cacheIdx.toNat → s.l1i.validRam k = false
  request : s.outstanding = (s.l1i.state == .INJECT_RELOAD)
  line : lineOf s.l1i.memReqAddr = s.l1i.memReqAddr
  queue : s.l1i.FqOk

theorem reset_streamInv (m : L1iInit) (image : Word → Line) : (reset m image).StreamInv where
  bubble := rfl
  tracks := rfl
  arrays _ _ := ⟨fun _ h => (nomatch h), fun h => (nomatch h)⟩
  flushed h := nomatch h
  request := rfl
  line := show lineOf 0 = 0 by decide
  queue := ⟨rfl, fun h => absurd rfl h, (Ring.count_self (0 : BitVec 4)).trans_le (Nat.zero_le 8)⟩

/-- A store that the cache does not hold leaves the lines it holds alone. -/
theorem nImage_eq {b : Word} (hs : ∀ a l, i.store = some (a, l) → s.l1i.holds a = false)
    (hb : ∀ a, b = lineOf a → s.l1i.holds a = true) : s.nImage i b = s.image b := by
  cases h : i.store with
  | none => rw [nImage, h]
  | some p =>
    have hne : b ≠ lineOf p.1 := fun he => by
      have := hs p.1 p.2 h
      rw [hb p.1 he] at this
      cases this
    rw [nImage, h]
    exact Function.update_of_ne hne _ _

theorem holds_ram {k : SetIdx} {a : Word} (hv : s.l1i.validRam k = true)
    (ha : lineAddr (s.l1i.tagRam k) k = lineOf a) : s.l1i.holds a = true := by
  have hk : k = setOf a := by simpa using congrArg setOf ha
  have ht : s.l1i.tagRam k = tagOf a := by simpa using congrArg tagOf ha
  simp [L1i.holds, ← hk, hv, ht]

theorem nValidRam_answer {s : L1i} {i : L1iIn} (h : i.memRspValid = true) (k : SetIdx) :
    s.nValidRam i k = if k = s.memReqSet then s.state != .FLUSH_CACHE else s.validRam k := by
  simp [L1i.nValidRam, Ring.writeIf_apply, h]

theorem nValidRam_quiet {s : L1i} {i : L1iIn} (h : i.memRspValid = false) (k : SetIdx) :
    s.nValidRam i k = if s.state = .FLUSH_CACHE ∧ k = s.cacheIdx then false else s.validRam k := by
  by_cases hs : s.state = .FLUSH_CACHE <;> simp [L1i.nValidRam, Ring.writeIf_apply, h, hs]

/-- The arrays keep agreeing with memory, refilled or flushed. -/
theorem step_arrays (h : s.StreamInv) (he : s.Env i) (hr : (s.step i).l1i.flushReq = false)
    (hst : (s.step i).l1i.state ≠ .FLUSH_CACHE) : (s.step i).l1i.Agrees (s.nImage i) := by
  have hf : s.l1i.wantsFlush i.toL1iIn = false := by
    cases hw : s.l1i.wantsFlush i.toL1iIn with
    | false => rfl
    | true =>
      have hr : (s.l1i.wantsFlush i.toL1iIn && !s.l1i.flushes i.toL1iIn) = false := hr
      rw [hw, Bool.true_and, Bool.not_eq_false'] at hr
      exact absurd (show s.l1i.nState i.toL1iIn = .FLUSH_CACHE by rw [L1i.nState, if_pos hr]) hst
  by_cases hs : s.l1i.state = .FLUSH_CACHE
  · -- the last set has been cleared
    have hlast : s.l1i.cacheIdx = lastSet := by
      by_contra hne
      refine hst (show s.l1i.nState i.toL1iIn = .FLUSH_CACHE from ?_)
      simp [L1i.nState, L1i.flushes, L1i.restarts, hs, hne]
    have hm : i.memRspValid = false := by
      cases hm : i.memRspValid with
      | false => rfl
      | true =>
        have := (he.answer hm).1
        rw [h.request, hs] at this
        cases this
    refine ⟨fun k hk => ?_, fun hq => ?_⟩
    · have hk : s.l1i.nValidRam i.toL1iIn k = true := hk
      rw [nValidRam_quiet hm] at hk
      split at hk
      · cases hk
      · next hne =>
        have hne : k ≠ lastSet := fun hc => hne ⟨hs, hc.trans hlast.symm⟩
        have hlt : k.toNat < s.l1i.cacheIdx.toNat := by
          have hne : k.toNat ≠ 4095 := fun hc => hne (BitVec.eq_of_toNat_eq hc)
          have := k.isLt
          rw [hlast]
          change k.toNat < 4095
          omega
        rw [h.flushed hs k hlt] at hk
        cases hk
    · have hq : s.l1i.nReq i.toL1iIn = true := hq
      simp [L1i.nReq, hs] at hq
  · have hflush : s.l1i.flushReq = false := by
      simp only [L1i.wantsFlush, Bool.or_eq_false_iff] at hf
      exact hf.1
    have hold := h.arrays hflush hs
    have hstore : ∀ a l, i.store = some (a, l) → s.l1i.holds a = false := fun a l ha => by
      rcases he.store a l ha with hc | hc | hc
      · rw [hf] at hc; cases hc
      · exact absurd hc hs
      · exact hc
    have himage {k : SetIdx} (hv : s.l1i.validRam k = true) :
        s.nImage i (lineAddr (s.l1i.tagRam k) k) = s.image (lineAddr (s.l1i.tagRam k) k) :=
      nImage_eq hstore fun a ha => holds_ram hv ha
    refine ⟨fun k hk => ?_, fun _ hv => ?_⟩
    · have hk : s.l1i.nValidRam i.toL1iIn k = true := hk
      simp only [step, L1i.step, Ring.writeIf_apply]
      by_cases hm : i.memRspValid = true ∧ k = s.l1i.memReqSet
      · -- the line that memory answers with
        obtain ⟨hm, rfl⟩ := hm
        obtain ⟨hout, hdata⟩ := he.answer hm
        rw [h.request, beq_iff_eq] at hout
        have hline : lineAddr (tagOf s.l1i.memReqAddr) s.l1i.memReqSet = s.l1i.memReqAddr := by
          rw [L1i.memReqSet, lineAddr_eq, h.line]
        have hkeep : s.nImage i s.l1i.memReqAddr = s.image s.l1i.memReqAddr :=
          nImage_eq hstore fun a ha => by simp [L1i.holds, hout, ha]
        simp only [hm, and_self, if_true, hline, hkeep, hdata]
      · have hv : s.l1i.validRam k = true := by
          cases hrsp : i.memRspValid with
          | true => rwa [nValidRam_answer hrsp, if_neg fun hc => hm ⟨hrsp, hc⟩] at hk
          | false => rwa [nValidRam_quiet hrsp, if_neg fun hc => hs hc.1] at hk
        simp only [if_neg hm, himage hv]
        exact hold.rams k hv
    · have hv : s.l1i.validRam (s.l1i.tCacheIdx i.toL1iIn) = true := hv
      simp only [step, L1i.step]
      rw [himage hv]
      exact hold.rams _ hv

/-- A flush starts at the first set and clears one set a cycle. -/
theorem step_flushed (h : s.StreamInv) (he : s.Env i) (hst : (s.step i).l1i.state = .FLUSH_CACHE)
    (k : SetIdx) (hk : k.toNat < (s.step i).l1i.cacheIdx.toNat) :
    (s.step i).l1i.validRam k = false := by
  have hk : k.toNat < (s.l1i.tCacheIdx i.toL1iIn).toNat := hk
  have hst : s.l1i.nState i.toL1iIn = .FLUSH_CACHE := hst
  cases hf : s.l1i.flushes i.toL1iIn with
  | true =>
    rw [L1i.tCacheIdx, if_pos hf] at hk
    exact absurd hk (Nat.not_lt_zero _)
  | false =>
    have hs : s.l1i.state = .FLUSH_CACHE := by
      rw [L1i.nState, if_neg (by simp [hf])] at hst
      split at hst
      · cases hst
      · cases hs : s.l1i.state <;> rw [hs] at hst <;> simp only at hst <;> try cases hst
        all_goals first | rfl | (split at hst <;> first | cases hst | (split at hst <;> cases hst))
    have hm : i.memRspValid = false := by
      cases hm : i.memRspValid with
      | false => rfl
      | true =>
        have := (he.answer hm).1
        rw [h.request, hs] at this
        cases this
    change s.l1i.nValidRam i.toL1iIn k = false
    rw [nValidRam_quiet hm]
    split
    · rfl
    · next hne =>
      have hne : k.toNat ≠ s.l1i.cacheIdx.toNat := fun hc => hne ⟨hs, BitVec.eq_of_toNat_eq hc⟩
      have hnext : (s.l1i.tCacheIdx i.toL1iIn).toNat ≤ s.l1i.cacheIdx.toNat + 1 := by
        rw [L1i.tCacheIdx, if_neg (by simp [hf]), hs]
        change (s.l1i.cacheIdx + 1).toNat ≤ _
        rw [BitVec.toNat_add]
        exact Nat.mod_le _ _
      exact h.flushed hs k (by omega)

/-- A request is outstanding exactly while the cache waits for a line. -/
theorem step_request (h : s.StreamInv) :
    (s.step i).outstanding = ((s.step i).l1i.state == .INJECT_RELOAD) := by
  change (s.outstanding && !i.memRspValid || s.l1i.nMemReqValid i.toL1iIn) =
    (s.l1i.nState i.toL1iIn == .INJECT_RELOAD)
  rw [h.request, L1i.nMemReqValid, L1i.nState]
  cases hf : s.l1i.flushes i.toL1iIn with
  | true =>
    have hs : s.l1i.state ≠ .INJECT_RELOAD := fun hs => by simp [L1i.flushes, hs] at hf
    have ha : s.l1i.state = .ACTIVE → s.l1i.action i.toL1iIn = .flush := fun hs => by
      simpa [L1i.flushes, hs] using hf
    cases hs' : s.l1i.state with
    | INJECT_RELOAD => exact absurd hs' hs
    | ACTIVE => rw [ha hs']; rfl
    | _ => rfl
  | false =>
    cases hr : s.l1i.restarts i.toL1iIn with
    | true =>
      have hs : s.l1i.state ≠ .INJECT_RELOAD := fun hs => by simp [L1i.restarts, hs] at hr
      have ha : s.l1i.state = .ACTIVE → s.l1i.action i.toL1iIn = .restart := fun hs => by
        simpa [L1i.restarts, hs] using hr
      cases hs' : s.l1i.state with
      | INJECT_RELOAD => exact absurd hs' hs
      | ACTIVE => rw [ha hs']; rfl
      | _ => rfl
    | false =>
      cases hs : s.l1i.state with
      | ACTIVE => cases s.l1i.action i.toL1iIn <;> rfl
      | INJECT_RELOAD => cases i.memRspValid <;> rfl
      | RELOAD_UTLB => cases i.tlbRspValid <;> cases s.l1i.fqFull <;> rfl
      | RELOAD_TURNAROUND | WAIT_FOR_NOT_FULL => cases s.l1i.fqFull <;> rfl
      | FLUSH_CACHE => cases s.l1i.cacheIdx == lastSet <;> rfl
      | IDLE => rfl

/-- One cycle keeps the invariant and continues the stream. -/
theorem step_streamInv (h : s.StreamInv) (he : s.Env i) (hc : s.SlotClear i) :
    (s.step i).StreamInv ∧ s.Streams i := by
  obtain ⟨hq, hwin⟩ := L1i.step_fqWindow (i := i.toL1iIn) h.queue h.bubble he.ack
  obtain ⟨hf, ht⟩ := L1i.step_tracks (i := i.toL1iIn) h.bubble h.tracks
    (fun hs hf => h.arrays (by simp only [L1i.wantsFlush, Bool.or_eq_false_iff] at hf; exact hf.1)
      (by rw [hs]; decide)) he.slot hc
  refine ⟨⟨rfl, ht, step_arrays h he, step_flushed h he, step_request h, ?_, hq⟩, ⟨hf, hwin⟩⟩
  change lineOf (s.l1i.nMemReqAddr i.toL1iIn) = s.l1i.nMemReqAddr i.toL1iIn
  unfold L1i.nMemReqAddr
  split
  · exact lineOf_lineOf _
  · exact h.line

/-- While the idle state takes no restart with the delay-slot flag set, what the cache pushes after
each acknowledged restart is the program's instruction stream, and the fetch queue holds it in
order. -/
theorem guarded_streams (m : L1iInit) (image : Word → Line) (inputs : List FetchIn)
    (h : Guarded step (fun s i => s.Env i ∧ s.SlotClear i) (reset m image) inputs) :
    Guarded step Streams (reset m image) inputs :=
  @Guarded.of_invariant _ _ step _ StreamInv Streams
    (fun _ _ hs hi => (step_streamInv hs hi.1 hi.2).1)
    (fun _ _ hs hi => (step_streamInv hs hi.1 hi.2).2) _ (reset_streamInv m image) _ h

/-- A cycle without any request. -/
def quiet : FetchIn := {}

/-- J 0x40 and three words that are no transfers, at every line. -/
def jumpImage (_ : Word) : Line := 0x10000008

/-- A restart at 0 that misses, is answered, and pushes the jump. -/
def jumpRun : List FetchIn :=
  [{ restartValid := true }, quiet, quiet, { memRspValid := true, memRspLoadData := 0x10000008 },
    quiet, quiet]

theorem guarded_streams_jump :
    Guarded step Streams (reset {} jumpImage) 
      (jumpRun ++ [{ insnAck := true }, quiet]) ∧
      (run step (reset {} jumpImage) jumpRun).expect = .slot 4 0x40 :=
  ⟨guarded_streams {} jumpImage _ (by decide +kernel), by decide +kernel⟩

/-! ## A flush that leaves the delay-slot flag -/

/-- The cache in the cycle `k` of a flush that began in the state `t`. -/
def flushing (t : L1i) (k : ℕ) : L1i :=
  { t with
    cachePc := 0
    restartAck := false
    flushComplete := false
    resteerBubble := false
    req := false
    memReqValid := false
    validRam := fun j => decide (k ≤ j.toNat) && t.validRam j
    validOut := t.validRam (BitVec.ofNat 12 k)
    tagOut := t.tagRam (BitVec.ofNat 12 k)
    arrayOut := t.insnRam (BitVec.ofNat 12 k)
    jumpOut := t.pdRam (BitVec.ofNat 12 k)
    cacheIdx := BitVec.ofNat 12 k
    cacheTag := 0
    phtOut := t.pht (computePhtIdx 0 t.specGblHist)
    phtIdx := computePhtIdx 0 t.specGblHist
    phtUpdate := false
    phtUpdateOut := t.pht 0
    phtUpdateIdx := 0
    takeBr := false
    btbPc := t.btb 0 }

/-- The flush goes on by itself. -/
structure Flushing (t : L1i) : Prop where
  state : t.state = .FLUSH_CACHE
  flushReq : t.flushReq = false
  restartReq : t.restartReq = false
  phtUpdate : t.phtUpdate = false

theorem validRam_flushing {f : SetIdx → Bool} {k : ℕ} (hk : k < 4096) :
    Function.update (fun j : SetIdx => decide (k ≤ j.toNat) && f j) (BitVec.ofNat 12 k) false =
      fun j => decide (k + 1 ≤ j.toNat) && f j := by
  funext j
  by_cases h : j = BitVec.ofNat 12 k
  · have hj : j.toNat = k := by rw [h, BitVec.toNat_ofNat, Nat.mod_eq_of_lt hk]
    rw [h, Function.update_self, ← h, hj, decide_eq_false (by omega), Bool.false_and]
  · have hne : j.toNat ≠ k := fun hc => h (BitVec.eq_of_toNat_eq (by
      rw [BitVec.toNat_ofNat, Nat.mod_eq_of_lt hk, hc]))
    rw [Function.update_of_ne h, show decide (k ≤ j.toNat) = decide (k + 1 ≤ j.toNat) by
      rw [decide_eq_decide]; omega]

theorem step_flushing {t : L1i} (h : Flushing t) {k : ℕ} (hk : k < 4095) :
    (flushing t k).step {} = flushing t (k + 1) := by
  have hlast : (BitVec.ofNat 12 k == lastSet) = false := by
    rw [beq_eq_false_iff_ne]
    intro hc
    have := congrArg BitVec.toNat hc
    rw [BitVec.toNat_ofNat, Nat.mod_eq_of_lt (by omega)] at this
    change k = 4095 at this
    omega
  have hst : (flushing t k).state = .FLUSH_CACHE := h.state
  have hidx : BitVec.ofNat 12 k + 1#12 = BitVec.ofNat 12 (k + 1) := (BitVec.ofNat_add k 1).symm
  have hnext : k ≤ (BitVec.ofNat 12 (k + 1)).toNat := by
    rw [BitVec.toNat_ofNat, Nat.mod_eq_of_lt (by omega)]; omega
  have hp := L1i.pushed_of_not (s := flushing t k) (i := {}) (by simp [L1i.pushes, hst])
  have hfl : (flushing t k).flushes {} = false := by simp [L1i.flushes, hst]
  have hre : (flushing t k).restarts {} = false := by simp [L1i.restarts, hst]
  have hpht : (flushing t k).tDoPhtWr = false := by
    unfold L1i.tDoPhtWr
    split <;> rfl
  unfold L1i.step
  simp only [L1i.nState, L1i.nPc, L1i.nMissPc, L1i.nCachePc, L1i.nReq, L1i.nDelaySlot,
    L1i.nMemReqValid, L1i.nMemReqAddr, L1i.nValidRam, L1i.tCacheIdx, L1i.tCacheTag, L1i.nFqPtr,
    L1i.tClearFq, L1i.pushStep, L1i.popStep, L1i.nPhtIdx, L1i.nSpecReturnStack,
    L1i.nArchReturnStack, L1i.nSpecRsTos, L1i.nArchRsTos, L1i.nSpecGblHist, L1i.nArchGblHist,
    L1i.tIsCall, L1i.tIsRet, L1i.pushes, L1i.wantsFlush, L1i.wantsRestart, hp, hfl, hre, hst, hpht]
  simp [flushing, h.state, h.flushReq, h.restartReq, hlast, hidx,
    validRam_flushing (show k < 4096 by omega), Ring.writeIf, L1i.writeFq]
  intro _
  rw [Nat.mod_eq_of_lt (by omega)]
  exact Nat.le_succ k

theorem begin_flushing {t : L1i} (h : Flushing t) (h0 : t.cacheIdx = 0) :
    t.step {} = flushing t 1 := by
  have hst := h.state
  have hram : Function.update t.validRam (0 : SetIdx) false =
      fun j => decide (1 ≤ j.toNat) && t.validRam j := by
    have := @validRam_flushing t.validRam 0 (by omega)
    simpa using this
  have hp := L1i.pushed_of_not (s := t) (i := {}) (by simp [L1i.pushes, hst])
  have hfl : t.flushes {} = false := by simp [L1i.flushes, hst]
  have hre : t.restarts {} = false := by simp [L1i.restarts, hst]
  have hpht : t.tDoPhtWr = false := by
    unfold L1i.tDoPhtWr
    rw [h.phtUpdate]
    split <;> rfl
  unfold L1i.step
  simp only [L1i.nState, L1i.nPc, L1i.nMissPc, L1i.nCachePc, L1i.nReq, L1i.nDelaySlot,
    L1i.nMemReqValid, L1i.nMemReqAddr, L1i.nValidRam, L1i.tCacheIdx, L1i.tCacheTag, L1i.nFqPtr,
    L1i.tClearFq, L1i.pushStep, L1i.popStep, L1i.nPhtIdx, L1i.nSpecReturnStack,
    L1i.nArchReturnStack, L1i.nSpecRsTos, L1i.nArchRsTos, L1i.nSpecGblHist, L1i.nArchGblHist,
    L1i.tIsCall, L1i.tIsRet, L1i.pushes, L1i.wantsFlush, L1i.wantsRestart, hp, hfl, hre, hst, hpht]
  simp [flushing, h.state, h.flushReq, h.restartReq, h0, Ring.writeIf, L1i.writeFq]
  exact ⟨by decide, hram⟩

theorem step_quiet {s : Fetch} (hs : s.l1i.state = .FLUSH_CACHE) (hp : s.pending = false)
    (hm : s.l1i.memReqValid = false) : s.step quiet = { s with l1i := s.l1i.step {} } := by
  have hexp : s.l1i.nExpect {} s.expect = s.expect := by
    simp [L1i.nExpect, L1i.flushes, L1i.restarts, L1i.pushed, L1i.pushes, hs]
  rw [step]
  simp only [nImage, outstanding, hp, hm, Bool.or_false, Bool.false_and]
  exact congrArg (Fetch.mk _ _ _) hexp

theorem env_quiet {s : Fetch} (he : s.expect = .idle) : s.Env quiet :=
  ⟨nofun, nofun, fun _ _ hc => (nomatch he ▸ hc), nofun⟩

def flushed (s : Fetch) (k : ℕ) : Fetch := { s with l1i := flushing s.l1i k }

theorem run_flushed {s : Fetch} (h : Flushing s.l1i) (hp : s.pending = false)
    (he : s.expect = .idle) {n k : ℕ} (hk : k + n ≤ 4095) :
    Guarded step Env (flushed s k) (List.replicate n quiet) ∧
      run step (flushed s k) (List.replicate n quiet) = flushed s (k + n) := by
  induction n generalizing k with
  | zero => exact ⟨trivial, rfl⟩
  | succ n ih =>
    have hstep : step (flushed s k) quiet = flushed s (k + 1) := by
      have hq := @step_quiet (flushed s k) h.state hp rfl
      have hl : (flushed s k).l1i.step {} = flushing s.l1i (k + 1) := step_flushing h (by omega)
      rw [hq, hl]
      rfl
    obtain ⟨hg, hr⟩ := @ih (k + 1) (by omega)
    rw [List.replicate_succ, Clocked.run_cons, Clocked.guarded_cons, hstep, hr,
      show k + 1 + n = k + (n + 1) by omega]
    exact ⟨⟨env_quiet he, hg⟩, rfl⟩

/-- The jump is pushed, and a flush begins before its delay slot is. -/
def flushRun : List FetchIn := jumpRun ++ [{ flushReq := true }]

/-- All sets are cleared, and the same jump is fetched again. -/
def afterFlush : List FetchIn := quiet :: jumpRun

/-- The word after a delay slot is not the target of the transfer. -/
def strays (s : Fetch) (i : FetchIn) : Bool :=
  match s.expect, s.l1i.pushed i.toL1iIn with
  | .slot _ target, _ :: f :: _ => f.pc != target
  | _, _ => false

theorem Streams.strays (h : s.Streams i) : s.strays i = false := by
  have hf := h.follows
  unfold Fetch.strays
  split
  · next he hp =>
    rw [he, hp] at hf
    have := hf.2.2.1
    simp only [Expect.after, Expect.pc, Option.some.injEq] at this
    simp [this]
  · rfl

/-- After the flush the jump is fetched again, and the words behind its delay slot follow. -/
theorem exists_not_streams : ∃ inputs : List FetchIn,
    Guarded step Env (reset {} jumpImage) inputs ∧
      ¬Guarded step Streams (reset {} jumpImage) inputs := by
  have hfl : Flushing (run step (reset {} jumpImage) flushRun).l1i :=
    ⟨by decide +kernel, by decide +kernel, by decide +kernel, by decide +kernel⟩
  have hp : (run step (reset {} jumpImage) flushRun).pending = false := by decide +kernel
  have he : (run step (reset {} jumpImage) flushRun).expect = .idle := by decide +kernel
  have hm : (run step (reset {} jumpImage) flushRun).l1i.memReqValid = false := by decide +kernel
  have h0 : (run step (reset {} jumpImage) flushRun).l1i.cacheIdx = 0 := by decide +kernel
  have hbegin : run step (run step (reset {} jumpImage) flushRun) [quiet] =
      flushed (run step (reset {} jumpImage) flushRun) 1 := by
    rw [Clocked.run_cons, Clocked.run_nil, step_quiet hfl.state hp hm, begin_flushing hfl h0]
    rfl
  obtain ⟨hloop, hlast⟩ := @run_flushed _ hfl hp he 4094 1 (by omega)
  refine ⟨flushRun ++ ([quiet] ++ (List.replicate 4094 quiet ++ (afterFlush ++ [quiet]))), ?_, fun hs => ?_⟩
  · rw [Clocked.guarded_append, Clocked.guarded_append, hbegin, Clocked.guarded_append, hlast]
    exact ⟨by decide +kernel, ⟨env_quiet he, trivial⟩, hloop, by decide +kernel⟩
  · rw [Clocked.guarded_append, Clocked.guarded_append, hbegin, Clocked.guarded_append, hlast,
      Clocked.guarded_append] at hs
    exact Bool.false_ne_true (hs.2.2.2.2.1.strays.symm.trans (by decide +kernel))

end Fetch
end MipsCore
