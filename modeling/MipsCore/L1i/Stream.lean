import MipsCore.L1i.Step

/-! # The fetch stream

What the program order asks for next, and where the registers of the instruction
cache keep it: after an acknowledged restart each pc follows the one before it,
but for the target of a predicted transfer, which follows the delay slot.
-/
namespace MipsCore

/-! ## The stream of a program -/

/-- The instruction word at a pc, in a memory of lines. -/
def wordAt (image : Word → Line) (pc : Word) : BitVec 32 :=
  bswap32 (selectCl32 (image (lineOf pc)) (wordIdx pc))

/-- What the program order asks for next: nothing before a restart, an instruction, or the
delay slot of a transfer that is predicted to go to a target. -/
inductive Expect
  | idle
  | next (pc : Word)
  | slot (pc target : Word)
  deriving DecidableEq, Repr

namespace Expect

def pc : Expect → Option Word
  | idle => none
  | next pc => some pc
  | slot pc _ => some pc

def after : Expect → InsnFetch → Expect
  | slot _ target, _ => next target
  | _, f => if f.pred then slot (f.pc + 4) f.predTarget else next (f.pc + 4)

/-- The records are the next ones of the program, with the words that memory holds. -/
def Follows (image : Word → Line) : Expect → List InsnFetch → Prop
  | _, [] => True
  | e, f :: fs => e.pc = some f.pc ∧ f.data = wordAt image f.pc ∧ Follows image (e.after f) fs

end Expect

/-- Records of consecutive words, none of them predicted. -/
def Straight (image : Word → Line) : Word → List InsnFetch → Prop
  | _, [] => True
  | pc, f :: fs =>
    f.pc = pc ∧ f.pred = false ∧ f.data = wordAt image pc ∧ Straight image (pc + 4) fs

theorem Straight.follows {image : Word → Line} {pc : Word} {fs : List InsnFetch}
    (h : Straight image pc fs) : (Expect.next pc).Follows image fs ∧
      fs.foldl Expect.after (.next pc) = .next (pc + BitVec.ofNat 64 (4 * fs.length)) := by
  induction fs generalizing pc with
  | nil => simp [Expect.Follows]
  | cons f fs ih =>
    obtain ⟨rfl, hpred, hdata, hrest⟩ := h
    have hafter : (Expect.next f.pc).after f = .next (f.pc + 4) := by simp [Expect.after, hpred]
    obtain ⟨hf, hl⟩ := ih hrest
    refine ⟨⟨rfl, hdata, ?_⟩, ?_⟩
    · rwa [hafter]
    · rw [List.foldl_cons, hafter, hl, List.length_cons, Nat.mul_add, Nat.add_comm, BitVec.ofNat_add,
        BitVec.add_assoc]
      rfl

namespace L1i
variable {s : L1i} {i : L1iIn}

theorem predict_cases :
    s.predict.isCflow = true ∧ s.predict.takeBr = true ∨ s.predict = { nPc := s.pc + 4 } := by
  unfold predict
  split
  case h_5 | h_6 => split <;> simp [taken]
  all_goals simp [taken]

theorem firstMarker_le : ∀ (k : BitVec 2) (c3 c2 c1 c0 c : Bool),
    k.toNat + firstMarker (((1#1 ++ BitVec.ofBool c3 ++ BitVec.ofBool c2 ++ BitVec.ofBool c1 ++
      BitVec.ofBool c0) >>> k.toNat) &&& (0xf#4 ++ BitVec.ofBool c)) ≤ 4 := by
  decide

theorem tFirstBranch_le : s.tInsnIdx.toNat + s.tFirstBranch ≤ 4 := firstMarker_le ..

/-- A push of several instructions is straight-line code on one line, and fits. -/
inductive WidthCases (s : L1i) : ℕ → Prop
  | one : WidthCases s 1
  | two (h : s.fqFull2 = false) (hi : s.tInsnIdx.toNat + 2 ≤ 4) (hd : s.delaySlot = false)
      (hp : s.predict.isCflow = false) : WidthCases s 2
  | three (h : s.fqFull3 = false) (hi : s.tInsnIdx.toNat + 3 ≤ 4) (hd : s.delaySlot = false)
      (hp : s.predict.isCflow = false) : WidthCases s 3
  | four (h : s.fqFull4 = false) (hi : s.tInsnIdx.toNat + 4 ≤ 4) (hd : s.delaySlot = false)
      (hp : s.predict.isCflow = false) : WidthCases s 4

theorem pushWidth_cases (s : L1i) : s.WidthCases s.pushWidth := by
  have hle := s.tFirstBranch_le
  unfold pushWidth
  split
  · exact .one
  · next h =>
    simp only [Bool.or_eq_true, not_or, Bool.not_eq_true] at h
    split
    · next hf =>
      simp only [Bool.and_eq_true, decide_eq_true_eq, Bool.not_eq_true'] at hf
      exact .four hf.2 (by omega) h.2 h.1
    · split
      · next hf =>
        simp only [Bool.and_eq_true, decide_eq_true_eq, Bool.not_eq_true'] at hf
        exact .three hf.2 (by omega) h.2 h.1
      · split
        · next hf =>
          simp only [Bool.and_eq_true, decide_eq_true_eq, Bool.not_eq_true'] at hf
          exact .two hf.2 (by omega) h.2 h.1
        · exact .one

/-- What decides the action of the active state. -/
theorem action_spec (hb : s.resteerBubble = false) :
    match s.action i with
    | .bubble => False
    | .flush => s.wantsFlush i = true
    | .restart => s.wantsFlush i = false
    | .reloadUtlb | .reload | .waitNotFull => s.wantsFlush i = false ∧ s.req = true
    | .push => s.wantsFlush i = false ∧ s.tHit = true ∧ s.fqFull = false
    | .idle => s.wantsFlush i = false ∧ s.req = false := by
  unfold action
  rw [hb]
  cases hf : s.wantsFlush i with
  | true => simp
  | false =>
    cases s.wantsRestart i with
    | true => simp
    | false =>
      unfold tMiss tHit
      cases hr : s.req <;> cases hq : s.fqFull <;> cases i.utlbHit <;>
        cases s.validOut && s.tagOut == s.cacheTag <;> simp


/-! ## The words of a line -/

theorem selectCl32_insnLine (l : Line) (k : BitVec 2) :
    selectCl32 (insnLine l) k = bswap32 (selectCl32 l k) := by
  have hk : ∀ k : BitVec 2, k = 0 ∨ k = 1 ∨ k = 2 ∨ k = 3 := by decide
  have hb (x : BitVec 32) : bswap32 x = x.extractLsb' 0 8 ++ x.extractLsb' 8 8 ++
      x.extractLsb' 16 8 ++ x.extractLsb' 24 8 := rfl
  rcases hk k with rfl | rfl | rfl | rfl <;> ext j hj <;>
    simp only [selectCl32, insnLine] <;> grind

/-- The arrays hold the lines of a memory. -/
structure Agrees (image : Word → Line) (s : L1i) : Prop where
  rams : ∀ k, s.validRam k = true →
    s.insnRam k = insnLine (image (lineAddr (s.tagRam k) k)) ∧
      s.pdRam k = predecodeLine (image (lineAddr (s.tagRam k) k))
  outs : s.req = true → s.validOut = true →
    s.arrayOut = insnLine (image (lineAddr s.tagOut s.cacheIdx)) ∧
      s.jumpOut = predecodeLine (image (lineAddr s.tagOut s.cacheIdx))

/-- The outputs are being compared with the line of the cache pc. -/
structure Lookup (s : L1i) : Prop where
  idx : s.cacheIdx = setOf s.cachePc
  tag : s.cacheTag = tagOf s.cachePc

section Hit
variable {image : Word → Line} (ha : Agrees image s) (hl : s.Lookup) (hh : s.tHit = true)
include ha hl hh

theorem hit_line : s.arrayOut = insnLine (image (lineOf s.cachePc)) ∧
    s.jumpOut = predecodeLine (image (lineOf s.cachePc)) := by
  simp only [tHit, Bool.and_eq_true, beq_iff_eq] at hh
  have h := ha.outs hh.1 hh.2.1
  rwa [hh.2.2, hl.idx, hl.tag, lineAddr_eq] at h

theorem tInsnData_eq {k : ℕ} (hk : s.tInsnIdx.toNat + k ≤ 3) :
    s.tInsnData (BitVec.ofNat 2 k) = wordAt image (s.cachePc + BitVec.ofNat 64 (4 * k)) := by
  rw [tInsnData, (hit_line ha hl hh).1, selectCl32_insnLine, wordAt, lineOf_add hk, wordIdx_add]
  rfl

theorem tPd_eq : s.tPd = predecode (wordAt image s.cachePc) := by
  rw [tPd, (hit_line ha hl hh).2]
  rfl

end Hit


/-! ## Following the stream -/

/-- The fetch of `p` is under way, which is a delay slot or is followed by the next word. -/
inductive At (s : L1i) (p : Word) : Expect → Prop
  | slot (h : s.delaySlot = true) : At s p (.slot p s.pc)
  | next (h : s.delaySlot = false) (hpc : s.pc = p + 4) : At s p (.next p)

/-- Where the registers keep what the stream asks for. -/
def Tracks (s : L1i) (e : Expect) : Prop :=
  match s.state with
  | .IDLE | .FLUSH_CACHE => e = .idle
  | .ACTIVE =>
    if s.req then s.At s.cachePc e ∧ s.Lookup else s.delaySlot = false ∧ e = .next s.pc
  | _ => s.At s.missPc e

theorem setOf_nPushCachePc (hl : s.Lookup) (hd : s.delaySlot = false → s.pc = s.cachePc + 4) :
    s.nPushIdx = setOf s.nPushCachePc := by
  have hw := s.pushWidth_cases
  have hidx : s.tInsnIdx = wordIdx s.cachePc := rfl
  unfold nPushIdx nPushCachePc
  generalize s.pushWidth = w at hw ⊢
  cases hw with
  | one => rfl
  | two _ hi hds =>
    change (if s.tInsnIdx = 2 then s.cacheIdx + 1 else setOf s.pc) = setOf (s.cachePc + 8)
    rw [hidx] at hi
    split
    · next h =>
      rw [hl.idx]
      exact (setOf_add_next (k := 2) (by rw [← hidx, h]; rfl)).symm
    · next h =>
      have hne : (wordIdx s.cachePc).toNat ≠ 2 := fun hc => h (BitVec.eq_of_toNat_eq hc)
      rw [hd hds]
      exact (setOf_add (k := 1) (by omega)).trans (setOf_add (k := 2) (by omega)).symm
  | three _ hi hds =>
    change (if s.tInsnIdx = 0 then setOf s.pc else s.cacheIdx + 1) = setOf (s.cachePc + 12)
    rw [hidx] at hi
    split
    · next h =>
      have h0 : (wordIdx s.cachePc).toNat = 0 := by rw [← hidx, h]; rfl
      rw [hd hds]
      exact (setOf_add (k := 1) (by omega)).trans (setOf_add (k := 3) (by omega)).symm
    · next h =>
      have hne : (wordIdx s.cachePc).toNat ≠ 0 := fun hc => h (BitVec.eq_of_toNat_eq hc)
      rw [hl.idx]
      exact (setOf_add_next (k := 3) (by omega)).symm
  | four _ hi _ =>
    change s.cacheIdx + 1 = setOf (s.cachePc + 16)
    rw [hidx] at hi
    rw [hl.idx]
    exact (setOf_add_next (k := 4) (by omega)).symm


theorem nPushPc_eq (hc : s.predict.isCflow = false) : s.nPushPc = s.nPushCachePc + 4 := by
  have hpred : s.predict.nPc = s.pc + 4 := by
    rcases s.predict_cases with h | h
    · rw [hc] at h
      cases h.1
    · rw [h]
  have hw := s.pushWidth_cases
  unfold nPushPc nPushCachePc
  generalize s.pushWidth = w at hw ⊢
  cases hw with
  | one => exact hpred
  | two => exact (BitVec.add_assoc s.cachePc 8 4).symm
  | three => exact (BitVec.add_assoc s.cachePc 12 4).symm
  | four => exact (BitVec.add_assoc s.cachePc 16 4).symm

section Push
variable {image : Word → Line} (hs : s.state = .ACTIVE) (hp : s.action i = .push)
include hs hp

theorem push_flushes : s.flushes i = false := by simp [flushes, hs, hp]
theorem push_restarts : s.restarts i = false := by simp [restarts, hs, hp]
theorem push_pushes : s.pushes i = true := by simp [pushes, hs, hp]
theorem push_nPc : s.nPc i = s.nPushPc := by simp [nPc, push_restarts hs hp, hs, hp]
theorem push_nDelaySlot : s.nDelaySlot i = (!s.delaySlot && s.predict.isCflow) := by
  simp [nDelaySlot, push_restarts hs hp, push_pushes hs hp]
theorem push_pred : (s.tInsn i).pred = s.predict.takeBr := by simp [tInsn, push_pushes hs hp]
theorem push_nCachePc : s.nCachePc i = s.nPushCachePc := by simp [nCachePc, hs, hp]

/-- The line of the next cache pc is read. -/
theorem push_lookup (hl : s.Lookup) (hd : s.delaySlot = false → s.pc = s.cachePc + 4) :
    (s.step i).Lookup := by
  refine ⟨?_, ?_⟩
  · change s.tCacheIdx i = setOf (s.nCachePc i)
    rw [push_nCachePc hs hp, ← setOf_nPushCachePc hl hd]
    simp [tCacheIdx, push_flushes hs hp, hs, hp]
  · change s.tCacheTag i = tagOf (s.nCachePc i)
    rw [push_nCachePc hs hp]
    simp [tCacheTag, hs, hp]

/-- A push that predicts nothing is straight-line code of its width. -/
theorem push_straight (ha : Agrees image s) (hl : s.Lookup) (hh : s.tHit = true)
    (hc : s.predict.isCflow = false) : Straight image s.cachePc (s.pushed i) ∧
      (s.pushed i).length = s.pushWidth := by
  have hidx := s.tInsnIdx.isLt
  have h0 : (s.tInsn i).data = wordAt image s.cachePc :=
    (tInsnData_eq ha hl hh (k := 0) (by omega)).trans (by rw [Nat.mul_zero, BitVec.add_zero])
  have hpred : (s.tInsn i).pred = false := by
    rw [push_pred hs hp]
    rcases s.predict_cases with h | h
    · rw [hc] at h
      cases h.1
    · rw [h]
  have hnext {k : ℕ} (hk : s.tInsnIdx.toNat + k ≤ 3) := tInsnData_eq ha hl hh hk
  have h2 : s.cachePc + 4 + 4 = s.cachePc + 8 := BitVec.add_assoc ..
  have h3 : s.cachePc + 8 + 4 = s.cachePc + 12 := BitVec.add_assoc ..
  have hw := s.pushWidth_cases
  rw [pushed, if_pos (push_pushes hs hp)]
  generalize s.pushWidth = w at hw ⊢
  cases hw with
  | one => exact ⟨⟨rfl, hpred, h0, trivial⟩, rfl⟩
  | two _ hi _ _ =>
    exact ⟨⟨rfl, hpred, h0, rfl, rfl, hnext (k := 1) (by omega), trivial⟩, rfl⟩
  | three _ hi _ _ =>
    refine ⟨⟨rfl, hpred, h0, rfl, rfl, hnext (k := 1) (by omega), ?_⟩, rfl⟩
    rw [h2]
    exact ⟨rfl, rfl, hnext (k := 2) (by omega), trivial⟩
  | four _ hi _ _ =>
    refine ⟨⟨rfl, hpred, h0, rfl, rfl, hnext (k := 1) (by omega), ?_⟩, rfl⟩
    rw [h2]
    refine ⟨rfl, rfl, hnext (k := 2) (by omega), ?_⟩
    rw [h3]
    exact ⟨rfl, rfl, hnext (k := 3) (by omega), trivial⟩

/-- The registers follow the stream through a push. -/
theorem push_tracks {e : Expect} (hat : s.At s.cachePc e) (ha : Agrees image s) (hl : s.Lookup)
    (hh : s.tHit = true)
    (hslot : ∀ pc target, e = .slot pc target → predecode (wordAt image pc) = .NOT_CFLOW) :
    e.Follows image (s.pushed i) ∧
      (s.step i).At (s.step i).cachePc ((s.pushed i).foldl Expect.after e) := by
  have hcpc : (s.step i).cachePc = s.nPushCachePc := push_nCachePc hs hp
  have hpc : (s.step i).pc = s.nPushPc := push_nPc hs hp
  have hds : (s.step i).delaySlot = (!s.delaySlot && s.predict.isCflow) := push_nDelaySlot hs hp
  have hone (h : s.predict.isCflow = true ∨ s.delaySlot = true) : s.pushWidth = 1 := by
    rw [pushWidth, if_pos (by simpa using h)]
  have hfirst (h : s.pushWidth = 1) : s.pushed i = [s.tInsn i] := by
    simp [pushed, push_pushes hs hp, h]
  have hnext (h : s.pushWidth = 1) : s.nPushCachePc = s.pc := by simp [nPushCachePc, h]
  have hdata : (s.tInsn i).data = wordAt image s.cachePc :=
    (tInsnData_eq ha hl hh (k := 0) (by have := s.tInsnIdx.isLt; omega)).trans
      (by rw [Nat.mul_zero, BitVec.add_zero])
  rw [hcpc]
  cases hat with
  | slot hd =>
    -- the delay slot goes alone, and the target is waiting in the pc
    have hw := hone (.inr hd)
    have hc : s.predict = { nPc := s.pc + 4 } := by
      rw [predict, tPd_eq ha hl hh, hslot _ _ rfl]
    rw [hfirst hw, hnext hw]
    refine ⟨⟨rfl, hdata, trivial⟩, .next (by rw [hds, hd]; rfl) ?_⟩
    rw [hpc, nPushPc_eq (by rw [hc]), hnext hw]
  | next hd hpc4 =>
    cases hc : s.predict.isCflow with
    | false =>
      obtain ⟨hst, hlen⟩ := push_straight hs hp ha hl hh hc
      obtain ⟨hf, hlast⟩ := hst.follows
      refine ⟨hf, ?_⟩
      have hwidth : s.cachePc + BitVec.ofNat 64 (4 * (s.pushed i).length) = s.nPushCachePc := by
        have hw := s.pushWidth_cases
        rw [hlen, nPushCachePc]
        generalize s.pushWidth = w at hw ⊢
        cases hw with
        | one => exact hpc4.symm
        | two | three | four => rfl
      rw [hlast, hwidth]
      exact .next (by rw [hds, hc, Bool.and_false]) (by rw [hpc, nPushPc_eq hc])
    | true =>
      -- a predicted transfer goes alone, and its slot is fetched next
      have hw := hone (.inl hc)
      have htake : (s.tInsn i).pred = true := by
        rw [push_pred hs hp]
        rcases s.predict_cases with h | h
        · exact h.2
        · rw [h] at hc
          cases hc
      rw [hfirst hw]
      refine ⟨⟨rfl, hdata, trivial⟩, ?_⟩
      have hafter : (Expect.next s.cachePc).after (s.tInsn i) =
          .slot s.nPushCachePc (s.step i).pc := by
        rw [hnext hw, hpc4, Expect.after, if_pos htake]
        · rfl
        · nofun
      rw [List.foldl_cons, hafter]
      exact .slot (by rw [hds, hd, hc]; rfl)

end Push


/-! ## One cycle of the stream -/

section Cycle
variable {image : Word → Line}

@[simp] theorem step_state : (s.step i).state = s.nState i := rfl
@[simp] theorem step_pc : (s.step i).pc = s.nPc i := rfl
@[simp] theorem step_missPc : (s.step i).missPc = s.nMissPc i := rfl
@[simp] theorem step_cachePc : (s.step i).cachePc = s.nCachePc i := rfl
@[simp] theorem step_req : (s.step i).req = s.nReq i := rfl
@[simp] theorem step_delaySlot : (s.step i).delaySlot = s.nDelaySlot i := rfl

theorem pushed_of_not (h : s.pushes i = false) : s.pushed i = [] := by simp [pushed, h]

/-- What a cycle makes of the stream. -/
def nExpect (s : L1i) (i : L1iIn) (e : Expect) : Expect :=
  if s.flushes i then .idle
  else if s.restarts i then .next i.restartPc
  else (s.pushed i).foldl Expect.after e

theorem At.hold {s t : L1i} {p : Word} {e : Expect} (h : s.At p e) (hd : t.delaySlot = s.delaySlot)
    (hpc : t.pc = s.pc) : t.At p e := by
  cases h with
  | slot h => exact hpc ▸ .slot (hd.trans h)
  | next h h4 => exact .next (hd.trans h) (hpc.trans h4)

/-- A fetch that has to wait is kept in the miss pc. -/
theorem active_waits {e : Expect} (hs : s.state = .ACTIVE) (ht : s.Tracks e) (hr : s.req = true)
    (ha : s.action i = .reloadUtlb ∨ s.action i = .reload ∨ s.action i = .waitNotFull) :
    e.Follows image (s.pushed i) ∧ (s.step i).Tracks (s.nExpect i e) := by
  have hat : s.At s.cachePc e := by
    have := ht
    simp only [Tracks, hs, hr, if_true] at this
    exact this.1
  have hnext : (s.step i).At s.cachePc e := by
    refine hat.hold ?_ ?_ <;>
      rcases ha with ha | ha | ha <;> simp [nDelaySlot, nPc, restarts, pushes, hs, ha]
  have hp := pushed_of_not (s := s) (i := i) (by rcases ha with ha | ha | ha <;> simp [pushes, ha])
  refine ⟨by rw [hp]; trivial, ?_⟩
  rcases ha with ha | ha | ha <;>
    simpa [Tracks, nExpect, nState, nMissPc, flushes, restarts, hs, hp, ha] using hnext

theorem active_tracks {e : Expect} (hs : s.state = .ACTIVE)
    (hb : s.resteerBubble = false) (ht : s.Tracks e) (ha : s.wantsFlush i = false → Agrees image s)
    (hslot : ∀ pc target, e = .slot pc target → predecode (wordAt image pc) = .NOT_CFLOW) :
    e.Follows image (s.pushed i) ∧ (s.step i).Tracks (s.nExpect i e) := by
  have hspec := action_spec (s := s) (i := i) hb
  cases hc : s.action i with
  | bubble => rw [hc] at hspec; exact hspec.elim
  | flush =>
    have hp := pushed_of_not (s := s) (i := i) (by simp [pushes, hc])
    exact ⟨by rw [hp]; trivial, by simp [Tracks, nExpect, nState, flushes, hs, hc]⟩
  | restart =>
    have hp := pushed_of_not (s := s) (i := i) (by simp [pushes, hc])
    refine ⟨by rw [hp]; trivial, ?_⟩
    simp [Tracks, nExpect, nState, nReq, nDelaySlot, nPc, flushes, restarts, hs, hc]
  | reloadUtlb =>
    rw [hc] at hspec
    exact active_waits hs ht hspec.2 (.inl hc)
  | reload =>
    rw [hc] at hspec
    exact active_waits hs ht hspec.2 (.inr (.inl hc))
  | waitNotFull =>
    rw [hc] at hspec
    exact active_waits hs ht hspec.2 (.inr (.inr hc))
  | idle =>
    rw [hc] at hspec
    have hp := pushed_of_not (s := s) (i := i) (by simp [pushes, hc])
    obtain ⟨hd, he⟩ : s.delaySlot = false ∧ e = .next s.pc := by
      simpa [Tracks, hs, hspec.2] using ht
    refine ⟨by rw [hp]; trivial, ?_⟩
    have hlook : (s.step i).Lookup := by
      constructor <;> simp [step, tCacheIdx, tCacheTag, nCachePc, flushes, hs, hc]
    have hat : (s.step i).At s.pc e :=
      he ▸ .next (by simp [nDelaySlot, restarts, pushes, hs, hc, hd])
        (by simp [nPc, restarts, hs, hc])
    simpa [Tracks, nExpect, nState, nReq, nCachePc, flushes, restarts, hs, hc, hp]
      using ⟨hat, hlook⟩
  | push =>
    rw [hc] at hspec
    have hr : s.req = true := by
      have := hspec.2.1
      simp only [tHit, Bool.and_eq_true] at this
      exact this.1
    obtain ⟨hat, hl⟩ : s.At s.cachePc e ∧ s.Lookup := by simpa [Tracks, hs, hr] using ht
    obtain ⟨hf, hnext⟩ := push_tracks hs hc hat (ha hspec.1) hl hspec.2.1 hslot
    have hlook : (s.step i).Lookup := by
      refine push_lookup hs hc hl fun hd => ?_
      cases hat with
      | slot h => rw [hd] at h; cases h
      | next _ h => exact h
    refine ⟨hf, ?_⟩
    have hst : (s.step i).state = .ACTIVE := by simp [nState, flushes, restarts, hs, hc]
    have hrq : (s.step i).req = true := by simp [nReq, hs, hc]
    rw [nExpect, push_flushes hs hc, push_restarts hs hc, Tracks, hst, hrq]
    exact ⟨hnext, hlook⟩

theorem step_tracks {e : Expect} (hb : s.resteerBubble = false)
    (ht : s.Tracks e) (ha : s.state = .ACTIVE → s.wantsFlush i = false → Agrees image s)
    (hslot : ∀ pc target, e = .slot pc target → predecode (wordAt image pc) = .NOT_CFLOW)
    (hclear : s.state = .IDLE → s.restarts i = true → s.delaySlot = false) :
    e.Follows image (s.pushed i) ∧ (s.step i).Tracks (s.nExpect i e) := by
  cases hs : s.state with
  | IDLE =>
    have hp := pushed_of_not (s := s) (i := i) (by simp [pushes, hs])
    have he : e = .idle := by simpa [Tracks, hs] using ht
    refine ⟨by rw [hp]; trivial, ?_⟩
    cases hr : s.wantsRestart i with
    | false => simp [Tracks, nExpect, nState, flushes, restarts, hs, hr, hp, he]
    | true =>
      have hd := hclear hs (by simp [restarts, hs, hr])
      simp [Tracks, nExpect, nState, nReq, nDelaySlot, nPc, flushes, restarts, pushes, hs, hr, hd]
  | FLUSH_CACHE =>
    have hp := pushed_of_not (s := s) (i := i) (by simp [pushes, hs])
    have he : e = .idle := by simpa [Tracks, hs] using ht
    refine ⟨by rw [hp]; trivial, ?_⟩
    cases hl : s.cacheIdx == lastSet <;>
      simp [Tracks, nExpect, nState, flushes, restarts, hs, hp, he, hl]
  | INJECT_RELOAD =>
    have hp := pushed_of_not (s := s) (i := i) (by simp [pushes, hs])
    have hat : s.At s.missPc e := by simpa [Tracks, hs] using ht
    refine ⟨by rw [hp]; trivial, ?_⟩
    have hnext : (s.step i).At s.missPc e :=
      hat.hold (by simp [nDelaySlot, restarts, pushes, hs]) (by simp [nPc, restarts, hs])
    cases hm : i.memRspValid <;>
      simpa [Tracks, nExpect, nState, nMissPc, flushes, restarts, hs, hp, hm] using hnext
  | RELOAD_TURNAROUND =>
    have hp := pushed_of_not (s := s) (i := i) (by simp [pushes, hs])
    have hat : s.At s.missPc e := by simpa [Tracks, hs] using ht
    refine ⟨by rw [hp]; trivial, ?_⟩
    cases hf : s.wantsFlush i with
    | true => simp [Tracks, nExpect, nState, flushes, hs, hf]
    | false =>
      cases hr : s.wantsRestart i with
      | true =>
        simp [Tracks, nExpect, nState, nReq, nDelaySlot, nPc, turnsAround, flushes, restarts, hs,
          hf, hr]
      | false =>
        have hnext : (s.step i).At s.missPc e :=
          hat.hold (by simp [nDelaySlot, restarts, pushes, hs, hf, hr])
            (by simp [nPc, restarts, hs, hf, hr])
        cases hq : s.fqFull with
        | true =>
          simpa [Tracks, nExpect, nState, nMissPc, flushes, restarts, hs, hf, hr, hq, hp] using hnext
        | false =>
          have hlook : (s.step i).Lookup := by
            constructor <;> simp [step, tCacheIdx, tCacheTag, nCachePc, turnsAround, flushes, hs,
              hf, hr, hq]
          simpa [Tracks, nExpect, nState, nReq, nCachePc, turnsAround, flushes, restarts, hs, hf,
            hr, hq, hp] using ⟨hnext, hlook⟩
  | WAIT_FOR_NOT_FULL =>
    have hp := pushed_of_not (s := s) (i := i) (by simp [pushes, hs])
    have hat : s.At s.missPc e := by simpa [Tracks, hs] using ht
    refine ⟨by rw [hp]; trivial, ?_⟩
    cases hq : s.fqFull with
    | false =>
      have hnext : (s.step i).At s.missPc e :=
        hat.hold (by simp [nDelaySlot, restarts, pushes, hs, hq]) (by simp [nPc, restarts, hs, hq])
      have hlook : (s.step i).Lookup := by
        constructor <;> simp [step, tCacheIdx, tCacheTag, nCachePc, flushes, hs, hq]
      simpa [Tracks, nExpect, nState, nReq, nCachePc, flushes, restarts, hs, hq, hp]
        using ⟨hnext, hlook⟩
    | true =>
      cases hf : s.wantsFlush i with
      | true => simp [Tracks, nExpect, nState, flushes, hs, hf, hq]
      | false =>
        cases hr : s.wantsRestart i with
        | true =>
          simp [Tracks, nExpect, nState, nReq, nDelaySlot, nPc, flushes, restarts, hs, hf, hr, hq]
        | false =>
          have hnext : (s.step i).At s.missPc e :=
            hat.hold (by simp [nDelaySlot, restarts, pushes, hs, hf, hr, hq])
              (by simp [nPc, restarts, hs, hf, hr, hq])
          simpa [Tracks, nExpect, nState, nMissPc, flushes, restarts, hs, hf, hr, hq, hp] using hnext
  | RELOAD_UTLB =>
    have hp := pushed_of_not (s := s) (i := i) (by simp [pushes, hs])
    have hat : s.At s.missPc e := by simpa [Tracks, hs] using ht
    refine ⟨by rw [hp]; trivial, ?_⟩
    have hnext : (s.step i).At s.missPc e :=
      hat.hold (by simp [nDelaySlot, restarts, pushes, hs]) (by simp [nPc, restarts, hs])
    cases hv : i.tlbRspValid with
    | false => simpa [Tracks, nExpect, nState, nMissPc, flushes, restarts, hs, hp, hv] using hnext
    | true =>
      cases hq : s.fqFull with
      | true =>
        simpa [Tracks, nExpect, nState, nMissPc, flushes, restarts, hs, hp, hv, hq] using hnext
      | false =>
        have hlook : (s.step i).Lookup := by
          constructor <;> simp [step, tCacheIdx, tCacheTag, nCachePc, flushes, hs, hv]
        simpa [Tracks, nExpect, nState, nReq, nCachePc, flushes, restarts, hs, hv, hq, hp]
          using ⟨hnext, hlook⟩
  | ACTIVE => exact active_tracks hs hb ht (ha hs) hslot

end Cycle

end L1i
end MipsCore
