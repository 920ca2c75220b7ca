import MipsCore.Core.FreeList

/-! # Two allocations in one cycle

A cycle that allocates two uops renames them as two cycles that allocate one uop
each: the bypasses of the second slot stand for the maps that the first uop leaves.
-/
namespace MipsCore
namespace Core
open BitMask Clocked
open Ring (writeIf)
variable {s : Core} {i : CoreIn}

/-- The signals of a cycle that allocates the head of the decode queue and does nothing else. -/
def allocOnly (s : Core) : Comb := withDelaySlot s { combDefault s {} with tAlloc := true }

/-- The cycle itself. -/
def allocOne (s : Core) : Core := s.clock {} s.allocOnly

/-- An entry without its call and return flags. -/
def forgetCalls (e : RobEntry) : RobEntry := { e with isCall := false, isRet := false }

/-- The waiting uops are decoded ones, and the pointers name the heads and tails of the queues. -/
structure Decoded (s : Core) : Prop extends DqPointers s where
  robNextTail : s.robNextTailPtr = s.robTailPtr + 1
  queue_arch : ∀ u ∈ s.queue, IsArch u.dst
  queue_oneDest : ∀ u ∈ s.queue, OneDest u

theorem step_decoded (h : s.Decoded) : (s.step i).Decoded where
  toDqPointers := step_dqPointers h.toDqPointers
  robNextTail := step_robNextTail h.robNextTail
  queue_arch := step_queue_forall decode_isArch h.toDqPointers h.queue_arch
  queue_oneDest := step_queue_forall decode_oneDest h.toDqPointers h.queue_oneDest

theorem reset_decoded (rob : RobPtr → RobEntry) (dq : BitVec 2 → Uop) :
    (Core.reset rob dq).Decoded where
  toDqPointers := reset_dqPointers rob dq
  robNextTail := rfl
  queue_arch := by simp [reset_queue]
  queue_oneDest := by simp [reset_queue]

theorem run_decoded (rob : RobPtr → RobEntry) (dq : BitVec 2 → Uop) (inputs : List CoreIn) :
    (run step (Core.reset rob dq) inputs).Decoded := by
  apply @run_invariant _ _ step Decoded
  · intro _ _ h
    exact step_decoded h
  · exact reset_decoded rob dq

/-! ## A cycle that allocates one uop -/

@[simp] theorem allocOnly_tAlloc : s.allocOnly.tAlloc = true := withDelaySlot_tAlloc _ _
@[simp] theorem allocOnly_tAllocTwo : s.allocOnly.tAllocTwo = false := withDelaySlot_tAllocTwo _ _
@[simp] theorem allocOnly_tRetire : s.allocOnly.tRetire = false := withDelaySlot_tRetire _ _
@[simp] theorem allocOnly_tRatCopy : s.allocOnly.tRatCopy = false := withDelaySlot_tRatCopy _ _
@[simp] theorem allocOnly_tClrRob : s.allocOnly.tClrRob = false := withDelaySlot_tClrRob _ _
@[simp] theorem allocOnly_tClrDq : s.allocOnly.tClrDq = false := withDelaySlot_tClrDq _ _
@[simp] theorem allocOnly_nInDelaySlot : s.allocOnly.nInDelaySlot = s.tUop.hasDelaySlot := rfl

section One
variable (s)

@[simp] theorem allocOne_dq : s.allocOne.dq = s.dq := by
  simp [allocOne, clock, nDq, dqPush, dqPushTwo, writeIf]
theorem allocOne_dqHeadPtr : s.allocOne.dqHeadPtr = s.dqHeadPtr + 1 := by
  simp [allocOne, clock, nDqHeadPtr, clearsDq, dqPopStep]
theorem allocOne_robTailPtr : s.allocOne.robTailPtr = s.robTailPtr + 1 := by
  simp [allocOne, clock, nRobTailPtr, allocStep]
@[simp] theorem allocOne_rob :
    s.allocOne.rob = Function.update s.rob (Ring.slot s.robTailPtr) s.tRobTail := by
  simp [allocOne, clock, nRob, writeResults, Ring.modifyIf, writeIf]
@[simp] theorem allocOne_bankSel : s.allocOne.bankSel = !s.bankSel := rfl
@[simp] theorem allocOne_inDelaySlot : s.allocOne.inDelaySlot = s.tUop.hasDelaySlot := rfl

@[simp] theorem allocOne_allocRat :
    s.allocOne.allocRat =
      if s.tUop.dstValid then Function.update s.allocRat (s.tUop.dst.setWidth 5) s.nPrfEntry
      else s.allocRat := by
  simp [allocOne, clock, nAllocRat]
@[simp] theorem allocOne_fpAllocRat :
    s.allocOne.fpAllocRat =
      if fpDst s.tUop then Function.update s.fpAllocRat (s.tUop.dst.setWidth 5) s.nFpPrfEntry
      else s.fpAllocRat := by
  simp [allocOne, clock, nFpAllocRat]
@[simp] theorem allocOne_hiloAllocRat :
    s.allocOne.hiloAllocRat = if hiloDst s.tUop then s.nHiloPrfEntry else s.hiloAllocRat := by
  simp [allocOne, clock, nHiloAllocRat]
@[simp] theorem allocOne_fcrAllocRat :
    s.allocOne.fcrAllocRat = if fcrDst s.tUop then s.nFcrPrfEntry else s.fcrAllocRat := by
  simp [allocOne, clock, nFcrAllocRat]

@[simp] theorem allocOne_prfFree :
    s.allocOne.prfFree = takeFree s.tUop.dstValid s.nPrfEntry.toNat s.prfFree := by
  simp [allocOne, clock, nPrfFree, tFreeReg, tFreeRegTwo, giveFree]
  rfl
@[simp] theorem allocOne_fpPrfFree :
    s.allocOne.fpPrfFree = takeFree s.tUop.fpDstValid s.nFpPrfEntry.toNat s.fpPrfFree := by
  simp [allocOne, clock, nFpPrfFree, tFreeFpReg, tFreeFpRegTwo, giveFree]
  rfl
@[simp] theorem allocOne_hiloPrfFree :
    s.allocOne.hiloPrfFree = takeFree s.tUop.hiloDstValid s.nHiloPrfEntry.toNat s.hiloPrfFree := by
  simp [allocOne, clock, nHiloPrfFree, tFreeHilo, giveFree]
@[simp] theorem allocOne_fcrPrfFree :
    s.allocOne.fcrPrfFree = takeFree s.tUop.fcrDstValid s.nFcrPrfEntry.toNat s.fcrPrfFree := by
  simp [allocOne, clock, nFcrPrfFree, tFreeFcr, giveFree]

end One

/-- The second uop of the queue is the head after the first one has been allocated. -/
theorem allocOne_tUop (h : s.DqPointers) : s.allocOne.tUop = s.tUop2 := by
  rw [tUop, tUop2, allocOne_dq, allocOne_dqHeadPtr, h.dqNextHead]

/-! ## The registers handed out -/

/-- Taking a register out of one bank leaves the other bank as it is. -/
theorem bank2_takeFree {m : BitVec 64} {b : Bool} {p : ℕ}
    (hp : b = true → (s.bank m).getLsbD p = true) : s.bank2 (takeFree b p m) = s.bank2 m := by
  cases b with
  | false => rfl
  | true =>
    have hb := hp rfl
    apply BitVec.eq_of_getLsbD_eq
    intro k _
    unfold bank at hb
    unfold bank2
    split_ifs at hb ⊢ <;>
      simp only [getLsbD_evenBank, getLsbD_oddBank, Bool.and_eq_true, beq_iff_eq] at hb ⊢ <;>
      by_cases hk : k = p <;> simp [takeFree, hk, hb.2]

/-- The banks change places from one cycle to the next. -/
theorem bank_allocOne (m : BitVec 64) : s.allocOne.bank m = s.bank2 m := by
  rw [bank, bank2, allocOne_bankSel]
  cases s.bankSel <;> rfl

theorem allocOne_nPrfEntry (h : s.tUop.dstValid = true → s.tGprFfsFull = false) :
    s.allocOne.nPrfEntry = s.nPrfEntry2 := by
  rw [nPrfEntry, nPrfEntry2, bank_allocOne, allocOne_prfFree, bank2_takeFree]
  intro hd
  exact nPrfEntry_bank (h hd)

theorem allocOne_nFpPrfEntry (h : s.tUop.fpDstValid = true → s.tFpFfsFull = false) :
    s.allocOne.nFpPrfEntry = s.nFpPrfEntry2 := by
  rw [nFpPrfEntry, nFpPrfEntry2, bank_allocOne, allocOne_fpPrfFree, bank2_takeFree]
  intro hd
  exact nFpPrfEntry_bank (h hd)

/-! ## The second slot -/

theorem fpDst_eq {u : Uop} (h : OneDest u) : fpDst u = u.fpDstValid := by
  have h1 := h.gpr
  have h2 := h.hilo
  have h3 := h.fcr
  unfold fpDst
  cases hg : u.dstValid <;> cases hh : u.hiloDstValid <;> cases hf : u.fcrDstValid <;> simp_all

theorem hiloDst_eq {u : Uop} (h : OneDest u) : hiloDst u = u.hiloDstValid := by
  have h1 := h.gpr
  unfold hiloDst
  cases hg : u.dstValid <;> simp_all

theorem fcrDst_eq {u : Uop} (h : OneDest u) : fcrDst u = u.fcrDstValid := by
  have h1 := h.gpr
  have h2 := h.hilo
  unfold fcrDst
  cases hg : u.dstValid <;> cases hh : u.hiloDstValid <;> simp_all

/-- The bypasses of a source stand for the maps after the first uop. -/
theorem renameSrc2_eq (h : OneDest s.tUop) (valid fpValid : Bool) (r : PrfPtr) :
    s.renameSrc2 valid fpValid r = s.allocOne.renameSrc valid fpValid r := by
  unfold renameSrc2 renameSrc
  rw [allocOne_allocRat, allocOne_fpAllocRat, fpDst_eq h]
  cases valid <;> cases fpValid <;> simp only [Bool.or_self, Bool.or_true, Bool.true_or,
    Bool.false_eq_true, if_true, if_false]
  all_goals
    by_cases hr : r.setWidth 5 = s.tUop.dst.setWidth 5
    · cases s.tUop.dstValid <;> cases s.tUop.fpDstValid <;> simp [hr]
    · cases s.tUop.dstValid <;> cases s.tUop.fpDstValid <;> simp [hr]

theorem tRobTail_pdst_fp (h : OneDest s.tUop) (hf : s.tUop.fpDstValid = true) :
    s.tRobTail.pdst = s.nFpPrfEntry := by
  have h1 := fpDst_eq h
  rw [hf, fpDst] at h1
  simp only [Bool.and_eq_true, Bool.not_eq_true'] at h1
  obtain ⟨⟨⟨hg, hh⟩, hc⟩, -⟩ := h1
  unfold tRobTail foldEntry destEntry
  simp only [hg, hh, hc, hf, Bool.false_eq_true, if_true, if_false]
  split_ifs <;> rfl

/-- The register that the second destination replaces, by the comparison of the two numbers. -/
theorem oldPdst_eq (h1 : IsArch s.tUop.dst) (h2 : IsArch s.tUop2.dst) :
    (if s.tUop.dstValid && s.tUop.dst == s.tUop2.dst then s.tRobTail.pdst
      else s.allocRat (s.tUop2.dst.setWidth 5)) = s.allocOne.allocRat (s.tUop2.dst.setWidth 5) := by
  rw [allocOne_allocRat]
  cases hd : s.tUop.dstValid with
  | false => simp
  | true =>
    by_cases he : s.tUop.dst = s.tUop2.dst
    · simp [he, tRobTail_pdst hd]
    · have hne : s.tUop2.dst.setWidth 5 ≠ s.tUop.dst.setWidth 5 := fun h =>
        he ((isArch_setWidth_inj h2 h1).mp h).symm
      simp [he, Function.update_of_ne hne]

theorem oldPdst_fp_eq (h : OneDest s.tUop) (h1 : IsArch s.tUop.dst) (h2 : IsArch s.tUop2.dst) :
    (if s.tUop.fpDstValid && s.tUop.dst == s.tUop2.dst then s.tRobTail.pdst
      else s.fpAllocRat (s.tUop2.dst.setWidth 5)) =
        s.allocOne.fpAllocRat (s.tUop2.dst.setWidth 5) := by
  rw [allocOne_fpAllocRat, fpDst_eq h]
  cases hd : s.tUop.fpDstValid with
  | false => simp
  | true =>
    by_cases he : s.tUop.dst = s.tUop2.dst
    · simp [he, tRobTail_pdst_fp h hd]
    · have hne : s.tUop2.dst.setWidth 5 ≠ s.tUop.dst.setWidth 5 := fun h =>
        he ((isArch_setWidth_inj h2 h1).mp h).symm
      simp [he, Function.update_of_ne hne]

/-- What the guards of a second allocation leave for its slot. -/
theorem allocatesTwo_guards (h : s.allocatesTwo i = true) :
    (s.tUop.dstValid = true → s.tGprFfsFull = false) ∧
      (s.tUop.fpDstValid = true → s.tFpFfsFull = false) ∧ s.tUop2.hiloDstValid = false ∧
        s.tUop2.fcrDstValid = false := by
  simp only [allocatesTwo, canAllocTwo, canAlloc, tEnoughIprfs, tEnoughFprfs, tEnoughNextHlprfs,
    tEnoughNextFcrprfs, Bool.and_eq_true, Bool.not_eq_true', Bool.and_eq_false_imp] at h
  obtain ⟨-, ⟨⟨⟨⟨⟨⟨⟨⟨⟨⟨⟨-, hg⟩, -⟩, hf⟩, -⟩, -⟩, -⟩, -⟩, -⟩, -⟩, hh⟩, -⟩, hc⟩ := h
  exact ⟨hg, hf, hh, hc⟩

/-- What the second slot relies on: its uop and the first one are decoded, and the first one takes
its register out of its own bank. -/
structure SecondSlot (s : Core) : Prop where
  pointers : s.DqPointers
  robNextTail : s.robNextTailPtr = s.robTailPtr + 1
  arch : IsArch s.tUop.dst
  arch2 : IsArch s.tUop2.dst
  oneDest : OneDest s.tUop
  oneDest2 : OneDest s.tUop2
  gpr : s.tUop.dstValid = true → s.tGprFfsFull = false
  fp : s.tUop.fpDstValid = true → s.tFpFfsFull = false
  noHilo : s.tUop2.hiloDstValid = false
  noFcr : s.tUop2.fcrDstValid = false

theorem Decoded.secondSlot (h : s.Decoded) (h2 : s.allocatesTwo i = true) : s.SecondSlot := by
  obtain ⟨hg, hf, hh, hc⟩ := allocatesTwo_guards h2
  have m1 := tUop_mem (allocatesTwo_allocates h2).1
  have m2 := tUop2_mem h.toDqPointers h2
  exact ⟨h.toDqPointers, h.robNextTail, h.queue_arch _ m1, h.queue_arch _ m2, h.queue_oneDest _ m1,
    h.queue_oneDest _ m2, hg, hf, hh, hc⟩

theorem tAllocUop2_allocOne (h : s.SecondSlot) {c : Comb} (hc : c.tAllocTwo = true) :
    s.tAllocUop2 c = s.allocOne.tAllocUop s.allocOne.allocOnly := by
  unfold tAllocUop2 tAllocUop
  simp only [hc, allocOnly_tAlloc, allocOne_tUop h.pointers, renameSrc2_eq h.oneDest, h.noHilo, h.noFcr,
    allocOne_nPrfEntry h.gpr, allocOne_nFpPrfEntry h.fp, allocOne_hiloAllocRat, allocOne_fcrAllocRat,
    hiloDst_eq h.oneDest, fcrDst_eq h.oneDest, allocOne_robTailPtr, h.robNextTail, if_true,
    Bool.false_eq_true, if_false]

theorem destEntry2_eq (h : s.SecondSlot) (e : RobEntry) :
    s.destEntry2 s.tUop2 e = s.allocOne.destEntry s.tUop2 e := by
  unfold destEntry2 destEntry
  simp only [oldPdst_eq h.arch h.arch2, oldPdst_fp_eq h.oneDest h.arch h.arch2, h.noHilo, h.noFcr,
    allocOne_nPrfEntry h.gpr, allocOne_nFpPrfEntry h.fp, Bool.false_eq_true, if_false]

theorem forgetCalls_foldEntry (b : Bool) (op : Opcode) (e : RobEntry) :
    forgetCalls (foldEntry b op e) = foldEntry b op (forgetCalls e) := by
  unfold foldEntry
  split_ifs <;> rfl

theorem forgetCalls_destEntry (u : Uop) (e : RobEntry) :
    forgetCalls (s.destEntry u e) = s.destEntry u (forgetCalls e) := by
  unfold destEntry
  split_ifs <;> rfl

/-- The second entry is the one that its uop alone would get, up to the call and return flags. -/
theorem tRobNextTail_eq (h : s.SecondSlot) :
    forgetCalls s.tRobNextTail = forgetCalls s.allocOne.tRobTail := by
  rw [tRobNextTail, tRobTail, destEntry2_eq h, tFoldUop2, tFoldUop, allocOne_tUop h.pointers,
    forgetCalls_foldEntry, forgetCalls_foldEntry, forgetCalls_destEntry, forgetCalls_destEntry]
  rfl

theorem forgetCalls_modifyIf {v : Bool} {p : RobPtr} {g : RobEntry → RobEntry}
    (hg : ∀ e, forgetCalls (g e) = g (forgetCalls e)) {m m' : RobPtr → RobEntry}
    (h : ∀ q, forgetCalls (m q) = forgetCalls (m' q)) (q : RobPtr) :
    forgetCalls (Ring.modifyIf v p g m q) = forgetCalls (Ring.modifyIf v p g m' q) := by
  unfold Ring.modifyIf
  rw [Ring.writeIf_apply, Ring.writeIf_apply]
  split_ifs
  · rw [hg, hg, h]
  · exact h q

/-- Results do not look at the call and return flags. -/
theorem forgetCalls_writeResults {m m' : RobPtr → RobEntry}
    (h : ∀ q, forgetCalls (m q) = forgetCalls (m' q)) (q : RobPtr) :
    forgetCalls (writeResults i m q) = forgetCalls (writeResults i m' q) := by
  unfold writeResults
  apply forgetCalls_modifyIf (g := memEntry i.coreMemRsp) fun _ => rfl
  apply forgetCalls_modifyIf (g := completeEntry i.completeBundle2) fun _ => rfl
  apply forgetCalls_modifyIf (g := completeEntry i.completeBundle1) fun _ => rfl
  exact h

/-! ## The cycle -/

/-- A cycle with two allocations leaves what two cycles with one allocation each leave.  Results
and retirements of the cycle come on top of them. -/
structure SplitsAlloc (s : Core) (i : CoreIn) : Prop where
  uop : s.tAllocUop (s.comb i) = s.tAllocUop s.allocOnly
  uop2 : s.tAllocUop2 (s.comb i) = s.allocOne.tAllocUop s.allocOne.allocOnly
  entry2 : forgetCalls s.tRobNextTail = forgetCalls s.allocOne.tRobTail
  rob : ∀ p, forgetCalls ((s.step i).rob p) =
    forgetCalls (writeResults i s.allocOne.allocOne.rob p)
  robTailPtr : (s.step i).robTailPtr = s.allocOne.allocOne.robTailPtr
  allocRat : (s.step i).allocRat = s.allocOne.allocOne.allocRat
  fpAllocRat : (s.step i).fpAllocRat = s.allocOne.allocOne.fpAllocRat
  hiloAllocRat : (s.step i).hiloAllocRat = s.allocOne.allocOne.hiloAllocRat
  fcrAllocRat : (s.step i).fcrAllocRat = s.allocOne.allocOne.fcrAllocRat
  prfFree : (s.step i).prfFree =
    (giveFree (s.tFreeRegTwo (s.comb i)) s.tRobNextHead.oldPdst.toNat <|
      giveFree (s.tFreeReg (s.comb i)) s.tRobHead.oldPdst.toNat s.allocOne.allocOne.prfFree)
  fpPrfFree : (s.step i).fpPrfFree =
    (giveFree (s.tFreeFpRegTwo (s.comb i)) s.tRobNextHead.oldPdst.toNat <|
      giveFree (s.tFreeFpReg (s.comb i)) s.tRobHead.oldPdst.toNat s.allocOne.allocOne.fpPrfFree)
  hiloPrfFree : (s.step i).hiloPrfFree =
    giveFree (s.tFreeHilo (s.comb i)) (s.tRobHead.oldPdst.setWidth 2).toNat
      s.allocOne.allocOne.hiloPrfFree
  fcrPrfFree : (s.step i).fcrPrfFree =
    giveFree (s.tFreeFcr (s.comb i)) (s.tRobHead.oldPdst.setWidth 2).toNat
      s.allocOne.allocOne.fcrPrfFree
  inDelaySlot : (s.step i).inDelaySlot = s.allocOne.allocOne.inDelaySlot

theorem comb_nInDelaySlot_two (h1 : s.allocates i = true) (h2 : s.allocatesTwo i = true) :
    (s.comb i).nInDelaySlot = s.tUop2.hasDelaySlot := by
  have ha := (combState_strobes s i).1
  have ha2 := (combState_strobes s i).2.1
  rw [comb, withDelaySlot, if_pos (ha.trans h1)]
  simp [ha2, h2]

theorem splitsAlloc (h : s.Decoded) (h2 : s.allocatesTwo i = true) : s.SplitsAlloc i := by
  obtain ⟨h1, -, -, hact⟩ := allocatesTwo_allocates h2
  have hfl : s.flushes = false := by simp [flushes, hact]
  have hs := h.secondSlot h2
  have hu := allocOne_tUop h.toDqPointers
  have hg := allocOne_nPrfEntry hs.gpr
  have hf := allocOne_nFpPrfEntry hs.fp
  have hf1 := fpDst_eq hs.oneDest
  have hf2 := fpDst_eq hs.oneDest2
  refine ⟨?_, tAllocUop2_allocOne hs (by simp [h2]), tRobNextTail_eq hs, ?_, ?_, ?_, ?_, ?_, ?_, ?_, ?_, ?_,
    ?_, ?_⟩
  · simp only [tAllocUop, comb_tAlloc, h1, allocOnly_tAlloc]
  · intro p
    rw [step_rob hfl]
    apply forgetCalls_writeResults
    intro q
    rw [robAllocated, allocOne_rob, allocOne_rob, allocOne_robTailPtr, h.robNextTail, h1, h2, writeIf,
      if_pos rfl, Function.update_apply, Function.update_apply]
    split_ifs
    · exact tRobNextTail_eq hs
    · rfl
  · rw [step_robTailPtr hfl, allocCount, h1, h2, allocOne_robTailPtr, allocOne_robTailPtr,
      BitVec.add_assoc]
    rfl
  · rw [allocOne_allocRat, allocOne_allocRat, hu, hg]
    simp [step, clock, nAllocRat, hfl, h1, h2]
  · rw [allocOne_fpAllocRat, allocOne_fpAllocRat, hu, hf]
    simp [step, clock, nFpAllocRat, hfl, h1, h2]
  · rw [allocOne_hiloAllocRat, allocOne_hiloAllocRat, hu]
    simp [step, clock, nHiloAllocRat, hfl, h1, hiloDst, hs.noHilo]
  · rw [allocOne_fcrAllocRat, allocOne_fcrAllocRat, hu]
    simp [step, clock, nFcrAllocRat, hfl, h1, fcrDst, hs.noFcr]
  · rw [allocOne_prfFree, allocOne_prfFree, hu, hg]
    simp [step, clock, nPrfFree, hfl, h1, h2]
  · rw [allocOne_fpPrfFree, allocOne_fpPrfFree, hu, hf]
    simp [step, clock, nFpPrfFree, hfl, h1, h2]
  · rw [allocOne_hiloPrfFree, allocOne_hiloPrfFree, hu, hs.noHilo]
    simp [step, clock, nHiloPrfFree, hfl, h1]
    rfl
  · rw [allocOne_fcrPrfFree, allocOne_fcrPrfFree, hu, hs.noFcr]
    simp [step, clock, nFcrPrfFree, hfl, h1]
    rfl
  · change (s.comb i).nInDelaySlot = s.allocOne.tUop.hasDelaySlot
    rw [comb_nInDelaySlot_two h1 h2, hu]

/-- In every state that the core can reach, a cycle with two allocations is two cycles with one. -/
theorem run_splitsAlloc (rob : RobPtr → RobEntry) (dq : BitVec 2 → Uop) (inputs : List CoreIn)
    (i : CoreIn) (h : (run step (Core.reset rob dq) inputs).allocatesTwo i = true) :
    (run step (Core.reset rob dq) inputs).SplitsAlloc i :=
  splitsAlloc (run_decoded rob dq inputs) h

/-- Two moves into the same register, allocated together. -/
theorem run_splitsAlloc_moves :
    (run step (Core.reset (fun _ => {}) fun _ => {})
      [{ resume := true }, { restartAck := true },
        { insnValid := true, insn := moviInsn 3, insnValidTwo := true, insnTwo := moviInsn 3 }]).SplitsAlloc
      {} :=
  run_splitsAlloc _ _ _ _ (by decide +kernel)

end Core
end MipsCore
