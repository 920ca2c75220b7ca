import MipsCore.Core.FreeList

/-! # Two retirements in one cycle

A cycle that retires two entries commits them as two cycles that retire one entry
each, because its guards leave to the second slot only an entry without a HI/LO or
FCR destination.
-/
namespace MipsCore
namespace Core
open BitMask Clocked
variable {s : Core} {i : CoreIn}

/-- The signals of a cycle that retires the head of the reorder buffer and does nothing else. -/
def retireOnly (s : Core) : Comb := { combDefault s {} with tRetire := true }

/-- The cycle itself. -/
def retireOne (s : Core) : Core := s.clock {} s.retireOnly

/-- The state with the registers that the cycle allocates taken out of the free lists. -/
def withTaken (s : Core) (i : CoreIn) : Core :=
  { s with
    prfFree :=
      takeFree (s.allocatesTwo i && s.tUop2.dstValid) s.nPrfEntry2.toNat <|
        takeFree (s.allocates i && s.tUop.dstValid) s.nPrfEntry.toNat s.prfFree
    fpPrfFree :=
      takeFree (s.allocatesTwo i && s.tUop2.fpDstValid) s.nFpPrfEntry2.toNat <|
        takeFree (s.allocates i && s.tUop.fpDstValid) s.nFpPrfEntry.toNat s.fpPrfFree
    hiloPrfFree :=
      takeFree (s.allocates i && s.tUop.hiloDstValid) s.nHiloPrfEntry.toNat s.hiloPrfFree
    fcrPrfFree :=
      takeFree (s.allocates i && s.tUop.fcrDstValid) s.nFcrPrfEntry.toNat s.fcrPrfFree }

/-! ## Entries of one class -/

/-- An entry has an integer or an FP destination and not both. -/
def OneClass (e : RobEntry) : Prop := e.validFpDst = true → e.validDst = false

instance (e : RobEntry) : Decidable (OneClass e) := inferInstanceAs (Decidable (_ → _))

theorem oneClass_foldEntry {b : Bool} {op : Opcode} {e : RobEntry} (h : OneClass e) :
    OneClass (foldEntry b op e) := by
  unfold foldEntry
  split_ifs <;> exact h

theorem oneClass_tRobTail : OneClass s.tRobTail := by
  apply oneClass_foldEntry
  unfold destEntry OneClass
  split_ifs <;> simp [baseEntry]

theorem oneClass_tRobNextTail : OneClass s.tRobNextTail := by
  apply oneClass_foldEntry
  unfold destEntry2 OneClass
  split_ifs <;> simp [baseEntry]

theorem oneClass_writeResults {m : RobPtr → RobEntry} (h : ∀ p, OneClass (m p)) (p : RobPtr) :
    OneClass (writeResults i m p) := by
  have hs : Stable OneClass := ⟨fun _ _ => rfl, fun _ _ => rfl⟩
  rw [hs.writeResults]
  exact h p

/-- The registers that the core relies on at a dual retirement. -/
structure RetirePairInv (s : Core) : Prop where
  robNextHead : s.robNextHeadPtr = s.robHeadPtr + 1
  oneClass : ∀ p, OneClass (s.rob p)

theorem step_retirePairInv (h : s.RetirePairInv) : (s.step i).RetirePairInv := by
  refine ⟨step_robNextHead h.robNextHead, ?_⟩
  intro p
  cases hf : s.flushes with
  | true =>
    have hrob : (s.step i).rob p = { s.rob p with faulted := false } := by
      simp [step, clock, nRob, hf]
    rw [hrob]
    exact h.oneClass p
  | false =>
    rw [step_rob hf]
    apply oneClass_writeResults
    intro q
    rw [robAllocated, Ring.writeIf_apply, Ring.writeIf_apply]
    split_ifs
    · exact oneClass_tRobNextTail
    · exact oneClass_tRobTail
    · exact h.oneClass q

theorem run_retirePairInv {rob : RobPtr → RobEntry} (hr : ∀ p, OneClass (rob p))
    (dq : BitVec 2 → Uop) (inputs : List CoreIn) :
    (run step (Core.reset rob dq) inputs).RetirePairInv := by
  apply @run_invariant _ _ step RetirePairInv
  · intro _ _ h
    exact step_retirePairInv h
  · exact ⟨rfl, hr⟩

/-! ## A cycle that retires one entry -/

section One
variable (s)

@[simp] theorem retireOne_rob : s.retireOne.rob = s.rob := by
  simp [retireOne, retireOnly, combDefault, clock, nRob, writeResults, Ring.modifyIf, Ring.writeIf]
theorem retireOne_robHeadPtr : s.retireOne.robHeadPtr = s.robHeadPtr + 1 := by
  simp [retireOne, retireOnly, combDefault, clock, nRobHeadPtr, retireStep]
theorem retireOne_robNextHeadPtr : s.retireOne.robNextHeadPtr = s.robNextHeadPtr + 1 := by
  simp [retireOne, retireOnly, combDefault, clock, nRobNextHeadPtr, retireStep]
theorem retireOne_robDeadInsns :
    s.retireOne.robDeadInsns = setBitIf true (Ring.slot s.robHeadPtr) false s.robDeadInsns := by
  simp [retireOne, retireOnly, combDefault, clock, nRobDeadInsns, setBitIf]

theorem retireOne_retireRat :
    s.retireOne.retireRat = retireMap (s.tFreeReg s.retireOnly) s.tRobHead s.retireRat := rfl
theorem retireOne_fpRetireRat :
    s.retireOne.fpRetireRat = retireMap (s.tFreeFpReg s.retireOnly) s.tRobHead s.fpRetireRat := rfl
theorem retireOne_hiloRetireRat :
    s.retireOne.hiloRetireRat =
      if s.tFreeHilo s.retireOnly then s.tRobHead.pdst.setWidth 2 else s.hiloRetireRat := rfl
theorem retireOne_fcrRetireRat :
    s.retireOne.fcrRetireRat =
      if s.tFreeFcr s.retireOnly then s.tRobHead.pdst.setWidth 2 else s.fcrRetireRat := rfl

theorem retireOne_retirePrfFree :
    s.retireOne.retirePrfFree =
      retireFree (s.tFreeReg s.retireOnly) s.tRobHead.pdst.toNat s.tRobHead.oldPdst.toNat
        s.retirePrfFree := rfl
theorem retireOne_retireFpPrfFree :
    s.retireOne.retireFpPrfFree =
      retireFree (s.tFreeFpReg s.retireOnly) s.tRobHead.pdst.toNat s.tRobHead.oldPdst.toNat
        s.retireFpPrfFree := rfl
theorem retireOne_retireHiloPrfFree :
    s.retireOne.retireHiloPrfFree =
      retireFree (s.tFreeHilo s.retireOnly) (s.tRobHead.pdst.setWidth 2).toNat
        (s.tRobHead.oldPdst.setWidth 2).toNat s.retireHiloPrfFree := rfl
theorem retireOne_retireFcrPrfFree :
    s.retireOne.retireFcrPrfFree =
      retireFree (s.tFreeFcr s.retireOnly) (s.tRobHead.pdst.setWidth 2).toNat
        (s.tRobHead.oldPdst.setWidth 2).toNat s.retireFcrPrfFree := rfl

theorem retireOne_prfFree :
    s.retireOne.prfFree = giveFree (s.tFreeReg s.retireOnly) s.tRobHead.oldPdst.toNat s.prfFree := rfl
theorem retireOne_fpPrfFree :
    s.retireOne.fpPrfFree =
      giveFree (s.tFreeFpReg s.retireOnly) s.tRobHead.oldPdst.toNat s.fpPrfFree := rfl
theorem retireOne_hiloPrfFree :
    s.retireOne.hiloPrfFree =
      giveFree (s.tFreeHilo s.retireOnly) (s.tRobHead.oldPdst.setWidth 2).toNat s.hiloPrfFree := rfl
theorem retireOne_fcrPrfFree :
    s.retireOne.fcrPrfFree =
      giveFree (s.tFreeFcr s.retireOnly) (s.tRobHead.oldPdst.setWidth 2).toNat s.fcrPrfFree := rfl

theorem retireOnly_frees :
    s.tFreeReg s.retireOnly = s.tRobHead.validDst ∧
      s.tFreeHilo s.retireOnly = (!s.tRobHead.validDst && s.tRobHead.validHiloDst) ∧
        s.tFreeFcr s.retireOnly =
          (!s.tRobHead.validDst && !s.tRobHead.validHiloDst && s.tRobHead.validFcrDst) ∧
          s.tFreeFpReg s.retireOnly =
            (!s.tRobHead.validDst && !s.tRobHead.validHiloDst && !s.tRobHead.validFcrDst &&
              s.tRobHead.validFpDst) := by
  simp [retireOnly, tFreeReg, tFreeHilo, tFreeFcr, tFreeFpReg]

end One

/-- The second entry is the head after the first one has retired. -/
theorem retireOne_tRobHead (h : s.robNextHeadPtr = s.robHeadPtr + 1) :
    s.retireOne.tRobHead = s.tRobNextHead := by
  rw [tRobHead, tRobNextHead, retireOne_rob, retireOne_robHeadPtr, h]

/-- The classes that the second entry retires in, by itself and in the second slot. -/
theorem retireOne_frees (h : s.RetirePairInv) (h2 : s.retiresTwo = true) {c : Comb}
    (hc : c.tRetire = true ∧ c.tRetireTwo = true) :
    s.retireOne.tFreeReg s.retireOne.retireOnly = s.tFreeRegTwo c ∧
      s.retireOne.tFreeHilo s.retireOne.retireOnly = false ∧
        s.retireOne.tFreeFcr s.retireOne.retireOnly = false ∧
          s.retireOne.tFreeFpReg s.retireOne.retireOnly = s.tFreeFpRegTwo c := by
  obtain ⟨hh, hf⟩ := retiresTwo_guards h2
  have hone : OneClass s.tRobNextHead := h.oneClass _
  obtain ⟨h1, h3, h4, h5⟩ := retireOnly_frees s.retireOne
  rw [retireOne_tRobHead h.robNextHead] at h1 h3 h4 h5
  refine ⟨?_, ?_, ?_, ?_⟩
  · simp [h1, tFreeRegTwo, hc]
  · simp [h3, hh]
  · simp [h4, hf]
  · rw [h5, tFreeFpRegTwo, hc.1, hc.2, hh, hf]
    cases hfp : s.tRobNextHead.validFpDst with
    | false => simp
    | true => simp [hone hfp]

/-! ## The cycle -/

/-- A cycle with two retirements leaves what two cycles with one retirement each leave.  The
registers that the cycle allocates are taken before them, and its new entries marked after them. -/
structure SplitsRetire (s : Core) (i : CoreIn) (t : Core) : Prop where
  retireRat : (s.step i).retireRat = t.retireRat
  fpRetireRat : (s.step i).fpRetireRat = t.fpRetireRat
  hiloRetireRat : (s.step i).hiloRetireRat = t.hiloRetireRat
  fcrRetireRat : (s.step i).fcrRetireRat = t.fcrRetireRat
  retirePrfFree : (s.step i).retirePrfFree = t.retirePrfFree
  retireFpPrfFree : (s.step i).retireFpPrfFree = t.retireFpPrfFree
  retireHiloPrfFree : (s.step i).retireHiloPrfFree = t.retireHiloPrfFree
  retireFcrPrfFree : (s.step i).retireFcrPrfFree = t.retireFcrPrfFree
  prfFree : (s.step i).prfFree = t.prfFree
  fpPrfFree : (s.step i).fpPrfFree = t.fpPrfFree
  hiloPrfFree : (s.step i).hiloPrfFree = t.hiloPrfFree
  fcrPrfFree : (s.step i).fcrPrfFree = t.fcrPrfFree
  robHeadPtr : (s.step i).robHeadPtr = t.robHeadPtr
  robNextHeadPtr : (s.step i).robNextHeadPtr = t.robNextHeadPtr
  robDeadInsns : (s.step i).robDeadInsns =
    (setBitIf (s.allocatesTwo i) (Ring.slot s.robNextTailPtr) true <|
      setBitIf (s.allocates i) (Ring.slot s.robTailPtr) true t.robDeadInsns)

theorem splitsRetire (h : s.RetirePairInv) (h2 : s.retiresTwo = true) :
    s.SplitsRetire i (s.withTaken i).retireOne.retireOne := by
  obtain ⟨h1, hact, -, -⟩ := retiresTwo_retires (i := i) h2
  have hfl : s.flushes = false := by simp [flushes, hact]
  have hb : s.bumps = false := by
    simp only [retiresTwo, canRetireTwo, Bool.and_eq_true, Bool.not_eq_true'] at h2
    simp [bumps, h2]
  have hc : (s.comb i).tRetire = true ∧ (s.comb i).tRetireTwo = true := by simp [h1, h2]
  have ht : (s.withTaken i).RetirePairInv := ⟨h.robNextHead, h.oneClass⟩
  have hr := hc.1
  have f1 : (s.withTaken i).tFreeReg (s.withTaken i).retireOnly = s.tFreeReg (s.comb i) := by
    rw [tFreeReg, tFreeReg, hr]
    rfl
  have f2 : (s.withTaken i).tFreeHilo (s.withTaken i).retireOnly = s.tFreeHilo (s.comb i) := by
    rw [tFreeHilo, tFreeHilo, hr]
    rfl
  have f3 : (s.withTaken i).tFreeFcr (s.withTaken i).retireOnly = s.tFreeFcr (s.comb i) := by
    rw [tFreeFcr, tFreeFcr, hr]
    rfl
  have f4 : (s.withTaken i).tFreeFpReg (s.withTaken i).retireOnly = s.tFreeFpReg (s.comb i) := by
    rw [tFreeFpReg, tFreeFpReg, hr]
    rfl
  obtain ⟨g1, g2, g3, g4⟩ := retireOne_frees ht h2 hc
  have hhead := retireOne_tRobHead ht.robNextHead
  refine ⟨?_, ?_, ?_, ?_, ?_, ?_, ?_, ?_, ?_, ?_, ?_, ?_, ?_, ?_, ?_⟩
  · rw [retireOne_retireRat, hhead, g1, retireOne_retireRat, f1]
    rfl
  · rw [retireOne_fpRetireRat, hhead, g4, retireOne_fpRetireRat, f4]
    rfl
  · rw [retireOne_hiloRetireRat, g2, retireOne_hiloRetireRat, f2]
    rfl
  · rw [retireOne_fcrRetireRat, g3, retireOne_fcrRetireRat, f3]
    rfl
  · rw [retireOne_retirePrfFree, hhead, g1, retireOne_retirePrfFree, f1]
    rfl
  · rw [retireOne_retireFpPrfFree, hhead, g4, retireOne_retireFpPrfFree, f4]
    rfl
  · rw [retireOne_retireHiloPrfFree, g2, retireOne_retireHiloPrfFree, f2]
    rfl
  · rw [retireOne_retireFcrPrfFree, g3, retireOne_retireFcrPrfFree, f3]
    rfl
  · have hstep : (s.step i).prfFree = s.nPrfFree (s.comb i) := by simp [step, clock, hfl]
    rw [hstep, nPrfFree, comb_tAlloc, comb_tAllocTwo, retireOne_prfFree, hhead, g1, retireOne_prfFree,
      f1]
    rfl
  · have hstep : (s.step i).fpPrfFree = s.nFpPrfFree (s.comb i) := by simp [step, clock, hfl]
    rw [hstep, nFpPrfFree, comb_tAlloc, comb_tAllocTwo, retireOne_fpPrfFree, hhead, g4,
      retireOne_fpPrfFree, f4]
    rfl
  · have hstep : (s.step i).hiloPrfFree = s.nHiloPrfFree (s.comb i) := by simp [step, clock, hfl]
    rw [hstep, nHiloPrfFree, comb_tAlloc, retireOne_hiloPrfFree, g2, retireOne_hiloPrfFree, f2]
    rfl
  · have hstep : (s.step i).fcrPrfFree = s.nFcrPrfFree (s.comb i) := by simp [step, clock, hfl]
    rw [hstep, nFcrPrfFree, comb_tAlloc, retireOne_fcrPrfFree, g3, retireOne_fcrPrfFree, f3]
    rfl
  · rw [step_robHeadPtr hfl, retireCount, h1, h2, retireOne_robHeadPtr, retireOne_robHeadPtr,
      BitVec.add_assoc]
    rfl
  · have hstep : (s.step i).robNextHeadPtr = s.robNextHeadPtr + 2 := by
      simp [step, clock, nRobNextHeadPtr, retireStep, hfl, h1, h2]
    rw [hstep, retireOne_robNextHeadPtr, retireOne_robNextHeadPtr, BitVec.add_assoc]
    rfl
  · have hstep : (s.step i).robDeadInsns = s.nRobDeadInsns (s.comb i) := rfl
    rw [hstep, nRobDeadInsns, comb_tClrRob, hfl, comb_tAlloc, comb_tAllocTwo, comb_tRetire,
      comb_tRetireTwo, h1, h2, retireOne_robDeadInsns, retireOne_robDeadInsns, retireOne_robHeadPtr,
      h.robNextHead]
    rfl

/-- In every state that the core can reach from a buffer without entries of two classes, a cycle
with two retirements is two cycles with one. -/
theorem run_splitsRetire {rob : RobPtr → RobEntry} (hr : ∀ p, OneClass (rob p))
    (dq : BitVec 2 → Uop) (inputs : List CoreIn) (i : CoreIn)
    (h : (run step (Core.reset rob dq) inputs).retiresTwo = true) :
    (run step (Core.reset rob dq) inputs).SplitsRetire i
      ((run step (Core.reset rob dq) inputs).withTaken i).retireOne.retireOne :=
  splitsRetire (run_retirePairInv hr dq inputs) h

/-- Two moves into the same register that complete together. -/
def moveTwice : List CoreIn :=
  [{ resume := true }, { restartAck := true },
    { insnValid := true, insn := moviInsn 3, insnValidTwo := true, insnTwo := moviInsn 3 }, {},
    { completeValid1 := true, completeBundle1 := { robPtr := 0, complete := true },
      completeValid2 := true, completeBundle2 := { robPtr := 1, complete := true } }]

theorem run_splitsRetire_moveTwice :
    (run step (Core.reset (fun _ => {}) fun _ => {}) moveTwice).SplitsRetire {}
      ((run step (Core.reset (fun _ => {}) fun _ => {}) moveTwice).withTaken {}).retireOne.retireOne :=
  run_splitsRetire (fun _ _ => rfl) _ _ _ (by decide +kernel)

end Core
end MipsCore
