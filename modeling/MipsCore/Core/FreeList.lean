import MipsCore.Core.Renames

/-! # Integrity of the integer free list

The committed map, the un-retired destinations and the speculative map form a
coherent renaming state, so a register handed out from a bank that is not empty
is nobody's.  The serializing states look at the whole free list instead of the
selected bank and can hand out a register that is in use.
-/
namespace MipsCore
namespace Core
open BitMask Rename Clocked
open Ring (writeIf)
variable {s : Core} {i : CoreIn}

/-! ## Free lists as sets -/

def freeSet (m : BitVec 64) : Set PrfPtr := {p | m.getLsbD p.toNat = true}

section Members
variable {w n : ℕ} (hw : 2 ^ n ≤ w)
include hw

theorem members_takeFree (b : Bool) (p : BitVec n) (m : BitVec w) :
    members (takeFree b p.toNat m) = if b then members m \ {p} else members m := by
  cases b <;> simp [takeFree, members_setBit hw]

theorem members_giveFree (b : Bool) (p : BitVec n) (m : BitVec w) :
    members (giveFree b p.toNat m) = if b then insert p (members m) else members m := by
  cases b <;> simp [giveFree, members_setBit hw]

theorem members_retireFree (b : Bool) (p q : BitVec n) (m : BitVec w) :
    members (retireFree b p.toNat q.toNat m) =
      if b then insert q (members m \ {p}) else members m := by
  cases b <;> simp [retireFree, members_setBit hw]

end Members

theorem freeSet_takeFree (b : Bool) (p : PrfPtr) (m : BitVec 64) :
    freeSet (takeFree b p.toNat m) = if b then freeSet m \ {p} else freeSet m :=
  members_takeFree (by decide) b p m
theorem freeSet_giveFree (b : Bool) (p : PrfPtr) (m : BitVec 64) :
    freeSet (giveFree b p.toNat m) = if b then insert p (freeSet m) else freeSet m :=
  members_giveFree (by decide) b p m
theorem freeSet_retireFree (b : Bool) (p q : PrfPtr) (m : BitVec 64) :
    freeSet (retireFree b p.toNat q.toNat m) =
      if b then insert q (freeSet m \ {p}) else freeSet m :=
  members_retireFree (by decide) b p q m

/-! ## The banks -/

theorem getLsbD_evenBank (m : BitVec 64) (k : ℕ) :
    (evenBank m).getLsbD k = (m.getLsbD k && k % 2 == 0) := by
  by_cases hk : k < 64
  · have : ∀ k < 64, (0x5555555555555555#64).getLsbD k = (k % 2 == 0) := by decide
    rw [evenBank, BitVec.getLsbD_and, this k hk]
  · rw [BitVec.getLsbD_of_ge _ _ (not_lt.mp hk), BitVec.getLsbD_of_ge m _ (not_lt.mp hk)]; rfl

theorem getLsbD_oddBank (m : BitVec 64) (k : ℕ) :
    (oddBank m).getLsbD k = (m.getLsbD k && k % 2 == 1) := by
  by_cases hk : k < 64
  · have : ∀ k < 64, (0xaaaaaaaaaaaaaaaa#64).getLsbD k = (k % 2 == 1) := by decide
    rw [oddBank, BitVec.getLsbD_and, this k hk]
  · rw [BitVec.getLsbD_of_ge _ _ (not_lt.mp hk), BitVec.getLsbD_of_ge m _ (not_lt.mp hk)]; rfl

/-- The scanner's answer over a nonempty mask, narrowed to a register number. -/
theorem findFirstSet_entry {m : BitVec 64} (h : m ≠ 0) :
    m.getLsbD ((findFirstSet 4 m).setWidth 6 : PrfPtr).toNat = true := by
  obtain ⟨hlt, hbit, -⟩ := findFirstSet_spec 4 m h
  have hn : ((findFirstSet 4 m).setWidth 6 : PrfPtr).toNat = (findFirstSet 4 m).toNat := by
    rw [BitVec.toNat_setWidth]
    exact Nat.mod_eq_of_lt hlt
  rw [hn]
  exact hbit

theorem mem_of_bank {m : BitVec 64} {p : PrfPtr} (h : (s.bank m).getLsbD p.toNat = true) :
    p ∈ freeSet m := by
  unfold bank at h
  split_ifs at h
  · rw [getLsbD_evenBank, Bool.and_eq_true] at h
    exact h.1
  · rw [getLsbD_oddBank, Bool.and_eq_true] at h
    exact h.1

theorem mem_of_bank2 {m : BitVec 64} {p : PrfPtr} (h : (s.bank2 m).getLsbD p.toNat = true) :
    p ∈ freeSet m := by
  unfold bank2 at h
  split_ifs at h
  · rw [getLsbD_oddBank, Bool.and_eq_true] at h
    exact h.1
  · rw [getLsbD_evenBank, Bool.and_eq_true] at h
    exact h.1

theorem ne_of_banks {m : BitVec 64} {p q : PrfPtr} (hp : (s.bank m).getLsbD p.toNat = true)
    (hq : (s.bank2 m).getLsbD q.toNat = true) : q ≠ p := by
  rintro rfl
  unfold bank at hp
  unfold bank2 at hq
  split_ifs at hp hq <;> simp_all [getLsbD_evenBank, getLsbD_oddBank]

theorem nPrfEntry_bank (h : s.tGprFfsFull = false) :
    (s.bank s.prfFree).getLsbD s.nPrfEntry.toNat = true :=
  findFirstSet_entry (by simpa [tGprFfsFull] using h)
theorem nPrfEntry2_bank (h : s.tGprFfs2Full = false) :
    (s.bank2 s.prfFree).getLsbD s.nPrfEntry2.toNat = true :=
  findFirstSet_entry (by simpa [tGprFfs2Full] using h)
theorem nFpPrfEntry_bank (h : s.tFpFfsFull = false) :
    (s.bank s.fpPrfFree).getLsbD s.nFpPrfEntry.toNat = true :=
  findFirstSet_entry (by simpa [tFpFfsFull] using h)
theorem nFpPrfEntry2_bank (h : s.tFpFfs2Full = false) :
    (s.bank2 s.fpPrfFree).getLsbD s.nFpPrfEntry2.toNat = true :=
  findFirstSet_entry (by simpa [tFpFfs2Full] using h)

theorem nPrfEntry_mem (h : s.tGprFfsFull = false) : s.nPrfEntry ∈ freeSet s.prfFree :=
  mem_of_bank (nPrfEntry_bank h)
theorem nPrfEntry2_mem (h : s.tGprFfs2Full = false) : s.nPrfEntry2 ∈ freeSet s.prfFree :=
  mem_of_bank2 (nPrfEntry2_bank h)

/-- The two registers of a cycle come from different banks. -/
theorem nPrfEntry_ne (h : s.tGprFfsFull = false) (h2 : s.tGprFfs2Full = false) :
    s.nPrfEntry2 ≠ s.nPrfEntry := ne_of_banks (nPrfEntry_bank h) (nPrfEntry2_bank h2)

/-! ## The renaming state of the core -/

/-- The integer rename that an entry records. -/
def renameEntry (e : RobEntry) : Option (Entry ArchReg PrfPtr) :=
  if e.validDst then some ⟨e.ldst, e.pdst, e.oldPdst⟩ else none

def renameLog (l : List RobEntry) : List (Entry ArchReg PrfPtr) := l.filterMap renameEntry

theorem stable_renameEntry : Stable renameEntry := ⟨fun _ _ => rfl, fun _ _ => rfl⟩

theorem renameLog_congr {l r : List RobEntry} (h : l.map renameEntry = r.map renameEntry) :
    renameLog l = renameLog r := by
  have := congrArg (List.filterMap id) h
  rwa [List.filterMap_map, List.filterMap_map, Function.id_comp] at this

/-- The invariant of rename, allocation and retirement. -/
structure RenameInv (s : Core) : Prop where
  pointers : s.Pointers
  queue_arch : ∀ u ∈ s.queue, IsArch u.dst
  coherent : Coherent s.retireRat s.allocRat (renameLog s.window) (freeSet s.prfFree)
    (freeSet s.retirePrfFree)

/-- The selected bank has a free register whenever a serializing state allocates a destination,
and a monitor call retires only the uop it has allocated. -/
def BankNonempty (s : Core) (i : CoreIn) : Prop :=
  ((s.state = .ALLOC_FOR_SERIALIZE ∨ s.state = .ALLOC_FOR_MONITOR) → (s.comb i).tAlloc = true →
    s.tUop.dstValid = true → s.tGprFfsFull = false) ∧ s.MonitorAllocated i

/-- The same as a check that can be evaluated. -/
def bankCheck (s : Core) (i : CoreIn) : Bool :=
  !((s.state == .ALLOC_FOR_SERIALIZE || s.state == .ALLOC_FOR_MONITOR) && (s.comb i).tAlloc &&
      s.tUop.dstValid && s.tGprFfsFull) &&
    !(s.state == .WAIT_FOR_MONITOR && s.retires i && s.tRobEmpty)

theorem bankCheck_iff : bankCheck s i = true ↔ BankNonempty s i := by
  simp only [bankCheck, BankNonempty, MonitorAllocated, Bool.and_eq_true, Bool.not_eq_true',
    Bool.and_eq_false_imp, Bool.or_eq_true, beq_iff_eq, and_imp]

instance : Decidable (BankNonempty s i) := decidable_of_iff _ bankCheck_iff

theorem allocates_bank (hg : BankNonempty s i) (h : s.allocates i = true)
    (hd : s.tUop.dstValid = true) : s.tGprFfsFull = false := by
  cases hs : s.state with
  | ACTIVE =>
    simp only [allocates, hs, canAlloc, tEnoughIprfs, hd, Bool.true_and, Bool.and_eq_true,
      Bool.not_eq_true'] at h
    exact h.2.1.1.1.2
  | ALLOC_FOR_SERIALIZE => exact hg.1 (Or.inl hs) (by simpa using h) hd
  | ALLOC_FOR_MONITOR => exact hg.1 (Or.inr hs) (by simpa using h) hd
  | _ => simp [allocates, hs] at h

theorem allocatesTwo_bank (h : s.allocatesTwo i = true) (hd : s.tUop2.dstValid = true) :
    s.tGprFfs2Full = false := by
  simp only [allocatesTwo, canAllocTwo, tEnoughNextIprfs, hd, Bool.true_and, Bool.and_eq_true,
    Bool.not_eq_true'] at h
  exact h.2.1.1.1.2

theorem renameEntry_foldEntry (b : Bool) (op : Opcode) (e : RobEntry) :
    renameEntry (foldEntry b op e) = renameEntry e := by
  unfold foldEntry
  split_ifs <;> rfl

theorem renameEntry_tRobTail :
    renameEntry s.tRobTail =
      if s.tUop.dstValid then
        some ⟨s.tUop.dst.setWidth 5, s.nPrfEntry, s.allocRat (s.tUop.dst.setWidth 5)⟩
      else none := by
  rw [tRobTail, renameEntry_foldEntry]
  unfold destEntry
  split_ifs <;> rfl

theorem tRobTail_pdst (h : s.tUop.dstValid = true) : s.tRobTail.pdst = s.nPrfEntry := by
  unfold tRobTail foldEntry destEntry
  rw [if_pos h]
  split_ifs <;> rfl

/-- The location that the second uop's destination replaces, as the first one leaves the map. -/
def oldEntry2 (s : Core) : PrfPtr :=
  (if s.tUop.dstValid then Function.update s.allocRat (s.tUop.dst.setWidth 5) s.nPrfEntry
    else s.allocRat) (s.tUop2.dst.setWidth 5)

theorem isArch_setWidth_inj {p q : PrfPtr} (hp : IsArch p) (hq : IsArch q) :
    p.setWidth 5 = q.setWidth 5 ↔ p = q := by
  refine ⟨fun h => ?_, fun h => h ▸ rfl⟩
  apply BitVec.eq_of_getLsbD_eq
  intro k hk
  by_cases hk5 : k = 5
  · subst hk5; exact hp.trans hq.symm
  · have := congrArg (fun x : BitVec 5 => x.getLsbD k) h
    simpa [show k < 5 by omega] using this

theorem renameEntry_tRobNextTail (h1 : IsArch s.tUop.dst) (h2 : IsArch s.tUop2.dst) :
    renameEntry s.tRobNextTail =
      if s.tUop2.dstValid then some ⟨s.tUop2.dst.setWidth 5, s.nPrfEntry2, s.oldEntry2⟩ else none := by
  rw [tRobNextTail, renameEntry_foldEntry]
  unfold destEntry2
  cases hd2 : s.tUop2.dstValid with
  | false =>
    simp only [Bool.false_eq_true, ↓reduceIte]
    split_ifs <;> rfl
  | true =>
    simp only [↓reduceIte, renameEntry, oldEntry2]
    cases hd : s.tUop.dstValid with
    | false => simp
    | true =>
      by_cases he : s.tUop.dst = s.tUop2.dst
      · simp [he, tRobTail_pdst hd]
      · have hne : s.tUop2.dst.setWidth 5 ≠ s.tUop.dst.setWidth 5 := fun h =>
          he ((isArch_setWidth_inj h2 h1).mp h).symm
        simp [he, Function.update_of_ne hne]

/-! ## One cycle -/

theorem tUop_isArch (h : s.RenameInv) (ha : s.allocates i = true) : IsArch s.tUop.dst :=
  h.queue_arch _ (tUop_mem ha)

theorem tUop2_isArch (h : s.RenameInv) (ha : s.allocatesTwo i = true) : IsArch s.tUop2.dst :=
  h.queue_arch _ (tUop2_mem h.pointers.toDqPointers ha)

theorem allocated_renameEntry :
    s.allocated i renameEntry =
      renameIf (s.allocates i && s.tUop.dstValid) (s.tUop.dst.setWidth 5) s.nPrfEntry
        (s.allocRat (s.tUop.dst.setWidth 5)) := by
  rw [allocated, renameEntry_tRobTail]
  cases s.allocates i <;> cases s.tUop.dstValid <;> rfl

theorem allocatedTwo_renameEntry (h : s.RenameInv) :
    s.allocatedTwo i renameEntry =
      renameIf (s.allocatesTwo i && s.tUop2.dstValid) (s.tUop2.dst.setWidth 5) s.nPrfEntry2
        s.oldEntry2 := by
  unfold allocatedTwo
  cases ha2 : s.allocatesTwo i with
  | false => rfl
  | true =>
    rw [if_pos rfl, renameEntry_tRobNextTail (tUop_isArch h (allocatesTwo_allocates ha2).1)
      (tUop2_isArch h ha2)]
    cases s.tUop2.dstValid <;> rfl

theorem retired_renameEntry :
    s.retired i renameEntry =
      renameIf (s.tFreeReg (s.comb i)) s.tRobHead.ldst s.tRobHead.pdst s.tRobHead.oldPdst := by
  rw [retired, tFreeReg, comb_tRetire]
  cases s.retires i <;> rfl

theorem retiredTwo_renameEntry :
    s.retiredTwo renameEntry =
      renameIf (s.tFreeRegTwo (s.comb i)) s.tRobNextHead.ldst s.tRobNextHead.pdst
        s.tRobNextHead.oldPdst := by
  rw [retiredTwo, tFreeRegTwo, comb_tRetire, comb_tRetireTwo]
  cases h2 : s.retiresTwo with
  | false =>
    rw [Bool.and_false]
    rfl
  | true =>
    rw [(retiresTwo_retires (i := i) h2).1]
    rfl

theorem renameLog_newEntries (h : s.RenameInv) :
    renameLog (s.newEntries i) =
      (renameIf (s.allocates i && s.tUop.dstValid) (s.tUop.dst.setWidth 5) s.nPrfEntry
        (s.allocRat (s.tUop.dst.setWidth 5))).toList ++
        (renameIf (s.allocatesTwo i && s.tUop2.dstValid) (s.tUop2.dst.setWidth 5) s.nPrfEntry2
          s.oldEntry2).toList := by
  rw [renameLog, filterMap_newEntries, allocated_renameEntry, allocatedTwo_renameEntry h]

/-- The registers that a cycle hands out are free, and each replaces what its number names. -/
theorem allocated_fresh (hg : BankNonempty s i) :
    ∀ e ∈ s.allocated i renameEntry, e.new ∈ freeSet s.prfFree ∧ e.old = s.allocRat e.dst := by
  intro e he
  rw [allocated_renameEntry, mem_renameIf, Bool.and_eq_true] at he
  obtain ⟨⟨ha, hd⟩, rfl⟩ := he
  exact ⟨nPrfEntry_mem (allocates_bank hg ha hd), rfl⟩

theorem allocatedTwo_fresh (h : s.RenameInv) (hg : BankNonempty s i) :
    ∀ e ∈ s.allocatedTwo i renameEntry,
      e.new ∈ take (s.allocated i renameEntry) (freeSet s.prfFree) ∧
        e.old = write (s.allocated i renameEntry) s.allocRat e.dst := by
  intro e he
  rw [allocatedTwo_renameEntry h, mem_renameIf, Bool.and_eq_true] at he
  obtain ⟨⟨ha2, hd2⟩, rfl⟩ := he
  have ha := (allocatesTwo_allocates ha2).1
  have hfull := allocatesTwo_bank ha2 hd2
  have hmem := nPrfEntry2_mem hfull
  rw [allocated_renameEntry, take_renameIf, write_renameIf, ha, Bool.true_and]
  refine ⟨?_, rfl⟩
  cases hd : s.tUop.dstValid with
  | false => exact hmem
  | true => exact ⟨hmem, nPrfEntry_ne (allocates_bank hg ha hd) hfull⟩

theorem nAllocRat_eq (h : s.RenameInv) :
    s.nAllocRat (s.comb i) =
      write (s.allocatedTwo i renameEntry) (write (s.allocated i renameEntry) s.allocRat) := by
  rw [allocatedTwo_renameEntry h, allocated_renameEntry, write_renameIf, write_renameIf, nAllocRat,
    comb_tAlloc, comb_tAllocTwo]

theorem nRetireRat_eq :
    s.nRetireRat (s.comb i) =
      write (s.retiredTwo renameEntry) (write (s.retired i renameEntry) s.retireRat) := by
  rw [retiredTwo_renameEntry (i := i), retired_renameEntry, write_renameIf, write_renameIf]
  rfl

theorem freeSet_nPrfFree (h : s.RenameInv) :
    freeSet (s.nPrfFree (s.comb i)) =
      give (s.retiredTwo renameEntry) (give (s.retired i renameEntry)
        (take (s.allocatedTwo i renameEntry) (take (s.allocated i renameEntry)
          (freeSet s.prfFree)))) := by
  rw [nPrfFree, freeSet_giveFree, freeSet_giveFree, freeSet_takeFree, freeSet_takeFree,
    retiredTwo_renameEntry (i := i), retired_renameEntry, allocatedTwo_renameEntry h,
    allocated_renameEntry, give_renameIf, give_renameIf, take_renameIf, take_renameIf, comb_tAlloc,
    comb_tAllocTwo]

theorem freeSet_nRetirePrfFree :
    freeSet (s.nRetirePrfFree (s.comb i)) =
      give (s.retiredTwo renameEntry) (take (s.retiredTwo renameEntry)
        (give (s.retired i renameEntry) (take (s.retired i renameEntry)
          (freeSet s.retirePrfFree)))) := by
  rw [nRetirePrfFree, freeSet_retireFree, freeSet_retireFree, retiredTwo_renameEntry (i := i),
    retired_renameEntry, give_renameIf, give_renameIf, take_renameIf, take_renameIf]
  cases s.tFreeRegTwo (s.comb i) <;> cases s.tFreeReg (s.comb i) <;> rfl

theorem reset_renameInv (rob : RobPtr → RobEntry) (dq : BitVec 2 → Uop) :
    (Core.reset rob dq).RenameInv := by
  have hw : (Core.reset rob dq).window = [] := by
    rw [window, show (Core.reset rob dq).robCount = 0 by simp [robCount, Core.reset]]
    rfl
  have hfree : ∀ r : ArchReg, (0xffffffff00000000#64).getLsbD (r.setWidth 6 : PrfPtr).toNat = false := by
    decide
  have hused : ∀ p : PrfPtr, (0xffffffff00000000#64).getLsbD p.toNat = true ↔
      ¬∃ r : ArchReg, r.setWidth 6 = p := by decide
  refine ⟨reset_pointers rob dq, by simp [reset_queue], ?_⟩
  rw [hw]
  refine ⟨rfl, trivial, ?_, List.nodup_nil, by simp [renameLog], ?_, by simp [renameLog], ?_⟩
  · intro a b hab
    have := congrArg BitVec.toNat hab
    simpa [Core.reset, Nat.mod_eq_of_lt (show a.toNat < 64 by omega),
      Nat.mod_eq_of_lt (show b.toNat < 64 by omega), BitVec.toNat_inj] using this
  · exact fun r hr => Bool.false_ne_true ((hfree r).symm.trans hr)
  · intro p
    exact hused p

/-- One guarded cycle keeps the renaming state coherent. -/
theorem step_renameInv (h : s.RenameInv) (hg : BankNonempty s i) : (s.step i).RenameInv := by
  refine ⟨step_pointers h.pointers hg.2,
    step_queue_forall decode_isArch h.pointers.toDqPointers h.queue_arch, ?_⟩
  have hr : (s.step i).retireRat = s.nRetireRat (s.comb i) := rfl
  have hrf : (s.step i).retirePrfFree = s.nRetirePrfFree (s.comb i) := rfl
  have ha : (s.step i).allocRat = if s.flushes then s.retireRat else s.nAllocRat (s.comb i) := by
    simp [step, clock]
  have hfree : (s.step i).prfFree =
      if s.flushes then s.retirePrfFree else s.nPrfFree (s.comb i) := by
    simp [step, clock]
  rw [hr, hrf, ha, hfree, nRetireRat_eq, nAllocRat_eq h, apply_ite freeSet, freeSet_nPrfFree h,
    freeSet_nRetirePrfFree]
  exact step_renames stable_renameEntry h.pointers hg.2 h.coherent (allocated_fresh hg)
    (allocatedTwo_fresh h hg)

/-! ## Every run -/

/-- What the free list owes rename: registers handed out are free, the map is injective, and no
register in use is free. -/
structure FreeListIntegrity (s : Core) (i : CoreIn) : Prop where
  entry_free : (s.comb i).tAlloc = true → s.tUop.dstValid = true →
    s.prfFree.getLsbD s.nPrfEntry.toNat = true
  entry2_free : (s.comb i).tAllocTwo = true → s.tUop2.dstValid = true →
    s.prfFree.getLsbD s.nPrfEntry2.toNat = true
  allocRat_injective : Function.Injective s.allocRat
  allocRat_used : ∀ r, s.prfFree.getLsbD (s.allocRat r).toNat = false
  retireRat_used : ∀ r, s.prfFree.getLsbD (s.retireRat r).toNat = false
  rob_used : ∀ e ∈ s.window, e.validDst = true → s.prfFree.getLsbD e.pdst.toNat = false

theorem RenameInv.integrity (h : s.RenameInv) (hg : BankNonempty s i) : s.FreeListIntegrity i where
  entry_free ha hd := nPrfEntry_mem (allocates_bank hg (by simpa using ha) hd)
  entry2_free ha hd := nPrfEntry2_mem (allocatesTwo_bank (i := i) (by simpa using ha) hd)
  allocRat_injective := h.coherent.alloc_injective
  allocRat_used r := notMem_members (h.coherent.alloc_notMem r)
  retireRat_used r := notMem_members (h.coherent.retire_notMem r)
  rob_used e he hd := by
    have hmem : ⟨e.ldst, e.pdst, e.oldPdst⟩ ∈ renameLog s.window :=
      List.mem_filterMap.mpr ⟨e, he, by simp [renameEntry, hd]⟩
    exact notMem_members (h.coherent.new_notMem _ hmem)

/-- The free list keeps its integrity in every run from reset that never serializes into an
empty bank. -/
theorem run_freeListIntegrity (rob : RobPtr → RobEntry) (dq : BitVec 2 → Uop) (inputs : List CoreIn)
    (i : CoreIn) (h : Guarded step BankNonempty (Core.reset rob dq) (inputs ++ [i])) :
    (run step (Core.reset rob dq) inputs).FreeListIntegrity i := by
  obtain ⟨h1, h2⟩ := guarded_append.mp h
  exact (h1.invariant (fun _ _ hs hg => step_renameInv hs hg) (reset_renameInv rob dq)).integrity h2.1

/-! ## A serializing allocation from an empty bank -/

/-- `addiu r, $0, 0` at any pc. -/
def moviInsn (r : BitVec 5) : InsnFetch := { data := 0b00100100000#11 ++ r ++ 0#16 }
/-- `mfc0 $2, $0` -/
def mfc0Insn : InsnFetch := { data := 0x40020000#32 }
def nopInsn : InsnFetch := {}

/-- Cycle `k` of a stream that gives every odd register a register of the even bank: the move
leads its pair in even cycles and follows a NOP in odd ones, and completes two cycles later. -/
def evenBankCycle (k : ℕ) : CoreIn :=
  { insnValid := true
    insnValidTwo := true
    insn := if k % 2 = 0 then moviInsn (BitVec.ofNat 5 (2 * k + 1)) else nopInsn
    insnTwo := if k % 2 = 1 then moviInsn (BitVec.ofNat 5 (2 * k + 1)) else nopInsn
    completeValid1 := 2 ≤ k
    completeBundle1 := { robPtr := BitVec.ofNat 5 (2 * (k - 2) + k % 2), complete := true } }

/-- Resume, `n` pairs, an MFC0, and its wait for the reorder buffer to drain. -/
def evenBankRun (n : ℕ) : List CoreIn :=
  [{ resume := true }, { restartAck := true }] ++ (List.range n).map evenBankCycle ++
    [{ evenBankCycle n with insn := mfc0Insn, insnValidTwo := false }, {},
      { evenBankCycle (n + 1) with insnValid := false }, {}, {}]

theorem run_freeListIntegrity_mfc0 :
    (run step (Core.reset (fun _ => {}) fun _ => {}) (evenBankRun 2)).FreeListIntegrity {} :=
  run_freeListIntegrity _ _ _ _ (by rw [step_eq_stepEval]; decide +kernel)

/-- After sixteen moves the even bank is empty and the MFC0 is handed register 0, which `$0`
still uses. -/
theorem exists_not_freeListIntegrity :
    ¬∀ (rob : RobPtr → RobEntry) (dq : BitVec 2 → Uop) (inputs : List CoreIn) (i : CoreIn),
      (run step (Core.reset rob dq) inputs).FreeListIntegrity i := by
  intro h
  have hs := h (fun _ => {}) (fun _ => {}) (evenBankRun 16) {}
  have hbad : ∀ s : Core, s.FreeListIntegrity {} →
      ((s.comb {}).tAlloc && s.tUop.dstValid && !s.prfFree.getLsbD s.nPrfEntry.toNat) = false := by
    intro s hs
    have := hs.entry_free
    cases h1 : (s.comb {}).tAlloc <;> cases h2 : s.tUop.dstValid <;> simp_all
  refine Bool.false_ne_true ((hbad _ hs).symm.trans ?_)
  rw [step_eq_stepEval]
  decide +kernel

end Core
end MipsCore
