import MipsCore.Core.AllocPair

/-! # Integrity of the HI/LO, FCR and FP free lists

Three more classes of registers share the entries of the reorder buffer with the
integer registers.  HI/LO and FCR destinations go through the first slot only, FP
destinations through both, and a serializing uop has none of the three.
-/
namespace MipsCore
namespace Core
open BitMask Rename Clocked
variable {s : Core} {i : CoreIn}

/-! ## Views of an entry -/

/-- The renames of an entry in the three classes. -/
def hiloEntry (e : RobEntry) : Option (Entry Unit HiloPtr) :=
  renameIf (!e.validDst && e.validHiloDst) () (e.pdst.setWidth 2) (e.oldPdst.setWidth 2)
def fcrEntry (e : RobEntry) : Option (Entry Unit HiloPtr) :=
  renameIf (!e.validDst && !e.validHiloDst && e.validFcrDst) () (e.pdst.setWidth 2)
    (e.oldPdst.setWidth 2)
def fpEntry (e : RobEntry) : Option (Entry ArchReg PrfPtr) :=
  renameIf (!e.validDst && !e.validHiloDst && !e.validFcrDst && e.validFpDst) e.ldst e.pdst e.oldPdst

theorem stable_hiloEntry : Stable hiloEntry := ⟨fun _ _ => rfl, fun _ _ => rfl⟩
theorem stable_fcrEntry : Stable fcrEntry := ⟨fun _ _ => rfl, fun _ _ => rfl⟩
theorem stable_fpEntry : Stable fpEntry := ⟨fun _ _ => rfl, fun _ _ => rfl⟩

/-- An entry names a register of at most one class. -/
def SingleClass (e : RobEntry) : Prop :=
  (e.validHiloDst = true → e.validDst = false) ∧
    (e.validFcrDst = true → e.validDst = false ∧ e.validHiloDst = false) ∧
      (e.validFpDst = true → e.validDst = false ∧ e.validHiloDst = false ∧ e.validFcrDst = false)

theorem stable_singleClass : Stable SingleClass := ⟨fun _ _ => rfl, fun _ _ => rfl⟩

theorem singleClass_foldEntry {b : Bool} {op : Opcode} {e : RobEntry} (h : SingleClass e) :
    SingleClass (foldEntry b op e) := by
  unfold foldEntry
  split_ifs <;> exact h

theorem singleClass_tRobTail : SingleClass s.tRobTail := by
  apply singleClass_foldEntry
  unfold destEntry SingleClass
  split_ifs <;> simp [baseEntry]

theorem singleClass_tRobNextTail : SingleClass s.tRobNextTail := by
  apply singleClass_foldEntry
  unfold destEntry2 SingleClass
  split_ifs <;> simp [baseEntry]

/-- What every new entry meets holds of the un-retired entries. -/
theorem step_window_forall {P : RobEntry → Prop} (hP : Stable P) (hp : s.Pointers)
    (hm : s.MonitorAllocated i) (hw : ∀ e ∈ s.window, P e) (h1 : P s.tRobTail)
    (h2 : P s.tRobNextTail) : ∀ e ∈ (s.step i).window, P e := by
  intro e he
  cases hf : s.flushes with
  | true =>
    rw [(step_flush hf).2.2.2] at he
    cases he
  | false =>
    have hmem := List.mem_map_of_mem (f := P) he
    rw [step_window_map hP hp hm hf] at hmem
    obtain ⟨x, hx, hPx⟩ := List.mem_map.mp (List.mem_of_mem_drop hmem)
    rw [← hPx]
    rcases List.mem_append.mp hx with hx | hx
    · exact hw x hx
    · unfold newEntries at hx
      split_ifs at hx <;> simp only [List.mem_cons, List.not_mem_nil, or_false] at hx
      · rcases hx with rfl | rfl
        · exact h1
        · exact h2
      · exact hx ▸ h1

/-! ## Serializing uops -/

/-- The states between a serializing uop's arrival at the head and its allocation. -/
def serialPending : CoreFsm → Bool
  | .ALLOC_FOR_SERIALIZE | .MONITOR_FLUSH_CACHE | .HANDLE_MONITOR | .ALLOC_FOR_MONITOR => true
  | _ => false

/-- The serializing uop waits at the head of the decode queue. -/
def SerialHead (s : Core) : Prop :=
  serialPending s.state = true → ∃ u rest, s.queue = u :: rest ∧ u.serializingOp = true

/-- A cycle that neither allocates nor clears keeps the head. -/
theorem step_queue_head (hp : s.DqPointers) (ha : s.allocates i = false)
    (hc : s.clearsQueue i = false) {u : Uop} {rest : List Uop} (hq : s.queue = u :: rest) :
    ∃ rest', (s.step i).queue = u :: rest' := by
  refine ⟨rest ++ newUops s i, ?_⟩
  rw [step_queue hp hc, allocCount, ha, hq]
  rfl

theorem faultState_not_pending : serialPending (s.faultState i) = false := by
  unfold faultState
  split_ifs <;> rfl

theorem step_serialHead (hp : s.DqPointers) (h : s.SerialHead) : (s.step i).SerialHead := by
  intro hs
  rw [step_state] at hs
  have hkeep : s.allocates i = false → s.clearsQueue i = false →
      (∃ u rest, s.queue = u :: rest ∧ u.serializingOp = true) →
        ∃ u rest, (s.step i).queue = u :: rest ∧ u.serializingOp = true := by
    rintro ha hc ⟨u, rest, hq, hu⟩
    obtain ⟨rest', hq'⟩ := step_queue_head hp ha hc hq
    exact ⟨u, rest', hq', hu⟩
  cases hst : s.state with
  | ACTIVE =>
    have hclr : s.clearsQueue i = false := by simp [clearsQueue, hst]
    simp only [nextState, hst, activeState] at hs
    split_ifs at hs with h1 h2 h3 h4
    · cases hs
    · rw [faultState_not_pending] at hs
      cases hs
    · cases hs
    · simp only [Bool.and_eq_true, Bool.not_eq_true'] at h4
      obtain ⟨⟨hne, hser⟩, -⟩ := h4
      obtain ⟨rest, hq⟩ := queue_cons hne
      refine hkeep ?_ hclr ⟨_, rest, hq, hser⟩
      simp [allocates, hst, offersAlloc, hser]
    · cases hs
  | ALLOC_FOR_SERIALIZE =>
    simp only [nextState, hst] at hs
    split_ifs at hs with hc
    · cases hs
    · exact hkeep (by simpa [allocates, hst] using hc) (by simp [clearsQueue, hst])
        (h (by rw [hst]; rfl))
  | MONITOR_FLUSH_CACHE =>
    exact hkeep (by simp [allocates, hst]) (by simp [clearsQueue, hst]) (h (by rw [hst]; rfl))
  | HANDLE_MONITOR =>
    exact hkeep (by simp [allocates, hst]) (by simp [clearsQueue, hst]) (h (by rw [hst]; rfl))
  | _ =>
    simp only [nextState, hst] at hs
    first
    | cases hs
    | (split_ifs at hs <;> cases hs)

/-! ## The small free lists -/

def freeHilo (m : BitVec 4) : Set HiloPtr := members m

theorem freeHilo_takeFree (b : Bool) (p : HiloPtr) (m : BitVec 4) :
    freeHilo (takeFree b p.toNat m) = if b then freeHilo m \ {p} else freeHilo m :=
  members_takeFree (by decide) b p m
theorem freeHilo_giveFree (b : Bool) (p : HiloPtr) (m : BitVec 4) :
    freeHilo (giveFree b p.toNat m) = if b then insert p (freeHilo m) else freeHilo m :=
  members_giveFree (by decide) b p m
theorem freeHilo_retireFree (b : Bool) (p q : HiloPtr) (m : BitVec 4) :
    freeHilo (retireFree b p.toNat q.toNat m) =
      if b then insert q (freeHilo m \ {p}) else freeHilo m :=
  members_retireFree (by decide) b p q m

/-- The scanner's answer over a nonempty list of four. -/
theorem findFirstSet_hilo {m : BitVec 4} (h : m ≠ 0) :
    ((findFirstSet 0 m).setWidth 2 : HiloPtr) ∈ freeHilo m := by
  obtain ⟨hlt, hbit, -⟩ := findFirstSet_spec 0 m h
  have hn : ((findFirstSet 0 m).setWidth 2 : HiloPtr).toNat = (findFirstSet 0 m).toNat := by
    rw [BitVec.toNat_setWidth]
    exact Nat.mod_eq_of_lt hlt
  change m.getLsbD ((findFirstSet 0 m).setWidth 2 : HiloPtr).toNat = true
  rw [hn]
  exact hbit

/-! ## The invariant -/

/-- What rename, allocation and retirement keep of the three classes. -/
structure ClassInv (s : Core) : Prop where
  pointers : s.Pointers
  decoded : s.Decoded
  serial : s.SerialHead
  single : ∀ e ∈ s.window, SingleClass e
  hilo : Coherent (fun _ => s.hiloRetireRat) (fun _ => s.hiloAllocRat) (s.window.filterMap hiloEntry)
    (freeHilo s.hiloPrfFree) (freeHilo s.retireHiloPrfFree)
  fcr : Coherent (fun _ => s.fcrRetireRat) (fun _ => s.fcrAllocRat) (s.window.filterMap fcrEntry)
    (freeHilo s.fcrPrfFree) (freeHilo s.retireFcrPrfFree)
  fp : Coherent s.fpRetireRat s.fpAllocRat (s.window.filterMap fpEntry) (freeSet s.fpPrfFree)
    (freeSet s.retireFpPrfFree)

theorem reset_classInv (rob : RobPtr → RobEntry) (dq : BitVec 2 → Uop) :
    (Core.reset rob dq).ClassInv := by
  have hw : (Core.reset rob dq).window = [] := by
    rw [window, show (Core.reset rob dq).robCount = 0 by simp [robCount, Core.reset]]
    rfl
  have hsmall : Coherent (fun _ : Unit => (0 : HiloPtr)) (fun _ => 0) [] (freeHilo 0xe#4)
      (freeHilo 0xe#4) := by
    refine ⟨rfl, trivial, fun _ _ _ => rfl, List.nodup_nil, by simp, ?_, by simp, ?_⟩
    · intro _ h
      exact absurd (show (0xe#4).getLsbD 0 = true from h) (by decide)
    · have hall : ∀ p : HiloPtr, (0xe#4).getLsbD p.toNat = true ↔ p ≠ 0 := by decide
      intro p
      rw [Set.range_const, Set.mem_singleton_iff]
      exact hall p
  refine ⟨reset_pointers rob dq, reset_decoded rob dq, fun hs => ?_, by simp [hw], ?_, ?_, ?_⟩
  · cases hs
  · rw [hw]
    exact hsmall
  · rw [hw]
    exact hsmall
  · -- the FP maps and free lists start as the integer ones do
    have hi := (reset_renameInv rob dq).coherent
    rw [hw] at hi ⊢
    exact hi

/-! ## Allocation -/

/-- A destination of the three classes is allocated from a list that is not empty. -/
theorem allocates_enough (h : s.ClassInv) (ha : s.allocates i = true) :
    OneDest s.tUop ∧ (s.tUop.hiloDstValid = true → s.hiloPrfFree ≠ 0) ∧
      (s.tUop.fcrDstValid = true → s.fcrPrfFree ≠ 0) ∧
        (s.tUop.fpDstValid = true → s.tFpFfsFull = false) := by
  have hone := h.decoded.queue_oneDest _ (tUop_mem ha)
  refine ⟨hone, ?_⟩
  have hserial : serialPending s.state = true →
      s.tUop.hiloDstValid = false ∧ s.tUop.fcrDstValid = false ∧ s.tUop.fpDstValid = false := by
    intro hs
    obtain ⟨u, rest, hq, hu⟩ := h.serial hs
    obtain ⟨rest', hq'⟩ := queue_cons (allocates_room ha).2
    rw [hq'] at hq
    exact hone.serial ((List.cons.inj hq).1 ▸ hu)
  cases hs : s.state with
  | ACTIVE =>
    simp only [allocates, hs, canAlloc, tEnoughHlprfs, tEnoughFprfs, tEnoughFcrprfs, Bool.and_eq_true,
      Bool.not_eq_true', Bool.and_eq_false_imp, beq_eq_false_iff_ne] at ha
    exact ⟨ha.2.1.1.2, ha.2.2, ha.2.1.2⟩
  | ALLOC_FOR_SERIALIZE =>
    obtain ⟨h1, h2, h3⟩ := hserial (by rw [hs]; rfl)
    simp [h1, h2, h3]
  | ALLOC_FOR_MONITOR =>
    obtain ⟨h1, h2, h3⟩ := hserial (by rw [hs]; rfl)
    simp [h1, h2, h3]
  | _ => simp [allocates, hs] at ha

theorem hiloEntry_foldEntry (b : Bool) (op : Opcode) (e : RobEntry) :
    hiloEntry (foldEntry b op e) = hiloEntry e := by
  unfold foldEntry
  split_ifs <;> rfl
theorem fcrEntry_foldEntry (b : Bool) (op : Opcode) (e : RobEntry) :
    fcrEntry (foldEntry b op e) = fcrEntry e := by
  unfold foldEntry
  split_ifs <;> rfl
theorem fpEntry_foldEntry (b : Bool) (op : Opcode) (e : RobEntry) :
    fpEntry (foldEntry b op e) = fpEntry e := by
  unfold foldEntry
  split_ifs <;> rfl

theorem allocated_hiloEntry :
    s.allocated i hiloEntry =
      renameIf (s.allocates i && hiloDst s.tUop) () s.nHiloPrfEntry s.hiloAllocRat := by
  rw [allocated, tRobTail, hiloEntry_foldEntry]
  unfold destEntry hiloEntry hiloDst
  cases s.allocates i <;> cases s.tUop.dstValid <;> cases s.tUop.hiloDstValid <;>
    cases s.tUop.fcrDstValid <;> cases s.tUop.fpDstValid <;> simp [renameIf, baseEntry]

theorem allocated_fcrEntry :
    s.allocated i fcrEntry =
      renameIf (s.allocates i && fcrDst s.tUop) () s.nFcrPrfEntry s.fcrAllocRat := by
  rw [allocated, tRobTail, fcrEntry_foldEntry]
  unfold destEntry fcrEntry fcrDst
  cases s.allocates i <;> cases s.tUop.dstValid <;> cases s.tUop.hiloDstValid <;>
    cases s.tUop.fcrDstValid <;> cases s.tUop.fpDstValid <;> simp [renameIf, baseEntry]

theorem allocated_fpEntry :
    s.allocated i fpEntry =
      renameIf (s.allocates i && fpDst s.tUop) (s.tUop.dst.setWidth 5) s.nFpPrfEntry
        (s.fpAllocRat (s.tUop.dst.setWidth 5)) := by
  rw [allocated, tRobTail, fpEntry_foldEntry]
  unfold destEntry fpEntry fpDst
  cases s.allocates i <;> cases s.tUop.dstValid <;> cases s.tUop.hiloDstValid <;>
    cases s.tUop.fcrDstValid <;> cases s.tUop.fpDstValid <;> simp [renameIf, baseEntry]

/-- The second slot has no HI/LO and no FCR destination. -/
theorem allocatedTwo_hiloEntry : s.allocatedTwo i hiloEntry = none := by
  rw [allocatedTwo, tRobNextTail, hiloEntry_foldEntry]
  unfold destEntry2 hiloEntry
  split_ifs <;> simp [renameIf, baseEntry]

theorem allocatedTwo_fcrEntry : s.allocatedTwo i fcrEntry = none := by
  rw [allocatedTwo, tRobNextTail, fcrEntry_foldEntry]
  unfold destEntry2 fcrEntry
  split_ifs <;> simp [renameIf, baseEntry]

theorem allocatedTwo_fpEntry (h : s.ClassInv) :
    s.allocatedTwo i fpEntry =
      renameIf (s.allocatesTwo i && fpDst s.tUop2) (s.tUop2.dst.setWidth 5) s.nFpPrfEntry2
        (write (s.allocated i fpEntry) s.fpAllocRat (s.tUop2.dst.setWidth 5)) := by
  unfold allocatedTwo
  cases ha2 : s.allocatesTwo i with
  | false => rfl
  | true =>
    have hs := h.decoded.secondSlot ha2
    have hold := oldPdst_fp_eq hs.oneDest hs.arch hs.arch2
    rw [allocOne_fpAllocRat] at hold
    rw [if_pos rfl, allocated_fpEntry, write_renameIf, (allocatesTwo_allocates ha2).1, Bool.true_and,
      Bool.true_and, ← hold, tRobNextTail, fpEntry_foldEntry]
    unfold destEntry2 fpEntry fpDst
    rw [hs.noHilo, hs.noFcr]
    cases s.tUop2.dstValid <;> cases s.tUop2.fpDstValid <;> simp [renameIf, baseEntry]

/-! ## Registers handed out -/

theorem hilo_fresh (h : s.ClassInv) :
    ∀ e ∈ s.allocated i hiloEntry, e.new ∈ freeHilo s.hiloPrfFree ∧ e.old = s.hiloAllocRat := by
  intro e he
  rw [allocated_hiloEntry, mem_renameIf, Bool.and_eq_true] at he
  obtain ⟨⟨ha, hd⟩, rfl⟩ := he
  obtain ⟨hone, hh, -, -⟩ := allocates_enough h ha
  rw [hiloDst_eq hone] at hd
  exact ⟨findFirstSet_hilo (hh hd), rfl⟩

theorem fcr_fresh (h : s.ClassInv) :
    ∀ e ∈ s.allocated i fcrEntry, e.new ∈ freeHilo s.fcrPrfFree ∧ e.old = s.fcrAllocRat := by
  intro e he
  rw [allocated_fcrEntry, mem_renameIf, Bool.and_eq_true] at he
  obtain ⟨⟨ha, hd⟩, rfl⟩ := he
  obtain ⟨hone, -, hc, -⟩ := allocates_enough h ha
  rw [fcrDst_eq hone] at hd
  exact ⟨findFirstSet_hilo (hc hd), rfl⟩

theorem fp_fresh (h : s.ClassInv) :
    ∀ e ∈ s.allocated i fpEntry, e.new ∈ freeSet s.fpPrfFree ∧ e.old = s.fpAllocRat e.dst := by
  intro e he
  rw [allocated_fpEntry, mem_renameIf, Bool.and_eq_true] at he
  obtain ⟨⟨ha, hd⟩, rfl⟩ := he
  obtain ⟨hone, -, -, hf⟩ := allocates_enough h ha
  rw [fpDst_eq hone] at hd
  exact ⟨mem_of_bank (nFpPrfEntry_bank (hf hd)), rfl⟩

theorem allocatesTwo_fp (h : s.allocatesTwo i = true) (hd : s.tUop2.fpDstValid = true) :
    s.tFpFfs2Full = false := by
  simp only [allocatesTwo, canAllocTwo, tEnoughNextFprfs, hd, Bool.true_and, Bool.and_eq_true,
    Bool.not_eq_true'] at h
  exact h.2.1.2

theorem fpTwo_fresh (h : s.ClassInv) :
    ∀ e ∈ s.allocatedTwo i fpEntry,
      e.new ∈ take (s.allocated i fpEntry) (freeSet s.fpPrfFree) ∧
        e.old = write (s.allocated i fpEntry) s.fpAllocRat e.dst := by
  intro e he
  rw [allocatedTwo_fpEntry h, mem_renameIf, Bool.and_eq_true] at he
  obtain ⟨⟨ha2, hd2⟩, rfl⟩ := he
  have ha := (allocatesTwo_allocates ha2).1
  have hs := h.decoded.secondSlot ha2
  rw [fpDst_eq hs.oneDest2] at hd2
  have hb2 := nFpPrfEntry2_bank (allocatesTwo_fp ha2 hd2)
  refine ⟨?_, rfl⟩
  rw [allocated_fpEntry, take_renameIf, ha, Bool.true_and, fpDst_eq hs.oneDest]
  cases hd : s.tUop.fpDstValid with
  | false => exact mem_of_bank2 hb2
  | true => exact ⟨mem_of_bank2 hb2, ne_of_banks (nFpPrfEntry_bank (hs.fp hd)) hb2⟩

/-! ## Retirement -/

theorem retired_hiloEntry :
    s.retired i hiloEntry =
      renameIf (s.tFreeHilo (s.comb i)) () (s.tRobHead.pdst.setWidth 2)
        (s.tRobHead.oldPdst.setWidth 2) := by
  rw [retired, tFreeHilo, comb_tRetire]
  cases s.retires i <;> rfl

theorem retired_fcrEntry :
    s.retired i fcrEntry =
      renameIf (s.tFreeFcr (s.comb i)) () (s.tRobHead.pdst.setWidth 2)
        (s.tRobHead.oldPdst.setWidth 2) := by
  rw [retired, tFreeFcr, comb_tRetire]
  cases s.retires i <;> rfl

theorem retired_fpEntry :
    s.retired i fpEntry =
      renameIf (s.tFreeFpReg (s.comb i)) s.tRobHead.ldst s.tRobHead.pdst s.tRobHead.oldPdst := by
  rw [retired, tFreeFpReg, comb_tRetire]
  cases s.retires i <;> rfl

/-- The second slot retires no HI/LO and no FCR destination. -/
theorem retiredTwo_hiloEntry : s.retiredTwo hiloEntry = none := by
  unfold retiredTwo hiloEntry
  split_ifs with h2
  · simp [(retiresTwo_guards h2).1, renameIf]
  · rfl

theorem retiredTwo_fcrEntry : s.retiredTwo fcrEntry = none := by
  unfold retiredTwo fcrEntry
  split_ifs with h2
  · simp [(retiresTwo_guards h2).2, renameIf]
  · rfl

theorem retiredTwo_fpEntry (h : s.ClassInv) :
    s.retiredTwo fpEntry =
      renameIf (s.tFreeFpRegTwo (s.comb i)) s.tRobNextHead.ldst s.tRobNextHead.pdst
        s.tRobNextHead.oldPdst := by
  rw [retiredTwo, tFreeFpRegTwo, comb_tRetire, comb_tRetireTwo]
  cases h2 : s.retiresTwo with
  | false =>
    rw [Bool.and_false]
    rfl
  | true =>
    obtain ⟨h1, -, hne, hnn⟩ := retiresTwo_retires (i := i) h2
    obtain ⟨rest, hw⟩ := window_cons_cons h.pointers hne hnn
    have hsingle := h.single s.tRobNextHead (by simp [hw])
    rw [h1, if_pos rfl, fpEntry]
    cases hf : s.tRobNextHead.validFpDst with
    | false => simp [renameIf]
    | true =>
      obtain ⟨g1, g2, g3⟩ := hsingle.2.2 hf
      simp [g1, g2, g3]

/-! ## The registers after a cycle -/

section Next
variable (s i)

/-- A map with a single name. -/
theorem write_unit (o : Option (Entry Unit HiloPtr)) (p : HiloPtr) :
    write o (fun _ => p) = fun _ => o.elim p Entry.new := by
  cases o with
  | none => rfl
  | some e =>
    funext a
    simp [write]

theorem nHiloAllocRat_eq :
    (fun _ => s.nHiloAllocRat (s.comb i)) = write (s.allocated i hiloEntry) fun _ => s.hiloAllocRat := by
  rw [write_unit, allocated_hiloEntry, nHiloAllocRat, comb_tAlloc]
  cases s.allocates i && hiloDst s.tUop <;> rfl
theorem nFcrAllocRat_eq :
    (fun _ => s.nFcrAllocRat (s.comb i)) = write (s.allocated i fcrEntry) fun _ => s.fcrAllocRat := by
  rw [write_unit, allocated_fcrEntry, nFcrAllocRat, comb_tAlloc]
  cases s.allocates i && fcrDst s.tUop <;> rfl
theorem nHiloRetireRat_eq :
    (fun _ => s.nHiloRetireRat (s.comb i)) =
      write (s.retired i hiloEntry) fun _ => s.hiloRetireRat := by
  rw [write_unit, retired_hiloEntry, nHiloRetireRat]
  cases s.tFreeHilo (s.comb i) <;> rfl
theorem nFcrRetireRat_eq :
    (fun _ => s.nFcrRetireRat (s.comb i)) = write (s.retired i fcrEntry) fun _ => s.fcrRetireRat := by
  rw [write_unit, retired_fcrEntry, nFcrRetireRat]
  cases s.tFreeFcr (s.comb i) <;> rfl

theorem freeHilo_nRetireHiloPrfFree :
    freeHilo (s.nRetireHiloPrfFree (s.comb i)) =
      give (s.retired i hiloEntry) (take (s.retired i hiloEntry) (freeHilo s.retireHiloPrfFree)) := by
  rw [nRetireHiloPrfFree, freeHilo_retireFree, retired_hiloEntry, give_renameIf, take_renameIf]
  cases s.tFreeHilo (s.comb i) <;> rfl
theorem freeHilo_nRetireFcrPrfFree :
    freeHilo (s.nRetireFcrPrfFree (s.comb i)) =
      give (s.retired i fcrEntry) (take (s.retired i fcrEntry) (freeHilo s.retireFcrPrfFree)) := by
  rw [nRetireFcrPrfFree, freeHilo_retireFree, retired_fcrEntry, give_renameIf, take_renameIf]
  cases s.tFreeFcr (s.comb i) <;> rfl

end Next

/-- The class flags of an allocated uop are its destination flags. -/
theorem allocates_dst (h : s.ClassInv) :
    (s.allocates i && hiloDst s.tUop) = (s.allocates i && s.tUop.hiloDstValid) ∧
      (s.allocates i && fcrDst s.tUop) = (s.allocates i && s.tUop.fcrDstValid) ∧
        (s.allocates i && fpDst s.tUop) = (s.allocates i && s.tUop.fpDstValid) ∧
          (s.allocatesTwo i && fpDst s.tUop2) = (s.allocatesTwo i && s.tUop2.fpDstValid) := by
  refine ⟨?_, ?_, ?_, ?_⟩
  · cases ha : s.allocates i with
    | false => rfl
    | true => rw [hiloDst_eq (allocates_enough h ha).1]
  · cases ha : s.allocates i with
    | false => rfl
    | true => rw [fcrDst_eq (allocates_enough h ha).1]
  · cases ha : s.allocates i with
    | false => rfl
    | true => rw [fpDst_eq (allocates_enough h ha).1]
  · cases ha : s.allocatesTwo i with
    | false => rfl
    | true => rw [fpDst_eq (h.decoded.secondSlot ha).oneDest2]

theorem freeHilo_nHiloPrfFree (h : s.ClassInv) :
    freeHilo (s.nHiloPrfFree (s.comb i)) =
      give (s.retired i hiloEntry) (take (s.allocated i hiloEntry) (freeHilo s.hiloPrfFree)) := by
  rw [nHiloPrfFree, freeHilo_giveFree, freeHilo_takeFree, retired_hiloEntry, allocated_hiloEntry,
    give_renameIf, take_renameIf, (allocates_dst h).1, comb_tAlloc]

theorem freeHilo_nFcrPrfFree (h : s.ClassInv) :
    freeHilo (s.nFcrPrfFree (s.comb i)) =
      give (s.retired i fcrEntry) (take (s.allocated i fcrEntry) (freeHilo s.fcrPrfFree)) := by
  rw [nFcrPrfFree, freeHilo_giveFree, freeHilo_takeFree, retired_fcrEntry, allocated_fcrEntry,
    give_renameIf, take_renameIf, (allocates_dst h).2.1, comb_tAlloc]

theorem freeSet_nFpPrfFree (h : s.ClassInv) :
    freeSet (s.nFpPrfFree (s.comb i)) =
      give (s.retiredTwo fpEntry) (give (s.retired i fpEntry)
        (take (s.allocatedTwo i fpEntry) (take (s.allocated i fpEntry) (freeSet s.fpPrfFree)))) := by
  obtain ⟨-, -, h1, h2⟩ := allocates_dst (i := i) h
  rw [nFpPrfFree, freeSet_giveFree, freeSet_giveFree, freeSet_takeFree, freeSet_takeFree,
    retiredTwo_fpEntry (i := i) h, retired_fpEntry, allocatedTwo_fpEntry h, allocated_fpEntry,
    give_renameIf, give_renameIf, take_renameIf, take_renameIf, h1, h2, comb_tAlloc, comb_tAllocTwo]

theorem freeSet_nRetireFpPrfFree (h : s.ClassInv) :
    freeSet (s.nRetireFpPrfFree (s.comb i)) =
      give (s.retiredTwo fpEntry) (take (s.retiredTwo fpEntry)
        (give (s.retired i fpEntry) (take (s.retired i fpEntry) (freeSet s.retireFpPrfFree)))) := by
  rw [nRetireFpPrfFree, freeSet_retireFree, freeSet_retireFree, retiredTwo_fpEntry (i := i) h,
    retired_fpEntry, give_renameIf, give_renameIf, take_renameIf, take_renameIf]
  cases s.tFreeFpRegTwo (s.comb i) <;> cases s.tFreeFpReg (s.comb i) <;> rfl

theorem nFpAllocRat_eq (h : s.ClassInv) :
    s.nFpAllocRat (s.comb i) =
      write (s.allocatedTwo i fpEntry) (write (s.allocated i fpEntry) s.fpAllocRat) := by
  rw [allocatedTwo_fpEntry h, allocated_fpEntry, write_renameIf, write_renameIf, nFpAllocRat,
    comb_tAlloc, comb_tAllocTwo]

theorem nFpRetireRat_eq (h : s.ClassInv) :
    s.nFpRetireRat (s.comb i) =
      write (s.retiredTwo fpEntry) (write (s.retired i fpEntry) s.fpRetireRat) := by
  rw [retiredTwo_fpEntry (i := i) h, retired_fpEntry, write_renameIf, write_renameIf]
  rfl

/-! ## One cycle -/

theorem step_hilo (h : s.ClassInv) (hm : s.MonitorAllocated i) :
    Coherent (fun _ => (s.step i).hiloRetireRat) (fun _ => (s.step i).hiloAllocRat)
      ((s.step i).window.filterMap hiloEntry) (freeHilo (s.step i).hiloPrfFree)
      (freeHilo (s.step i).retireHiloPrfFree) := by
  have hr : (s.step i).hiloRetireRat = s.nHiloRetireRat (s.comb i) := rfl
  have hrf : (s.step i).retireHiloPrfFree = s.nRetireHiloPrfFree (s.comb i) := rfl
  have ha : (fun _ : Unit => (s.step i).hiloAllocRat) =
      if s.flushes then fun _ => s.hiloRetireRat else fun _ => s.nHiloAllocRat (s.comb i) := by
    cases hf : s.flushes <;> simp [step, clock, hf]
  have hfree : (s.step i).hiloPrfFree =
      if s.flushes then s.retireHiloPrfFree else s.nHiloPrfFree (s.comb i) := by
    simp [step, clock]
  have hc := step_renames stable_hiloEntry h.pointers hm h.hilo (hilo_fresh h)
    (by simp [allocatedTwo_hiloEntry])
  rw [allocatedTwo_hiloEntry, retiredTwo_hiloEntry] at hc
  rw [hr, hrf, ha, hfree, nHiloRetireRat_eq, nHiloAllocRat_eq, apply_ite freeHilo,
    freeHilo_nHiloPrfFree h, freeHilo_nRetireHiloPrfFree]
  exact hc

theorem step_fcr (h : s.ClassInv) (hm : s.MonitorAllocated i) :
    Coherent (fun _ => (s.step i).fcrRetireRat) (fun _ => (s.step i).fcrAllocRat)
      ((s.step i).window.filterMap fcrEntry) (freeHilo (s.step i).fcrPrfFree)
      (freeHilo (s.step i).retireFcrPrfFree) := by
  have hr : (s.step i).fcrRetireRat = s.nFcrRetireRat (s.comb i) := rfl
  have hrf : (s.step i).retireFcrPrfFree = s.nRetireFcrPrfFree (s.comb i) := rfl
  have ha : (fun _ : Unit => (s.step i).fcrAllocRat) =
      if s.flushes then fun _ => s.fcrRetireRat else fun _ => s.nFcrAllocRat (s.comb i) := by
    cases hf : s.flushes <;> simp [step, clock, hf]
  have hfree : (s.step i).fcrPrfFree =
      if s.flushes then s.retireFcrPrfFree else s.nFcrPrfFree (s.comb i) := by
    simp [step, clock]
  have hc := step_renames stable_fcrEntry h.pointers hm h.fcr (fcr_fresh h)
    (by simp [allocatedTwo_fcrEntry])
  rw [allocatedTwo_fcrEntry, retiredTwo_fcrEntry] at hc
  rw [hr, hrf, ha, hfree, nFcrRetireRat_eq, nFcrAllocRat_eq, apply_ite freeHilo,
    freeHilo_nFcrPrfFree h, freeHilo_nRetireFcrPrfFree]
  exact hc

theorem step_fp (h : s.ClassInv) (hm : s.MonitorAllocated i) :
    Coherent (s.step i).fpRetireRat (s.step i).fpAllocRat ((s.step i).window.filterMap fpEntry)
      (freeSet (s.step i).fpPrfFree) (freeSet (s.step i).retireFpPrfFree) := by
  have hr : (s.step i).fpRetireRat = s.nFpRetireRat (s.comb i) := rfl
  have hrf : (s.step i).retireFpPrfFree = s.nRetireFpPrfFree (s.comb i) := rfl
  have ha : (s.step i).fpAllocRat =
      if s.flushes then s.fpRetireRat else s.nFpAllocRat (s.comb i) := by
    simp [step, clock]
  have hfree : (s.step i).fpPrfFree =
      if s.flushes then s.retireFpPrfFree else s.nFpPrfFree (s.comb i) := by
    simp [step, clock]
  rw [hr, hrf, ha, hfree, nFpRetireRat_eq h, nFpAllocRat_eq h, apply_ite freeSet,
    freeSet_nFpPrfFree h, freeSet_nRetireFpPrfFree h]
  exact step_renames stable_fpEntry h.pointers hm h.fp (fp_fresh h) (fpTwo_fresh h)

/-- A cycle in which a monitor call retires only what it has allocated keeps the three classes. -/
theorem step_classInv (h : s.ClassInv) (hm : s.MonitorAllocated i) : (s.step i).ClassInv where
  pointers := step_pointers h.pointers hm
  decoded := step_decoded h.decoded
  serial := step_serialHead h.decoded.toDqPointers h.serial
  single := step_window_forall stable_singleClass h.pointers hm h.single singleClass_tRobTail
    singleClass_tRobNextTail
  hilo := step_hilo h hm
  fcr := step_fcr h hm
  fp := step_fp h hm

/-! ## Every run -/

/-- What the three free lists owe rename: registers handed out are free, the FP map is injective, no
register in use is free, and the second slots handle no HI/LO or FCR destination. -/
structure ClassIntegrity (s : Core) (i : CoreIn) : Prop where
  hilo_free : (s.comb i).tAlloc = true → s.tUop.hiloDstValid = true →
    s.hiloPrfFree.getLsbD s.nHiloPrfEntry.toNat = true
  fcr_free : (s.comb i).tAlloc = true → s.tUop.fcrDstValid = true →
    s.fcrPrfFree.getLsbD s.nFcrPrfEntry.toNat = true
  fp_free : (s.comb i).tAlloc = true → s.tUop.fpDstValid = true →
    s.fpPrfFree.getLsbD s.nFpPrfEntry.toNat = true
  fp2_free : (s.comb i).tAllocTwo = true → s.tUop2.fpDstValid = true →
    s.fpPrfFree.getLsbD s.nFpPrfEntry2.toNat = true
  fpAllocRat_injective : Function.Injective s.fpAllocRat
  fpAllocRat_used : ∀ r, s.fpPrfFree.getLsbD (s.fpAllocRat r).toNat = false
  fpRetireRat_used : ∀ r, s.fpPrfFree.getLsbD (s.fpRetireRat r).toNat = false
  fpRob_used : ∀ e ∈ s.window, e.validFpDst = true → s.fpPrfFree.getLsbD e.pdst.toNat = false
  hiloAllocRat_used : s.hiloPrfFree.getLsbD s.hiloAllocRat.toNat = false
  hiloRetireRat_used : s.hiloPrfFree.getLsbD s.hiloRetireRat.toNat = false
  hiloRob_used : ∀ e ∈ s.window, e.validHiloDst = true →
    s.hiloPrfFree.getLsbD (e.pdst.setWidth 2 : HiloPtr).toNat = false
  fcrAllocRat_used : s.fcrPrfFree.getLsbD s.fcrAllocRat.toNat = false
  fcrRetireRat_used : s.fcrPrfFree.getLsbD s.fcrRetireRat.toNat = false
  fcrRob_used : ∀ e ∈ s.window, e.validFcrDst = true →
    s.fcrPrfFree.getLsbD (e.pdst.setWidth 2 : HiloPtr).toNat = false
  allocTwo : (s.comb i).tAllocTwo = true →
    s.tUop2.hiloDstValid = false ∧ s.tUop2.fcrDstValid = false
  retireTwo : (s.comb i).tRetireTwo = true →
    s.tRobNextHead.validHiloDst = false ∧ s.tRobNextHead.validFcrDst = false

theorem ClassInv.integrity (h : s.ClassInv) : s.ClassIntegrity i where
  hilo_free ha hd := by
    obtain ⟨-, hh, -, -⟩ := allocates_enough (i := i) h (by simpa using ha)
    exact findFirstSet_hilo (hh hd)
  fcr_free ha hd := by
    obtain ⟨-, -, hc, -⟩ := allocates_enough (i := i) h (by simpa using ha)
    exact findFirstSet_hilo (hc hd)
  fp_free ha hd := by
    obtain ⟨-, -, -, hf⟩ := allocates_enough (i := i) h (by simpa using ha)
    exact mem_of_bank (nFpPrfEntry_bank (hf hd))
  fp2_free ha hd := mem_of_bank2 (nFpPrfEntry2_bank (allocatesTwo_fp (i := i) (by simpa using ha) hd))
  fpAllocRat_injective := h.fp.alloc_injective
  fpAllocRat_used r := notMem_members (h.fp.alloc_notMem r)
  fpRetireRat_used r := notMem_members (h.fp.retire_notMem r)
  fpRob_used e he hd := by
    obtain ⟨h1, h2, h3⟩ := (h.single e he).2.2 hd
    have hmem : ⟨e.ldst, e.pdst, e.oldPdst⟩ ∈ s.window.filterMap fpEntry :=
      List.mem_filterMap.mpr ⟨e, he, by simp [fpEntry, renameIf, h1, h2, h3, hd]⟩
    exact notMem_members (h.fp.new_notMem _ hmem)
  hiloAllocRat_used := notMem_members (h.hilo.alloc_notMem ())
  hiloRetireRat_used := notMem_members (h.hilo.retire_notMem ())
  hiloRob_used e he hd := by
    have h1 := (h.single e he).1 hd
    have hmem : ⟨(), e.pdst.setWidth 2, e.oldPdst.setWidth 2⟩ ∈ s.window.filterMap hiloEntry :=
      List.mem_filterMap.mpr ⟨e, he, by simp [hiloEntry, renameIf, h1, hd]⟩
    exact notMem_members (h.hilo.new_notMem _ hmem)
  fcrAllocRat_used := notMem_members (h.fcr.alloc_notMem ())
  fcrRetireRat_used := notMem_members (h.fcr.retire_notMem ())
  fcrRob_used e he hd := by
    obtain ⟨h1, h2⟩ := (h.single e he).2.1 hd
    have hmem : ⟨(), e.pdst.setWidth 2, e.oldPdst.setWidth 2⟩ ∈ s.window.filterMap fcrEntry :=
      List.mem_filterMap.mpr ⟨e, he, by simp [fcrEntry, renameIf, h1, h2, hd]⟩
    exact notMem_members (h.fcr.new_notMem _ hmem)
  allocTwo ha := (allocatesTwo_guards (i := i) (by simpa using ha)).2.2
  retireTwo hr := retiresTwo_guards (by simpa using hr)

/-- The three classes keep their integrity in every run from reset in which a monitor call retires
only the uop that it has allocated, wherever the run allocates and retires. -/
theorem run_classIntegrity (rob : RobPtr → RobEntry) (dq : BitVec 2 → Uop) (inputs : List CoreIn)
    (i : CoreIn) (h : Guarded step MonitorAllocated (Core.reset rob dq) inputs) :
    (run step (Core.reset rob dq) inputs).ClassIntegrity i :=
  (h.invariant (fun _ _ hs hm => step_classInv hs hm) (reset_classInv rob dq)).integrity

/-- `mult $1, $2` and a move behind it. -/
def multRun : List CoreIn :=
  [{ resume := true }, { restartAck := true },
    { insnValid := true, insn := { data := 0x00220018#32 }, insnValidTwo := true, insnTwo := moviInsn 3 },
    {}, { completeValid1 := true, completeBundle1 := { robPtr := 0, complete := true } }, {}]

theorem run_classIntegrity_mult :
    (run step (Core.reset (fun _ => {}) fun _ => {}) multRun).ClassIntegrity {} :=
  run_classIntegrity _ _ _ _ (by decide +kernel)

end Core
end MipsCore
