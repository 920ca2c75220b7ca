import MipsCore.Core.ClassRename
import MipsCore.Core.DelaySlot
import MipsCore.Lib.RenameClasses
import MipsCore.Lib.OutOfOrder

/-! # Renamed execution agrees with execution in order

The execution unit is sent renamed uops, and each may write its result as soon as what it reads
has been written, in any order.  Whatever a uop computes, the committed maps then show the registers
that the retired uops leave when they run one after the other.
-/
namespace MipsCore
namespace Core
open Rename OutOfOrder
variable {s : Core} {i : CoreIn} {c : Comb}

/-! ## The registers of the four classes -/

/-- Architectural registers: integer, floating-point, HI/LO and FCR. -/
abbrev Name := ArchReg ⊕ ArchReg ⊕ Unit ⊕ Unit
/-- Physical registers. -/
abbrev Loc := PrfPtr ⊕ PrfPtr ⊕ HiloPtr ⊕ HiloPtr

section Classes
variable {α β γ : Type*}

def gpr (r : α) : α ⊕ β ⊕ γ ⊕ γ := Sum.inl r
def fpr (r : β) : α ⊕ β ⊕ γ ⊕ γ := Sum.inr (Sum.inl r)
def hilo (r : γ) : α ⊕ β ⊕ γ ⊕ γ := Sum.inr (Sum.inr (Sum.inl r))
def fcr (r : γ) : α ⊕ β ⊕ γ ⊕ γ := Sum.inr (Sum.inr (Sum.inr r))

end Classes

/-- An operand of a decoded uop and of a renamed one. -/
def srcName (valid fpValid : Bool) (r : PrfPtr) : List Name :=
  if fpValid then [fpr (r.setWidth 5)] else if valid then [gpr (r.setWidth 5)] else []
def srcLoc (valid fpValid : Bool) (p : PrfPtr) : List Loc :=
  if fpValid then [fpr p] else if valid then [gpr p] else []

/-- What a decoded uop reads. -/
def srcs (u : Uop) : List Name :=
  srcName u.srcAValid u.fpSrcAValid u.srcA ++ srcName u.srcBValid u.fpSrcBValid u.srcB ++
    srcName u.srcCValid u.fpSrcCValid u.srcC ++
      if u.hiloSrcValid then [hilo ()] else if u.fcrSrcValid then [fcr ()] else []

/-- What a renamed uop reads. -/
def reads (u : Uop) : List Loc :=
  srcLoc u.srcAValid u.fpSrcAValid u.srcA ++ srcLoc u.srcBValid u.fpSrcBValid u.srcB ++
    srcLoc u.srcCValid u.fpSrcCValid u.srcC ++
      if u.hiloSrcValid then [hilo u.hiloSrc] else if u.fcrSrcValid then [fcr u.hiloSrc] else []

/-- What a decoded uop writes. -/
def dst (u : Uop) : Option Name :=
  if u.dstValid then some (gpr (u.dst.setWidth 5))
  else if u.hiloDstValid then some (hilo ())
  else if u.fcrDstValid then some (fcr ())
  else if u.fpDstValid then some (fpr (u.dst.setWidth 5))
  else none

/-- What a renamed uop writes. -/
def target (u : Uop) : Option Loc :=
  if u.dstValid then some (gpr u.dst)
  else if u.hiloDstValid then some (hilo u.hiloDst)
  else if u.fcrDstValid then some (fcr u.hiloDst)
  else if u.fpDstValid then some (fpr u.dst)
  else none

/-- The rename of an entry, whatever its class. -/
def destination : RobEntry → Option (Entry Name Loc) :=
  either renameEntry (either fpEntry (either hiloEntry fcrEntry))

/-- The speculative and the committed registers. -/
def allocMap (s : Core) : Name → Loc :=
  Sum.map s.allocRat (Sum.map s.fpAllocRat (Sum.map (fun _ => s.hiloAllocRat) fun _ => s.fcrAllocRat))
def retiredMap (s : Core) : Name → Loc :=
  Sum.map s.retireRat
    (Sum.map s.fpRetireRat (Sum.map (fun _ => s.hiloRetireRat) fun _ => s.fcrRetireRat))

theorem stable_destination : Stable destination := ⟨fun _ _ => rfl, fun _ _ => rfl⟩

/-! ## One class at a time -/

section Views
variable (e : RobEntry)

theorem hilo_or_fcr : hiloEntry e = none ∨ fcrEntry e = none := by
  unfold hiloEntry fcrEntry
  cases e.validDst <;> cases e.validHiloDst <;> simp [renameIf]

theorem fp_or_flags : fpEntry e = none ∨ either hiloEntry fcrEntry e = none := by
  unfold fpEntry either hiloEntry fcrEntry
  cases e.validDst <;> cases e.validHiloDst <;> cases e.validFcrDst <;> simp [renameIf]

theorem gpr_or_rest : renameEntry e = none ∨ either fpEntry (either hiloEntry fcrEntry) e = none := by
  unfold renameEntry either fpEntry hiloEntry fcrEntry
  cases e.validDst <;> simp [renameIf]

/-- A rename changes the map of its class. -/
theorem write_destination (m m' : ArchReg → PrfPtr) (h h' : Unit → HiloPtr) :
    write (destination e) (Sum.map m (Sum.map m' (Sum.map h h'))) =
      Sum.map (write (renameEntry e) m) (Sum.map (write (fpEntry e) m')
        (Sum.map (write (hiloEntry e) h) (write (fcrEntry e) h'))) := by
  rw [destination, write_either (gpr_or_rest e), write_either (fp_or_flags e),
    write_either (hilo_or_fcr e)]

end Views

/-- The four renaming states as one. -/
theorem coherent (hr : s.RenameInv) (hc : s.ClassInv) :
    Coherent s.retiredMap s.allocMap (s.window.filterMap destination)
      (both (freeSet s.prfFree) (both (freeSet s.fpPrfFree)
        (both (freeHilo s.hiloPrfFree) (freeHilo s.fcrPrfFree))))
      (both (freeSet s.retirePrfFree) (both (freeSet s.retireFpPrfFree)
        (both (freeHilo s.retireHiloPrfFree) (freeHilo s.retireFcrPrfFree)))) := by
  have hsmall := Coherent.sum (fun e _ => hilo_or_fcr e) hc.hilo hc.fcr
  have hrest := Coherent.sum (fun e _ => fp_or_flags e) hc.fp hsmall
  exact Coherent.sum (fun e _ => gpr_or_rest e) hr.coherent hrest

/-- Retirement commits the renames of the head and of the entry behind it. -/
theorem step_retiredMap (hc : s.ClassInv) :
    (s.step i).retiredMap =
      write (s.retiredTwo destination) (write (s.retired i destination) s.retiredMap) := by
  have hmap : (s.step i).retiredMap =
      Sum.map (s.nRetireRat (s.comb i)) (Sum.map (s.nFpRetireRat (s.comb i))
        (Sum.map (fun _ => s.nHiloRetireRat (s.comb i)) fun _ => s.nFcrRetireRat (s.comb i))) := rfl
  rw [hmap, nRetireRat_eq, nFpRetireRat_eq hc, nHiloRetireRat_eq, nFcrRetireRat_eq]
  have h1 := retiredTwo_hiloEntry (s := s)
  have h2 := retiredTwo_fcrEntry (s := s)
  unfold retired retiredTwo at *
  cases hret : s.retires i with
  | false =>
    have htwo : s.retiresTwo = false := by
      by_contra hc
      simp [(retiresTwo_retires (i := i) (by simpa using hc)).1] at hret
    simp only [htwo, Bool.false_eq_true, if_false]
    rfl
  | true =>
    cases htwo : s.retiresTwo <;> simp only [htwo, Bool.false_eq_true, if_false, if_true] at h1 h2 ⊢
    · rw [retiredMap, write_destination]
      rfl
    · rw [retiredMap, write_destination, write_destination, h1, h2]
      rfl

/-! ## The first slot -/

theorem destination_foldEntry (b : Bool) (op : Opcode) (e : RobEntry) :
    destination (foldEntry b op e) = destination e := by
  unfold foldEntry
  split_ifs <;> rfl

theorem destination_forgetCalls (e : RobEntry) : destination (forgetCalls e) = destination e := rfl

theorem destination_tRobTail :
    destination s.tRobTail =
      if s.tUop.dstValid then
        some ⟨gpr (s.tUop.dst.setWidth 5), gpr s.nPrfEntry, gpr (s.allocRat (s.tUop.dst.setWidth 5))⟩
      else if s.tUop.hiloDstValid then
        some ⟨hilo (), hilo s.nHiloPrfEntry, hilo s.hiloAllocRat⟩
      else if s.tUop.fcrDstValid then some ⟨fcr (), fcr s.nFcrPrfEntry, fcr s.fcrAllocRat⟩
      else if s.tUop.fpDstValid then
        some ⟨fpr (s.tUop.dst.setWidth 5), fpr s.nFpPrfEntry,
          fpr (s.fpAllocRat (s.tUop.dst.setWidth 5))⟩
      else none := by
  rw [tRobTail, destination_foldEntry]
  unfold destEntry
  split_ifs <;> simp [destination, either, renameEntry, fpEntry, hiloEntry, fcrEntry, renameIf,
    baseEntry, gpr, fpr, hilo, fcr]

theorem dst_tRobTail : (destination s.tRobTail).map Entry.dst = dst s.tUop := by
  rw [destination_tRobTail, dst]
  split_ifs <;> rfl

theorem target_tAllocUop (hc : c.tAlloc = true) :
    target (s.tAllocUop c) = (destination s.tRobTail).map Entry.new := by
  rw [destination_tRobTail]
  unfold tAllocUop
  rw [if_pos hc]
  unfold target
  cases s.tUop.dstValid <;> cases s.tUop.hiloDstValid <;> cases s.tUop.fcrDstValid <;>
    cases s.tUop.fpDstValid <;> rfl

theorem srcLoc_renameSrc (valid fpValid : Bool) (r : PrfPtr) :
    srcLoc valid fpValid (s.renameSrc valid fpValid r) = (srcName valid fpValid r).map s.allocMap := by
  unfold srcLoc srcName renameSrc
  cases valid <;> cases fpValid <;> rfl

/-- The sources of a renamed uop do not depend on the destination it is given. -/
theorem reads_tAllocUop_eq :
    reads (s.tAllocUop c) = reads { s.tUop with
      srcA := s.renameSrc s.tUop.srcAValid s.tUop.fpSrcAValid s.tUop.srcA
      srcB := s.renameSrc s.tUop.srcBValid s.tUop.fpSrcBValid s.tUop.srcB
      srcC := s.renameSrc s.tUop.srcCValid s.tUop.fpSrcCValid s.tUop.srcC
      hiloSrc := if s.tUop.hiloSrcValid then s.hiloAllocRat else if s.tUop.fcrSrcValid then
        s.fcrAllocRat else s.tUop.hiloSrc } := by
  unfold tAllocUop
  dsimp only
  cases c.tAlloc with
  | false => rfl
  | true =>
    cases s.tUop.dstValid <;> cases s.tUop.hiloDstValid <;> cases s.tUop.fcrDstValid <;>
      cases s.tUop.fpDstValid <;> rfl

theorem reads_tAllocUop : reads (s.tAllocUop c) = (srcs s.tUop).map s.allocMap := by
  rw [reads_tAllocUop_eq, reads, srcLoc_renameSrc, srcLoc_renameSrc, srcLoc_renameSrc, srcs,
    List.map_append, List.map_append, List.map_append]
  cases s.tUop.hiloSrcValid <;> cases s.tUop.fcrSrcValid <;> rfl

theorem allocOne_allocMap : s.allocOne.allocMap = write (destination s.tRobTail) s.allocMap := by
  have hgpr : write (renameEntry s.tRobTail) s.allocRat = s.allocOne.allocRat := by
    rw [renameEntry_tRobTail, allocOne_allocRat]
    split_ifs <;> rfl
  have hfp : write (fpEntry s.tRobTail) s.fpAllocRat = s.allocOne.fpAllocRat := by
    rw [tRobTail, fpEntry_foldEntry, allocOne_fpAllocRat]
    unfold destEntry fpEntry fpDst
    cases s.tUop.dstValid <;> cases s.tUop.hiloDstValid <;> cases s.tUop.fcrDstValid <;>
      cases s.tUop.fpDstValid <;> rfl
  have hhilo : (write (hiloEntry s.tRobTail) fun _ => s.hiloAllocRat) =
      fun _ => s.allocOne.hiloAllocRat := by
    rw [write_unit, tRobTail, hiloEntry_foldEntry, allocOne_hiloAllocRat]
    unfold destEntry hiloEntry hiloDst
    cases s.tUop.dstValid <;> cases s.tUop.hiloDstValid <;> cases s.tUop.fcrDstValid <;>
      cases s.tUop.fpDstValid <;> simp [renameIf, baseEntry]
  have hfcr : (write (fcrEntry s.tRobTail) fun _ => s.fcrAllocRat) =
      fun _ => s.allocOne.fcrAllocRat := by
    rw [write_unit, tRobTail, fcrEntry_foldEntry, allocOne_fcrAllocRat]
    unfold destEntry fcrEntry fcrDst
    cases s.tUop.dstValid <;> cases s.tUop.hiloDstValid <;> cases s.tUop.fcrDstValid <;>
      cases s.tUop.fpDstValid <;> simp [renameIf, baseEntry]
  rw [allocMap, allocMap, write_destination, hgpr, hfp, hhilo, hfcr]

/-- The second slot is the first slot of the core that the first allocation leaves. -/
theorem destination_tRobNextTail (h : s.SecondSlot) :
    destination s.tRobNextTail = destination s.allocOne.tRobTail := by
  have hflags := congrArg destination (tRobNextTail_eq h)
  rwa [destination_forgetCalls, destination_forgetCalls] at hflags

/-! ## The machine -/

variable {V : Type*}

/-- An un-retired uop: its number in allocation order, as it was decoded, as the execution unit was
sent it, the entry it was given, and whether its result has been written. -/
structure InFlight where
  num : ℕ
  uop : Uop
  renamed : Uop
  entry : RobEntry
  done : Bool

/-- What a cycle allocates.  A folded uop is not sent to the execution unit. -/
def newInFlight (s : Core) (i : CoreIn) (n : ℕ) : List InFlight :=
  if s.allocates i then
    if s.allocatesTwo i then
      [⟨n, s.tUop, s.tAllocUop (s.comb i), s.tRobTail, s.tFoldUop⟩,
        ⟨n + 1, s.tUop2, s.tAllocUop2 (s.comb i), s.tRobNextTail, s.tFoldUop2⟩]
    else [⟨n, s.tUop, s.tAllocUop (s.comb i), s.tRobTail, s.tFoldUop⟩]
  else []

/-- The numbered uop as an operation on registers. -/
def InFlight.op (l : InFlight) : Op Name Loc (ℕ × Uop) where
  inst := (l.num, l.uop)
  reads := reads l.renamed
  rename := destination l.entry
  done := l.done

/-- The core with the physical registers and a record of the uops. -/
structure Flow (V : Type*) where
  core : Core
  count : ℕ
  live : List InFlight
  retired : List (ℕ × Uop)
  file : Loc → V

/-- A cycle of the core, or the result of the `k`-th oldest un-retired uop. -/
inductive FlowEvent
  | cycle (i : CoreIn)
  | result (k : ℕ)

namespace Flow
variable (sem : ℕ × Uop → List V → V) (x : Flow V)

def cycle (i : CoreIn) : Flow V where
  core := x.core.step i
  count := x.count + x.core.allocCount i
  live := if x.core.flushes then []
    else (x.live ++ x.core.newInFlight i x.count).drop (x.core.retireCount i)
  retired := x.retired ++ (x.live.take (x.core.retireCount i)).map fun l => (l.num, l.uop)
  file := x.file

/-- A uop reads and writes the registers that its renamed form names. -/
def writeResult (l : InFlight) : Loc → V :=
  (target l.renamed).elim x.file fun p =>
    Function.update x.file p (sem (l.num, l.uop) ((reads l.renamed).map x.file))

def result (k : ℕ) : Flow V :=
  x.live[k]?.elim x fun l =>
    { x with live := x.live.set k { l with done := true }, file := x.writeResult sem l }

def step : FlowEvent → Flow V
  | .cycle i => x.cycle i
  | .result k => x.result sem k

end Flow

/-- A completion or a memory response names the slot. -/
def Reports (i : CoreIn) (p : RobPtr) : Prop :=
  i.completeValid1 = true ∧ i.completeBundle1.robPtr = p ∧ i.completeBundle1.complete = true ∨
    i.completeValid2 = true ∧ i.completeBundle2.robPtr = p ∧ i.completeBundle2.complete = true ∨
      i.coreMemRspValid = true ∧ i.coreMemRsp.robPtr = p

def reportsCheck (i : CoreIn) (p : RobPtr) : Bool :=
  i.completeValid1 && i.completeBundle1.robPtr == p && i.completeBundle1.complete ||
    i.completeValid2 && i.completeBundle2.robPtr == p && i.completeBundle2.complete ||
      i.coreMemRspValid && i.coreMemRsp.robPtr == p

theorem reportsCheck_iff {p : RobPtr} : reportsCheck i p = true ↔ Reports i p := by
  simp only [reportsCheck, Reports, Bool.or_eq_true, Bool.and_eq_true, beq_iff_eq, or_assoc, and_assoc]

/-- What a step relies on.  A uop that is reported or folded has no result to come,
and a result is written once everything that it reads has been. -/
def Flow.Admits (x : Flow V) : FlowEvent → Prop
  | .cycle i => BankNonempty x.core i ∧
      (∀ l ∈ x.core.newInFlight i x.count, l.done = true → dst l.uop = none) ∧
        ∀ k < (x.live ++ x.core.newInFlight i x.count).length,
          Reports i (Ring.slot (x.core.robHeadPtr + BitVec.ofNat 6 k)) →
            ∀ l ∈ (x.live ++ x.core.newInFlight i x.count)[k]?, l.done = true
  | .result k => ∀ l ∈ x.live[k]?, ∀ q ∈ x.live, q.done = false →
      ∀ p ∈ target q.renamed, ∀ r ∈ reads l.renamed, r ≠ p

/-- The same as a check that can be evaluated. -/
def Flow.admitsCheck (x : Flow V) : FlowEvent → Bool
  | .cycle i => bankCheck x.core i &&
      (x.core.newInFlight i x.count).all (fun l => !l.done || (dst l.uop).all fun _ => false) &&
        (List.range (x.live ++ x.core.newInFlight i x.count).length).all fun k =>
          !reportsCheck i (Ring.slot (x.core.robHeadPtr + BitVec.ofNat 6 k)) ||
            (x.live ++ x.core.newInFlight i x.count)[k]?.all InFlight.done
  | .result k => x.live[k]?.all fun l => x.live.all fun q => q.done ||
      (target q.renamed).all fun p => (reads l.renamed).all fun r => decide (r ≠ p)

theorem Flow.admitsCheck_iff (x : Flow V) (e : FlowEvent) : x.admitsCheck e = true ↔ x.Admits e := by
  cases e with
  | cycle i =>
    simp only [admitsCheck, Admits, Bool.and_eq_true, bankCheck_iff, List.all_eq_true,
      Bool.or_eq_true, Bool.not_eq_true', Option.eq_none_iff_forall_ne_some, List.mem_range,
      Option.all_eq_true, ← reportsCheck_iff, or_iff_not_imp_left, Bool.not_eq_false, and_assoc,
      Option.mem_def, Bool.false_eq_true, imp_false]
  | result k =>
    simp only [admitsCheck, Admits, Option.all_eq_true, List.all_eq_true, Bool.or_eq_true,
      or_iff_not_imp_left, Bool.not_eq_true, decide_eq_true_eq, Option.mem_def]

/-- Uops on the architectural registers. -/
def semantics (sem : ℕ × Uop → List V → V) : Semantics Name (ℕ × Uop) V where
  srcs u := srcs u.2
  dst u := dst u.2
  sem := sem

/-- The retired uops and the un-retired ones behave as in order. -/
structure Flow.Inv (sem : ℕ × Uop → List V → V) (vals : Name → V) (x : Flow V) : Prop where
  rename : x.core.RenameInv
  classes : x.core.ClassInv
  entries : x.core.window.map destination = x.live.map fun l => destination l.entry
  targets : ∀ l ∈ x.live, target l.renamed = (destination l.entry).map Entry.new
  complete : ∀ k, ∀ l ∈ x.live[k]?,
    x.core.robComplete.getLsbD (Ring.slot (x.core.robHeadPtr + BitVec.ofNat 6 k)).toNat = true →
      l.done = true
  sound : Sound (semantics sem) x.file x.core.retiredMap (seq (semantics sem) vals x.retired)
    (x.live.map InFlight.op)
  holds : Holds x.file x.core.retiredMap (seq (semantics sem) vals x.retired)

namespace Flow
variable {sem : ℕ × Uop → List V → V} {vals : Name → V} {x : Flow V} {k n : ℕ}

theorem Inv.renames (h : x.Inv sem vals) :
    renames (x.live.map InFlight.op) = x.core.window.filterMap destination := by
  have hmap := congrArg (List.filterMap id) h.entries
  rw [List.filterMap_map, List.filterMap_map] at hmap
  rw [OutOfOrder.renames, List.filterMap_map]
  exact hmap.symm

theorem Inv.length (h : x.Inv sem vals) : x.live.length = x.core.robCount := by
  have hlen := congrArg List.length h.entries
  rw [List.length_map, List.length_map, window, Ring.length_contents] at hlen
  exact hlen.symm

theorem Inv.allocMap (h : x.Inv sem vals) :
    apply x.core.retiredMap (OutOfOrder.renames (x.live.map InFlight.op)) = x.core.allocMap := by
  rw [h.renames]
  exact (coherent h.rename h.classes).alloc_eq.symm

/-! ## Allocation -/

theorem map_newInFlight :
    (newInFlight s i n).map (fun l => destination l.entry) = (s.newEntries i).map destination := by
  unfold newInFlight newEntries
  split_ifs <;> rfl

theorem done_newInFlight :
    (newInFlight s i n).map InFlight.done =
      if s.allocates i then if s.allocatesTwo i then [s.tFoldUop, s.tFoldUop2] else [s.tFoldUop]
      else [] := by
  unfold newInFlight
  split_ifs <;> rfl

theorem targets_newInFlight (hd : s.Decoded) :
    ∀ l ∈ newInFlight s i n, target l.renamed = (destination l.entry).map Entry.new := by
  have h1 : s.allocates i = true →
      target (s.tAllocUop (s.comb i)) = (destination s.tRobTail).map Entry.new :=
    fun ha => target_tAllocUop (by rw [comb_tAlloc, ha])
  intro l hl
  unfold newInFlight at hl
  split_ifs at hl with ha h2
  · rcases List.mem_cons.mp hl with rfl | hl
    · exact h1 ha
    · obtain rfl := List.mem_singleton.mp hl
      have hs := hd.secondSlot h2
      change target (s.tAllocUop2 (s.comb i)) = (destination s.tRobNextTail).map Entry.new
      rw [tAllocUop2_allocOne hs (by rw [comb_tAllocTwo, h2]), destination_tRobNextTail hs]
      exact target_tAllocUop allocOnly_tAlloc
  · obtain rfl := List.mem_singleton.mp hl
    exact h1 ha
  · cases hl

theorem dst_newInFlight (hd : s.Decoded) :
    ∀ l ∈ newInFlight s i n, (destination l.entry).map Entry.dst = dst l.uop := by
  intro l hl
  unfold newInFlight at hl
  split_ifs at hl with ha h2
  · rcases List.mem_cons.mp hl with rfl | hl
    · exact dst_tRobTail
    · obtain rfl := List.mem_singleton.mp hl
      have hs := hd.secondSlot h2
      change (destination s.tRobNextTail).map Entry.dst = dst s.tUop2
      rw [destination_tRobNextTail hs, dst_tRobTail, allocOne_tUop hs.pointers]
  · obtain rfl := List.mem_singleton.mp hl
    exact dst_tRobTail
  · cases hl

/-- What is allocated reads through the map that the uops before it leave. -/
theorem Inv.issue (h : x.Inv sem vals)
    (hfold : ∀ l ∈ x.core.newInFlight i x.count, l.done = true → dst l.uop = none) :
    Sound (semantics sem) x.file x.core.retiredMap (seq (semantics sem) vals x.retired)
      ((x.live ++ x.core.newInFlight i x.count).map InFlight.op) := by
  have hdst := dst_newInFlight (i := i) (n := x.count) h.classes.decoded
  have hnone : ∀ l ∈ x.core.newInFlight i x.count, l.op.done = true → l.op.rename = none := by
    intro l hl hdone
    have hd := hdst l hl
    rw [hfold l hl hdone] at hd
    exact Option.map_eq_none_iff.mp hd
  unfold newInFlight at hdst hnone ⊢
  cases ha : x.core.allocates i with
  | false => simpa [ha] using h.sound
  | true =>
    simp only [ha, if_true] at hdst hnone ⊢
    have hone : Sound (semantics sem) x.file x.core.retiredMap (seq (semantics sem) vals x.retired)
        (x.live.map InFlight.op ++ [InFlight.op ⟨x.count, x.core.tUop,
          x.core.tAllocUop (x.core.comb i), x.core.tRobTail, x.core.tFoldUop⟩]) := by
      refine h.sound.issue ?_ dst_tRobTail (hnone _ ?_)
      · rw [h.allocMap]
        exact reads_tAllocUop
      · split_ifs <;> exact List.mem_cons_self
    cases h2 : x.core.allocatesTwo i with
    | false => simpa using hone
    | true =>
      have hs := h.classes.decoded.secondSlot h2
      have hu := allocOne_tUop hs.pointers
      simp only [h2, if_true] at hdst hnone ⊢
      rw [List.map_append, List.map_cons, List.map_singleton, List.append_cons]
      refine hone.issue ?_ (hdst _ (by simp)) (hnone _ (by simp))
      change reads (x.core.tAllocUop2 (x.core.comb i)) = (srcs x.core.tUop2).map _
      rw [tAllocUop2_allocOne hs (by rw [comb_tAllocTwo, h2]), reads_tAllocUop, hu,
        allocOne_allocMap, apply_renames_concat, h.allocMap]
      rfl

/-! ## Retirement -/

theorem filterMap_take_window {A P : Type*} {f : RobEntry → Option (Entry A P)} (hp : s.Pointers)
    (hm : s.MonitorAllocated i) :
    (s.window.take (s.retireCount i)).filterMap f =
      (s.retired i f).toList ++ (s.retiredTwo f).toList := by
  have hle := retireCount_le hp hm
  unfold Core.retired retiredTwo
  cases hr : s.retires i with
  | false =>
    have h2 : s.retiresTwo = false := by
      by_contra hc
      simp [(retiresTwo_retires (i := i) (by simpa using hc)).1] at hr
    simp [retireCount, hr, h2]
  | true =>
    cases h2 : s.retiresTwo with
    | false =>
      have hne : s.tRobEmpty = false := by
        rw [robCount_pos]
        simp only [retireCount, hr, h2, Bool.false_eq_true, ↓reduceIte] at hle
        omega
      obtain ⟨rest, hw⟩ := window_cons hne
      cases he : f s.tRobHead <;> simp [retireCount, hr, h2, hw, he]
    | true =>
      obtain ⟨-, -, hne, hnn⟩ := retiresTwo_retires (i := i) h2
      obtain ⟨rest, hw⟩ := window_cons_cons hp hne hnn
      cases he : f s.tRobHead <;> cases hn : f s.tRobNextHead <;>
        simp [retireCount, hr, h2, hw, he, hn]

/-- What retires is complete. -/
theorem retires_complete (hr : s.retires i = true) : s.tRobHeadComplete = true := by
  cases hs : s.state with
  | ACTIVE =>
    simp only [retires, hs] at hr
    exact (retiresActive_nonempty hr).2
  | DRAIN =>
    simp only [retires, hs, Bool.and_eq_true] at hr
    exact hr.1.1
  | WAIT_FOR_MONITOR =>
    simp only [retires, hs, Bool.and_eq_true] at hr
    exact hr.1
  | _ => simp [retires, hs] at hr

theorem retiresTwo_complete (hr : s.retiresTwo = true) : s.tRobNextHeadComplete = true := by
  simp only [retiresTwo, canRetireTwo, Bool.and_eq_true] at hr
  exact hr.2.1.1.1.1.1.2

theorem Inv.done_take (h : x.Inv sem vals) :
    ∀ l ∈ x.live.take (x.core.retireCount i), l.done = true := by
  intro l hl
  obtain ⟨k, hk, hget⟩ := List.mem_iff_getElem.mp hl
  rw [List.length_take] at hk
  rw [List.getElem_take] at hget
  refine h.complete k l (List.getElem?_eq_some_iff.mpr ⟨by omega, hget⟩) ?_
  have hcount : k < x.core.retireCount i := by omega
  unfold retireCount at hcount
  split_ifs at hcount with h1 h2
  · have hnext := retiresTwo_complete h2
    rw [tRobNextHeadComplete, h.rename.pointers.robNextHead] at hnext
    have hk2 : k = 0 ∨ k = 1 := by omega
    rcases hk2 with rfl | rfl
    · simpa [tRobHeadComplete] using retires_complete h1
    · exact hnext
  · obtain rfl : k = 0 := by omega
    simpa [tRobHeadComplete] using retires_complete h1
  · omega

/-- Retirement leaves in the committed registers what the retired uops leave in order. -/
theorem Inv.commit (h : x.Inv sem vals) (hm : x.core.MonitorAllocated i)
    (hsound : Sound (semantics sem) x.file x.core.retiredMap (seq (semantics sem) vals x.retired)
      ((x.live ++ x.core.newInFlight i x.count).map InFlight.op)) :
    Holds x.file (x.core.step i).retiredMap (seq (semantics sem) vals (x.cycle i).retired) ∧
      Sound (semantics sem) x.file (x.core.step i).retiredMap
        (seq (semantics sem) vals (x.cycle i).retired)
        (((x.live ++ x.core.newInFlight i x.count).drop (x.core.retireCount i)).map InFlight.op) := by
  have hle := retireCount_le h.rename.pointers hm
  rw [← h.length] at hle
  have hsplit : (x.live ++ x.core.newInFlight i x.count).map InFlight.op =
      (x.live.take (x.core.retireCount i)).map InFlight.op ++
        ((x.live ++ x.core.newInFlight i x.count).drop (x.core.retireCount i)).map InFlight.op := by
    rw [← List.map_append, List.drop_append_of_le_length hle, ← List.append_assoc,
      List.take_append_drop]
  rw [hsplit] at hsound
  have hcommit := hsound.commit h.holds fun o ho => by
    obtain ⟨l, hl, rfl⟩ := List.mem_map.mp ho
    exact h.done_take l hl
  have hren : OutOfOrder.renames ((x.live.take (x.core.retireCount i)).map InFlight.op) =
      (x.core.window.take (x.core.retireCount i)).filterMap destination := by
    have hmap := congrArg (fun r => List.filterMap id (r.take (x.core.retireCount i))) h.entries
    simp only [← List.map_take, List.filterMap_map] at hmap
    rw [OutOfOrder.renames, List.filterMap_map]
    exact hmap.symm
  have hmap : apply x.core.retiredMap
      (OutOfOrder.renames ((x.live.take (x.core.retireCount i)).map InFlight.op)) =
        (x.core.step i).retiredMap := by
    rw [hren, filterMap_take_window h.rename.pointers hm, step_retiredMap h.classes]
    cases x.core.retired i destination <;> cases x.core.retiredTwo destination <;> rfl
  have hseq : seq (semantics sem) (seq (semantics sem) vals x.retired)
      (insts ((x.live.take (x.core.retireCount i)).map InFlight.op)) =
        seq (semantics sem) vals (x.cycle i).retired := by
    rw [← seq_append, insts, List.map_map]
    rfl
  rw [hmap, hseq] at hcommit
  exact hcommit

/-! ## Completion -/

/-- A slot is complete when it was, when it is reported, or when it is allocated folded. -/
theorem mem_writeDone {done : BitVec 32} {p : RobPtr}
    (h : (writeDone i done).getLsbD p.toNat = true) : Reports i p ∨ done.getLsbD p.toNat = true := by
  have hw : 2 ^ 5 ≤ 32 := by decide
  rw [writeDone, BitMask.getLsbD_setBitIf hw, BitMask.getLsbD_setBitIf hw,
    BitMask.getLsbD_setBitIf hw] at h
  split_ifs at h with h1 h2 h3
  · exact Or.inl (Or.inr (Or.inr ⟨h1.1, h1.2.symm⟩))
  · exact Or.inl (Or.inr (Or.inl ⟨h2.1, h2.2.symm, h⟩))
  · exact Or.inl (Or.inl ⟨h3.1, h3.2.symm, h⟩)
  · exact Or.inr h

/-- The slots move by what retires. -/
theorem step_slot (hf : s.flushes = false) (k : ℕ) :
    (s.step i).robHeadPtr + BitVec.ofNat 6 k =
      s.robHeadPtr + BitVec.ofNat 6 (s.retireCount i + k) := by
  rw [step_robHeadPtr hf, BitVec.add_assoc, ← BitVec.ofNat_add]

/-- The complete bits of the un-retired slots and of the allocated ones. -/
theorem contents_doneAllocated (hp : s.Pointers) :
    Ring.contents (fun p => (s.doneAllocated i).getLsbD p.toNat) s.robHeadPtr
        (s.robCount + s.allocCount i) =
      Ring.contents (fun p => s.robComplete.getLsbD p.toNat) s.robHeadPtr s.robCount ++
        (newInFlight s i n).map InFlight.done := by
  have hw : 2 ^ 5 ≤ 32 := by decide
  have hbits : (fun p : RobPtr => (s.doneAllocated i).getLsbD p.toNat) =
      Ring.writeIf (s.allocatesTwo i) (Ring.slot s.robNextTailPtr) s.tFoldUop2
        (Ring.writeIf (s.allocates i) (Ring.slot s.robTailPtr) s.tFoldUop
          fun p => s.robComplete.getLsbD p.toNat) := by
    funext p
    rw [doneAllocated, BitMask.getLsbD_setBitIf hw, BitMask.getLsbD_setBitIf hw, Ring.writeIf_apply,
      Ring.writeIf_apply]
  rw [hbits, done_newInFlight]
  exact Ring.contents_writeIf (fun h => (allocatesTwo_allocates h).1) hp.robNextTail
    (allocCount_room hp) _ _

/-- A slot that is complete before the results of the cycle held a complete uop, or takes a folded
one. -/
theorem Inv.doneAllocated (h : x.Inv sem vals) {l : InFlight}
    (hl : (x.live ++ x.core.newInFlight i x.count)[k]? = some l)
    (hbit : (x.core.doneAllocated i).getLsbD
      (Ring.slot (x.core.robHeadPtr + BitVec.ofNat 6 k)).toNat = true) :
    x.live[k]? = some l ∧ x.core.robComplete.getLsbD
        (Ring.slot (x.core.robHeadPtr + BitVec.ofNat 6 k)).toNat = true ∨
      l ∈ x.core.newInFlight i x.count ∧ l.done = true := by
  have hcont := contents_doneAllocated (i := i) (n := x.count) h.rename.pointers
  have hnew : (x.core.newInFlight i x.count).length = x.core.allocCount i := by
    rw [← List.length_map (f := InFlight.done), done_newInFlight, allocCount]
    split_ifs <;> rfl
  have hlt := (List.getElem?_eq_some_iff.mp hl).1
  rw [List.length_append, hnew, h.length] at hlt
  have hnth := congrArg (fun r => r[k]?) hcont
  simp only [Ring.getElem?_contents _ _ hlt, hbit] at hnth
  by_cases hk : k < x.core.robCount
  · rw [List.getElem?_append_left (by rwa [Ring.length_contents]),
      Ring.getElem?_contents _ _ hk] at hnth
    rw [List.getElem?_append_left (by rwa [h.length])] at hl
    exact Or.inl ⟨hl, (Option.some.inj hnth).symm⟩
  · rw [List.getElem?_append_right (by rw [Ring.length_contents]; omega), Ring.length_contents,
      List.getElem?_map] at hnth
    rw [List.getElem?_append_right (by rw [h.length]; omega), h.length] at hl
    rw [hl] at hnth
    exact Or.inr ⟨List.mem_of_getElem? hl, (Option.some.inj hnth).symm⟩

theorem Inv.step_complete (h : x.Inv sem vals) (hf : x.core.flushes = false)
    (hdone : ∀ k < (x.live ++ x.core.newInFlight i x.count).length,
      Reports i (Ring.slot (x.core.robHeadPtr + BitVec.ofNat 6 k)) →
        ∀ l ∈ (x.live ++ x.core.newInFlight i x.count)[k]?, l.done = true) :
    ∀ k, ∀ l ∈ ((x.live ++ x.core.newInFlight i x.count).drop (x.core.retireCount i))[k]?,
      (x.core.step i).robComplete.getLsbD
          (Ring.slot ((x.core.step i).robHeadPtr + BitVec.ofNat 6 k)).toNat = true →
        l.done = true := by
  intro k l hl hbit
  rw [List.getElem?_drop] at hl
  rw [step_slot hf, step_robComplete hf] at hbit
  rcases mem_writeDone hbit with hrep | hbit
  · exact hdone _ (List.getElem?_eq_some_iff.mp hl).1 hrep l hl
  · rcases h.doneAllocated hl hbit with ⟨hold, hbit⟩ | ⟨-, hdone⟩
    · exact h.complete _ l hold hbit
    · exact hdone

/-! ## Steps and runs -/

theorem Inv.cycle (h : x.Inv sem vals) (hg : x.Admits (.cycle i)) : (x.cycle i).Inv sem vals := by
  obtain ⟨hbank, hfold, hdone⟩ := hg
  have hp := h.rename.pointers
  have hissue := h.issue hfold
  obtain ⟨hholds, hsound⟩ := h.commit hbank.2 hissue
  have hrename := step_renameInv h.rename hbank
  have hclasses := step_classInv h.classes hbank.2
  unfold Flow.cycle at hholds hsound ⊢
  cases hf : x.core.flushes with
  | true =>
    rw [if_pos rfl]
    refine ⟨hrename, hclasses, ?_, fun l hl => absurd hl List.not_mem_nil, fun k l hl => ?_, trivial,
      hholds⟩
    · exact congrArg (List.map destination) (step_flush hf).2.2.2
    · cases hl
  | false =>
    rw [if_neg Bool.false_ne_true]
    refine ⟨hrename, hclasses, ?_, fun l hl => ?_, h.step_complete hf hdone, hsound, hholds⟩
    · exact step_window_view stable_destination hp hbank.2 hf h.entries map_newInFlight.symm
    · rcases List.mem_append.mp (List.mem_of_mem_drop hl) with hl | hl
      · exact h.targets l hl
      · exact targets_newInFlight h.classes.decoded l hl

/-- A result leaves the rest of the record as it is. -/
theorem map_set_done {β : Type*} {f : InFlight → β} (hf : ∀ l, f { l with done := true } = f l)
    {live : List InFlight} {l : InFlight} (hk : live[k]? = some l) :
    (live.set k { l with done := true }).map f = live.map f := by
  rw [List.map_set, hf]
  apply List.ext_getElem?
  intro j
  rw [List.getElem?_set]
  split_ifs with hj
  · rw [← hj, List.getElem?_map, hk]
    rfl
  · rw [List.getElem?_eq_none (by omega)]
  · rfl

/-- A result lands where the entry says. -/
theorem Inv.writeResult (h : x.Inv sem vals) {l : InFlight} (hl : l ∈ x.live) :
    x.writeResult sem l = OutOfOrder.complete (semantics sem) l.op x.file := by
  have ht := h.targets l hl
  unfold Flow.writeResult OutOfOrder.complete
  change (target l.renamed).elim _ _ = (destination l.entry).elim _ _
  rw [ht]
  cases destination l.entry <;> rfl

theorem Inv.result (h : x.Inv sem vals) (hg : x.Admits (.result k)) :
    (x.result sem k).Inv sem vals := by
  unfold Flow.result
  cases hk : x.live[k]? with
  | none => exact h
  | some l =>
    obtain ⟨hlt, hget⟩ := List.getElem?_eq_some_iff.mp hk
    have hmem : l ∈ x.live := hget ▸ List.getElem_mem hlt
    have hset : x.live.set k { l with done := true } =
        x.live.take k ++ { l with done := true } :: x.live.drop (k + 1) := by
      rw [List.set_eq_take_append_cons_drop, if_pos hlt]
    have hlive : x.live = x.live.take k ++ l :: x.live.drop (k + 1) := by
      rw [← hget, List.cons_getElem_drop_succ, List.take_append_drop]
    have hcoh := coherent h.rename h.classes
    rw [← h.renames] at hcoh
    have hready : Ready (x.live.map InFlight.op) l.op := by
      intro q hq hnd e he hread
      obtain ⟨r, hr, rfl⟩ := List.mem_map.mp hq
      refine hg l hk r hr hnd e.new ?_ e.new hread rfl
      rw [h.targets r hr]
      exact Option.mem_map_of_mem _ he
    have hops : x.live.map InFlight.op =
        (x.live.take k).map InFlight.op ++ l.op :: (x.live.drop (k + 1)).map InFlight.op := by
      rw [← List.map_cons, ← List.map_append, ← hlive]
    have hsound := h.sound
    have hnodup := hcoh.nodup
    have hfresh := hcoh.fresh
    rw [hops] at hsound hnodup hfresh hready
    obtain ⟨hs, hh⟩ := hsound.complete h.holds hnodup hfresh hready
    refine ⟨h.rename, h.classes, ?_, fun r hr => ?_, fun j r hr hbit => ?_, ?_, ?_⟩
    · exact h.entries.trans (map_set_done (f := fun l => destination l.entry) (fun _ => rfl) hk).symm
    · rcases List.mem_or_eq_of_mem_set hr with hr | rfl
      · exact h.targets r hr
      · exact h.targets l hmem
    · rw [Option.elim_some, List.getElem?_set] at hr
      split_ifs at hr
      · obtain rfl := Option.some.inj hr
        rfl
      · exact h.complete j r hr hbit
    · change Sound _ (x.writeResult sem l) _ _ ((x.live.set k { l with done := true }).map InFlight.op)
      rw [hset, List.map_append, List.map_cons, h.writeResult hmem]
      exact hs
    · change Holds (x.writeResult sem l) _ _
      rw [h.writeResult hmem]
      exact hh

theorem Inv.step (h : x.Inv sem vals) {e : FlowEvent} (hg : x.Admits e) :
    (x.step sem e).Inv sem vals := by
  cases e with
  | cycle i => exact h.cycle hg
  | result k => exact h.result hg

/-- Reset, with any physical registers. -/
def reset (rob : RobPtr → RobEntry) (dq : BitVec 2 → Uop) (file : Loc → V) : Flow V where
  core := Core.reset rob dq
  count := 0
  live := []
  retired := []
  file := file

/-- The architectural registers that reset shows. -/
def resetVals (file : Loc → V) : Name → V :=
  fun a => file ((Core.reset (fun _ => {}) fun _ => {}).retiredMap a)

theorem reset_inv (rob : RobPtr → RobEntry) (dq : BitVec 2 → Uop) (file : Loc → V) :
    (reset rob dq file).Inv sem (resetVals file) where
  rename := reset_renameInv rob dq
  classes := reset_classInv rob dq
  entries := by
    have hw : (Core.reset rob dq).window = [] := by
      rw [window, show (Core.reset rob dq).robCount = 0 by simp [robCount, Core.reset]]
      rfl
    change (Core.reset rob dq).window.map destination = []
    rw [hw]
    rfl
  targets l hl := absurd hl List.not_mem_nil
  complete k l hl := by cases hl
  sound := trivial
  holds _ := rfl

/-- The uops behave as in order: the committed registers, the results of un-retired uops, and the
speculative registers that no pending uop is to write. -/
structure InOrder (sem : ℕ × Uop → List V → V) (file : Loc → V) (x : Flow V) : Prop where
  committed : ∀ a, x.file (x.core.retiredMap a) =
    seq (semantics sem) (resetVals file) x.retired a
  result : ∀ k, ∀ l ∈ x.live[k]?, l.done = true → ∀ p ∈ target l.renamed,
    x.file p = sem (l.num, l.uop) ((srcs l.uop).map (seq (semantics sem) (resetVals file)
      (x.retired ++ (x.live.take k).map fun q => (q.num, q.uop))))
  speculative : ∀ a, (∀ q ∈ x.live, q.done = false → ∀ p ∈ target q.renamed, p ≠ x.core.allocMap a) →
    x.file (x.core.allocMap a) = seq (semantics sem) (resetVals file)
      (x.retired ++ x.live.map fun q => (q.num, q.uop)) a

/-- A result that has been written is the one that the uop has in order. -/
theorem Inv.value (h : x.Inv sem vals) {l : InFlight} (hl : x.live[k]? = some l)
    (hdone : l.done = true) {p : Loc} (hp : p ∈ target l.renamed) :
    x.file p = sem (l.num, l.uop) ((srcs l.uop).map (seq (semantics sem) vals
      (x.retired ++ (x.live.take k).map fun q => (q.num, q.uop)))) := by
  obtain ⟨hlt, hget⟩ := List.getElem?_eq_some_iff.mp hl
  have hlive : x.live = x.live.take k ++ l :: x.live.drop (k + 1) := by
    rw [← hget, List.cons_getElem_drop_succ, List.take_append_drop]
  have hsound := h.sound
  rw [hlive, List.map_append, List.map_cons] at hsound
  obtain ⟨-, ⟨-, -, hval⟩, -⟩ := sound_append.mp hsound
  rw [h.targets l (hget ▸ List.getElem_mem hlt)] at hp
  obtain ⟨e, he, rfl⟩ := Option.map_eq_some_iff.mp hp
  have hseq := hval hdone e he
  rw [insts, List.map_map, ← seq_append] at hseq
  exact hseq

theorem Inv.inOrder {file : Loc → V} (h : x.Inv sem (resetVals file)) : x.InOrder sem file where
  committed := h.holds
  result k l hl hdone p hp := h.value hl hdone hp
  speculative a hp := by
    have hcur := h.sound.current (a := a) (fun _ => h.holds a) fun q hq hnd e he => ?_
    · rw [h.allocMap, insts, List.map_map, ← seq_append] at hcur
      exact hcur
    · obtain ⟨r, hr, rfl⟩ := List.mem_map.mp hq
      rw [h.allocMap]
      refine hp r hr hnd e.new ?_
      rw [h.targets r hr]
      exact Option.mem_map_of_mem _ he

/-- Whatever uops compute, and in whatever order their results are written, every run from reset
leaves the registers that the retired uops leave in order. -/
theorem run_inOrder (sem : ℕ × Uop → List V → V) (rob : RobPtr → RobEntry) (dq : BitVec 2 → Uop)
    (file : Loc → V) (events : List FlowEvent)
    (h : Clocked.Guarded (fun x e => x.step sem e) Admits (reset rob dq file) events) :
    (Clocked.run (fun x e => x.step sem e) (reset rob dq file) events).InOrder sem file :=
  (h.invariant (fun _ _ hx hg => Inv.step hx hg) (reset_inv rob dq file)).inOrder

/-- Two moves and their sum, whose results are written with the second move first. -/
def sumEvents : List FlowEvent :=
  [.cycle { resume := true }, .cycle { restartAck := true },
    .cycle { insnValid := true, insn := moviInsn 3, insnValidTwo := true, insnTwo := moviInsn 4 },
    .cycle { insnValid := true, insn := { data := 0x00642821#32 } }, .cycle {},
    .result 1, .result 0, .result 2,
    .cycle { completeValid1 := true, completeBundle1 := { robPtr := 1, complete := true } },
    .cycle { completeValid1 := true, completeBundle1 := { robPtr := 0, complete := true }
             completeValid2 := true, completeBundle2 := { robPtr := 2, complete := true } },
    .cycle {}, .cycle {}]

theorem run_inOrder_sum :
    (Clocked.run (fun x e => Flow.step (fun i vs => i.1 + vs.sum) x e)
      (reset (fun _ => {}) (fun _ => {}) fun _ => 0) sumEvents).InOrder
        (fun i vs => i.1 + vs.sum) fun _ => 0 :=
  run_inOrder _ _ _ _ _ ((Clocked.checks_iff admitsCheck_iff).mp (by decide +kernel))

end Flow

end Core
end MipsCore
