import MipsCore.Core.Dataflow

/-! # The registers that the retirement ports show

`top.cc` rebuilds the architectural registers from the two retirement ports of the core.  A port
carries the data of an entry, which completions and memory responses bring; as long as what they
bring is what has been written, the rebuilt registers are those of the retired uops in order.
-/
namespace MipsCore
namespace Core
open Rename OutOfOrder
variable {s : Core} {i : CoreIn}

/-- A port write of an entry: an integer register, a floating-point register, or neither. -/
def portWrite (valid fpValid : Bool) (ptr : ArchReg) (data : Word) (m : Name → Word) : Name → Word :=
  let m := if valid then Function.update m (gpr ptr) data else m
  if fpValid then Function.update m (fpr ptr) data else m

/-- What `top.cc` makes of the ports of a cycle, the first port first. -/
def showPorts (s : Core) (m : Name → Word) : Name → Word :=
  portWrite s.retireRegTwoValid s.retireRegFpTwoValid s.retireRegTwoPtr s.retireRegTwoData <|
    portWrite s.retireRegValid s.retireRegFpValid s.retireRegPtr s.retireRegData m

/-- The data that arrive for a slot. -/
def brings (i : CoreIn) (p : RobPtr) : List Word :=
  (if i.completeValid1 = true ∧ i.completeBundle1.robPtr = p then [i.completeBundle1.data] else []) ++
    (if i.completeValid2 = true ∧ i.completeBundle2.robPtr = p then [i.completeBundle2.data]
      else []) ++
      if i.coreMemRspValid = true ∧ i.coreMemRsp.robPtr = p then [i.coreMemRsp.data] else []

/-- The names and the locations of the two large classes. -/
def isReg {α β γ : Type*} : α ⊕ β ⊕ γ ⊕ γ → Bool
  | .inl _ => true
  | .inr (.inl _) => true
  | .inr (.inr _) => false

/-- What is brought for a uop is what has been written. -/
def Flow.Bears (x : Flow Word) : FlowEvent → Prop
  | .cycle i => ∀ k < (x.live ++ x.core.newInFlight i x.count).length,
      ∀ l ∈ (x.live ++ x.core.newInFlight i x.count)[k]?, ∀ p ∈ target l.renamed, isReg p = true →
        (brings i (Ring.slot (x.core.robHeadPtr + BitVec.ofNat 6 k))).all (· == x.file p) = true
  | .result _ => True

def Flow.bearsCheck (x : Flow Word) : FlowEvent → Bool
  | .cycle i => (List.range (x.live ++ x.core.newInFlight i x.count).length).all fun k =>
      (x.live ++ x.core.newInFlight i x.count)[k]?.all fun l => (target l.renamed).all fun p =>
        !isReg p || (brings i (Ring.slot (x.core.robHeadPtr + BitVec.ofNat 6 k))).all (· == x.file p)
  | .result _ => true

theorem Flow.bearsCheck_iff (x : Flow Word) (e : FlowEvent) : x.bearsCheck e = true ↔ x.Bears e := by
  cases e with
  | cycle i =>
    simp only [bearsCheck, Bears, List.all_eq_true, List.mem_range, Option.all_eq_true,
      Bool.or_eq_true, Bool.not_eq_true', or_iff_not_imp_left, Bool.not_eq_false, Option.mem_def]
  | result k => exact iff_of_true rfl trivial

/-- The machine with the registers that `top.cc` has rebuilt. -/
structure Mirror where
  flow : Flow Word
  shown : Name → Word

namespace Mirror
variable (sem : ℕ × Uop → List Word → Word) (x : Mirror)

def step : FlowEvent → Mirror
  | .cycle i => ⟨x.flow.cycle i, showPorts (x.flow.cycle i).core x.shown⟩
  | .result k => ⟨x.flow.result sem k, x.shown⟩

/-- A complete entry holds what has been written, and the rebuilt registers are the committed
ones. -/
structure Inv (sem : ℕ × Uop → List Word → Word) (vals : Name → Word) (x : Mirror) : Prop where
  flow : x.flow.Inv sem vals
  data : ∀ k, ∀ l ∈ x.flow.live[k]?, ∀ p ∈ target l.renamed, isReg p = true →
    x.flow.core.robComplete.getLsbD
        (Ring.slot (x.flow.core.robHeadPtr + BitVec.ofNat 6 k)).toNat = true →
      (x.flow.core.rob (Ring.slot (x.flow.core.robHeadPtr + BitVec.ofNat 6 k))).data = x.flow.file p
  shown : ∀ a, isReg a = true → x.shown a = x.flow.file (x.flow.core.retiredMap a)

end Mirror

/-! ## Entries at the ports -/

/-- The port write of an entry shows its location under its name. -/
theorem portWrite_entry {e : RobEntry} (hs : SingleClass e) {file : Loc → Word} {m : Name → Word}
    {map : Name → Loc} (hm : ∀ a, isReg a = true → m a = file (map a))
    (hd : ∀ r ∈ destination e, isReg r.new = true → e.data = file r.new) :
    ∀ a, isReg a = true →
      portWrite e.validDst e.validFpDst e.ldst e.data m a = file (write (destination e) map a) := by
  intro a ha
  unfold portWrite
  cases h1 : e.validDst with
  | true =>
    have hfp : e.validFpDst = false := by
      by_contra hf
      simp [(hs.2.2 (by simpa using hf)).1] at h1
    have hdest : destination e = some ⟨gpr e.ldst, gpr e.pdst, gpr e.oldPdst⟩ := by
      simp [destination, either, renameEntry, h1, gpr]
    rw [hfp, hdest]
    change Function.update m (gpr e.ldst) e.data a = file (Function.update map _ _ a)
    by_cases hae : a = gpr e.ldst
    · rw [hae, Function.update_self, Function.update_self]
      exact hd _ hdest rfl
    · rw [Function.update_of_ne hae, Function.update_of_ne hae]
      exact hm a ha
  | false =>
    cases h2 : e.validFpDst with
    | true =>
      obtain ⟨-, h3, h4⟩ := hs.2.2 h2
      have hdest : destination e = some ⟨fpr e.ldst, fpr e.pdst, fpr e.oldPdst⟩ := by
        simp [destination, either, renameEntry, fpEntry, renameIf, h1, h2, h3, h4, fpr]
      rw [hdest]
      change Function.update m (fpr e.ldst) e.data a = file (Function.update map _ _ a)
      by_cases hae : a = fpr e.ldst
      · rw [hae, Function.update_self, Function.update_self]
        exact hd _ hdest rfl
      · rw [Function.update_of_ne hae, Function.update_of_ne hae]
        exact hm a ha
    | false =>
      have hne : write (destination e) map a = map a := by
        cases hdest : destination e with
        | none => rfl
        | some r =>
          have hgpr : renameEntry e = none := by simp [renameEntry, h1]
          have hfpr : fpEntry e = none := by simp [fpEntry, renameIf, h2]
          rw [destination, either, hgpr, Option.elim_none, either, hfpr, Option.elim_none] at hdest
          obtain ⟨q, hq, rfl⟩ := Option.map_eq_some_iff.mp hdest
          obtain ⟨q, -, rfl⟩ := Option.map_eq_some_iff.mp hq
          refine Function.update_of_ne (fun hae => ?_) _ _
          rw [hae] at ha
          cases ha
      rw [hne]
      exact hm a ha

/-- What arrives for a slot is brought, or the slot keeps its data and nothing is reported. -/
theorem data_writeResults (m : RobPtr → RobEntry) (p : RobPtr) :
    (writeResults i m p).data ∈ brings i p ∨
      (writeResults i m p).data = (m p).data ∧ ¬Reports i p := by
  unfold writeResults Ring.modifyIf
  rw [Ring.writeIf_apply]
  by_cases h3 : i.coreMemRspValid = true ∧ p = i.coreMemRsp.robPtr
  · refine Or.inl ?_
    rw [if_pos h3]
    refine List.mem_append_right _ ?_
    rw [if_pos ⟨h3.1, h3.2.symm⟩]
    exact List.mem_singleton_self _
  · rw [if_neg h3, Ring.writeIf_apply]
    by_cases h2 : i.completeValid2 = true ∧ p = i.completeBundle2.robPtr
    · refine Or.inl ?_
      rw [if_pos h2]
      refine List.mem_append_left _ (List.mem_append_right _ ?_)
      rw [if_pos ⟨h2.1, h2.2.symm⟩]
      exact List.mem_singleton_self _
    · rw [if_neg h2, Ring.writeIf_apply]
      by_cases h1 : i.completeValid1 = true ∧ p = i.completeBundle1.robPtr
      · refine Or.inl ?_
        rw [if_pos h1]
        refine List.mem_append_left _ (List.mem_append_left _ ?_)
        rw [if_pos ⟨h1.1, h1.2.symm⟩]
        exact List.mem_singleton_self _
      · rw [if_neg h1]
        refine Or.inr ⟨rfl, ?_⟩
        rintro (⟨hv, hp, -⟩ | ⟨hv, hp, -⟩ | ⟨hv, hp⟩)
        · exact h1 ⟨hv, hp.symm⟩
        · exact h2 ⟨hv, hp.symm⟩
        · exact h3 ⟨hv, hp.symm⟩

namespace Mirror
variable {sem : ℕ × Uop → List Word → Word} {vals : Name → Word} {x : Mirror} {k : ℕ}

/-! ## Results -/

/-- A result that has been written stays: it is the value that the uop has in order. -/
theorem Inv.result_keeps (h : x.Inv sem vals) (hf : x.flow.Admits (.result k)) {j : ℕ} {l : InFlight}
    (hl : x.flow.live[j]? = some l) (hdone : l.done = true) {p : Loc} (hp : p ∈ target l.renamed) :
    (x.flow.result sem k).file p = x.flow.file p := by
  have hnext := h.flow.result hf
  rw [h.flow.value hl hdone hp]
  unfold Flow.result at hnext ⊢
  cases hk : x.flow.live[k]? with
  | none => exact h.flow.value hl hdone hp
  | some q =>
    rw [hk] at hnext
    have hsame := Flow.map_set_done (f := fun l => (l.num, l.uop)) (fun _ => rfl) hk
    have htake : ((x.flow.live.set k { q with done := true }).take j).map (fun l => (l.num, l.uop)) =
        (x.flow.live.take j).map fun l => (l.num, l.uop) := by
      rw [List.map_take, hsame, List.map_take]
    have hget : (x.flow.live.set k { q with done := true })[j]? = some l := by
      rw [List.getElem?_set]
      split_ifs with hkj hlt
      · rw [← hkj, hk] at hl
        obtain rfl := Option.some.inj hl
        rw [← hdone]
      · rw [← hkj, List.getElem?_eq_none (by omega)] at hl
        cases hl
      · exact hl
    have hval := hnext.value hget hdone hp
    rw [← htake]
    exact hval

/-- A result changes neither the core nor what a uop reads and writes. -/
theorem result_core (y : Flow Word) : (y.result sem k).core = y.core := by
  unfold Flow.result
  cases y.live[k]? <;> rfl

theorem result_retired (y : Flow Word) : (y.result sem k).retired = y.retired := by
  unfold Flow.result
  cases y.live[k]? <;> rfl

theorem result_live {y : Flow Word} {j : ℕ} {r : InFlight}
    (hr : (y.result sem k).live[j]? = some r) :
    ∃ l, y.live[j]? = some l ∧ l.renamed = r.renamed := by
  unfold Flow.result at hr
  cases hk : y.live[k]? with
  | none =>
    rw [hk] at hr
    exact ⟨r, hr, rfl⟩
  | some q =>
    rw [hk, Option.elim_some, List.getElem?_set] at hr
    by_cases hkj : k = j
    · rw [if_pos hkj] at hr
      split_ifs at hr
      obtain rfl := Option.some.inj hr
      exact ⟨q, hkj ▸ hk, rfl⟩
    · rw [if_neg hkj] at hr
      exact ⟨r, hr, rfl⟩

theorem Inv.result (h : x.Inv sem vals) (hf : x.flow.Admits (.result k)) :
    (x.step sem (.result k)).Inv sem vals := by
  have hnext := h.flow.result hf
  have hcore : (x.flow.result sem k).core = x.flow.core := result_core x.flow
  refine ⟨hnext, fun j r hr p hp hreg hbit => ?_, fun a ha => ?_⟩
  · obtain ⟨l, hl, hren⟩ := result_live hr
    rw [← hren] at hp
    change (x.flow.result sem k).core.robComplete.getLsbD
      (Ring.slot ((x.flow.result sem k).core.robHeadPtr + _)).toNat = true at hbit
    change ((x.flow.result sem k).core.rob (Ring.slot ((x.flow.result sem k).core.robHeadPtr + _))).data
      = (x.flow.result sem k).file p
    rw [hcore] at hbit ⊢
    rw [h.result_keeps hf hl (h.flow.complete j l hl hbit) hp]
    exact h.data j l hl p hp hreg hbit
  · change x.shown a = (x.flow.result sem k).file ((x.flow.result sem k).core.retiredMap a)
    rw [hnext.holds a, result_retired, ← h.flow.holds a]
    exact h.shown a ha

/-! ## Cycles -/

theorem robAllocated_old (hp : s.Pointers) (hk : k < s.robCount) :
    s.robAllocated i (Ring.slot (s.robHeadPtr + BitVec.ofNat 6 k)) =
      s.rob (Ring.slot (s.robHeadPtr + BitVec.ofNat 6 k)) := by
  have hnth := congrArg (fun r => r[k]?) (contents_robAllocated (i := i) hp)
  rw [Ring.getElem?_contents _ _ (by omega), List.getElem?_append_left
    (by rwa [window, Ring.length_contents]), window, Ring.getElem?_contents _ _ hk] at hnth
  exact Option.some.inj hnth

/-- The data of a complete entry after a cycle. -/
theorem Inv.cycle_data (h : x.Inv sem vals) {i : CoreIn} (hg : x.flow.Bears (.cycle i))
    (hfold : ∀ l ∈ x.flow.core.newInFlight i x.flow.count, l.done = true → dst l.uop = none)
    (hf : x.flow.core.flushes = false) :
    ∀ k, ∀ l ∈ ((x.flow.live ++ x.flow.core.newInFlight i x.flow.count).drop
        (x.flow.core.retireCount i))[k]?, ∀ p ∈ target l.renamed, isReg p = true →
      (x.flow.core.step i).robComplete.getLsbD
          (Ring.slot ((x.flow.core.step i).robHeadPtr + BitVec.ofNat 6 k)).toNat = true →
        ((x.flow.core.step i).rob
          (Ring.slot ((x.flow.core.step i).robHeadPtr + BitVec.ofNat 6 k))).data = x.flow.file p := by
  intro k l hl p hp hreg hbit
  have hptrs := h.flow.rename.pointers
  rw [List.getElem?_drop] at hl
  rw [Flow.step_slot hf] at hbit ⊢
  rw [step_rob hf]
  rcases data_writeResults (i := i) (x.flow.core.robAllocated i)
    (Ring.slot (x.flow.core.robHeadPtr + BitVec.ofNat 6 (x.flow.core.retireCount i + k)))
    with hbr | ⟨hkeep, hrep⟩
  · have hall := hg _ (List.getElem?_eq_some_iff.mp hl).1 l hl p hp hreg
    exact eq_of_beq (List.all_eq_true.mp hall _ hbr)
  · rw [step_robComplete hf] at hbit
    rcases h.flow.doneAllocated hl ((Flow.mem_writeDone hbit).resolve_left hrep) with
      ⟨hold, hbit⟩ | ⟨hnew, hdone⟩
    · have hlt := (List.getElem?_eq_some_iff.mp hold).1
      rw [h.flow.length] at hlt
      rw [hkeep, robAllocated_old hptrs hlt]
      exact h.data _ l hold p hp hreg hbit
    · -- a folded uop has no destination
      have hnone := hfold l hnew hdone
      rw [← Flow.dst_newInFlight h.flow.classes.decoded l hnew, Option.map_eq_none_iff] at hnone
      rw [Flow.targets_newInFlight h.flow.classes.decoded l hnew, hnone] at hp
      cases hp

/-- The data of the entries that retire. -/
theorem Inv.slot_data (h : x.Inv sem vals) (hk : k < x.flow.core.robCount)
    (hbit : x.flow.core.robComplete.getLsbD
      (Ring.slot (x.flow.core.robHeadPtr + BitVec.ofNat 6 k)).toNat = true) :
    ∀ r ∈ destination (x.flow.core.rob (Ring.slot (x.flow.core.robHeadPtr + BitVec.ofNat 6 k))),
      isReg r.new = true →
        (x.flow.core.rob (Ring.slot (x.flow.core.robHeadPtr + BitVec.ofNat 6 k))).data =
          x.flow.file r.new := by
  intro r hr hreg
  have hlen := h.flow.length
  have hl := List.getElem?_eq_getElem (l := x.flow.live) (i := k) (by omega)
  have hnth := congrArg (fun w => w[k]?) h.flow.entries
  simp only [List.getElem?_map, hl, window, Ring.getElem?_contents _ _ hk, Option.map_some] at hnth
  refine h.data k _ hl r.new ?_ hreg hbit
  rw [h.flow.targets _ (List.getElem_mem _), ← Option.some.inj hnth]
  exact Option.mem_map_of_mem _ hr

theorem Inv.cycle_shown (h : x.Inv sem vals) {i : CoreIn} (hm : x.flow.core.MonitorAllocated i) :
    ∀ a, isReg a = true → showPorts (x.flow.core.step i) x.shown a =
      x.flow.file ((x.flow.core.step i).retiredMap a) := by
  have hp := h.flow.rename.pointers
  have hone : (x.flow.core.step i).retireRegValid =
      (x.flow.core.tRobHead.validDst && x.flow.core.retires i) ∧
      (x.flow.core.step i).retireRegFpValid =
        (x.flow.core.tRobHead.validFpDst && x.flow.core.retires i) := by
    simp [Core.step, clock]
  have htwo : (x.flow.core.step i).retireRegTwoValid =
      (x.flow.core.tRobNextHead.validDst && x.flow.core.retiresTwo) ∧
      (x.flow.core.step i).retireRegFpTwoValid =
        (x.flow.core.tRobNextHead.validFpDst && x.flow.core.retiresTwo) := by
    simp [Core.step, clock]
  unfold showPorts
  rw [hone.1, hone.2, htwo.1, htwo.2, step_retiredMap h.flow.classes]
  unfold retired retiredTwo
  cases hr : x.flow.core.retires i with
  | false =>
    have h2 : x.flow.core.retiresTwo = false := by
      by_contra hc
      simp [(retiresTwo_retires (i := i) (by simpa using hc)).1] at hr
    rw [h2, Bool.and_false, Bool.and_false, Bool.and_false, Bool.and_false]
    exact h.shown
  | true =>
    have hpos := retires_nonempty hp hm hr
    obtain ⟨rest, hw⟩ := window_cons (robCount_pos.mpr hpos)
    have hcomp := Flow.retires_complete hr
    have hdata := h.slot_data hpos (by simpa [tRobHeadComplete] using hcomp)
    rw [show BitVec.ofNat 6 0 = 0#6 from rfl, BitVec.add_zero] at hdata
    have hhead := portWrite_entry (h.flow.classes.single x.flow.core.tRobHead (by simp [hw])) h.shown
      hdata
    rw [Bool.and_true, Bool.and_true, if_pos rfl]
    cases h2 : x.flow.core.retiresTwo with
    | false =>
      rw [Bool.and_false, Bool.and_false]
      exact hhead
    | true =>
      obtain ⟨-, -, hne, hnn⟩ := retiresTwo_retires (i := i) h2
      have hlt := (robCount_one_lt hp hne).mp hnn
      obtain ⟨rest, hw⟩ := window_cons_cons hp hne hnn
      have hcomp := Flow.retiresTwo_complete h2
      rw [tRobNextHeadComplete, hp.robNextHead] at hcomp
      have hdata := h.slot_data hlt hcomp
      rw [Bool.and_true, Bool.and_true, if_pos rfl]
      refine portWrite_entry (h.flow.classes.single x.flow.core.tRobNextHead (by simp [hw])) hhead ?_
      rw [tRobNextHead, hp.robNextHead]
      exact hdata

theorem Inv.cycle (h : x.Inv sem vals) {i : CoreIn} (hg : x.flow.Admits (.cycle i))
    (hb : x.flow.Bears (.cycle i)) : (x.step sem (.cycle i)).Inv sem vals := by
  refine ⟨h.flow.cycle hg, ?_, h.cycle_shown hg.1.2⟩
  change ∀ k, ∀ l ∈ (x.flow.cycle i).live[k]?, _
  unfold Flow.cycle
  cases hf : x.flow.core.flushes with
  | true =>
    intro k l hl
    cases hl
  | false => exact h.cycle_data hb hg.2.1 hf

theorem Inv.step (h : x.Inv sem vals) {e : FlowEvent} (hg : x.flow.Admits e ∧ x.flow.Bears e) :
    (x.step sem e).Inv sem vals := by
  cases e with
  | cycle i => exact h.cycle hg.1 hg.2
  | result k => exact h.result hg.1

theorem step_flow (e : FlowEvent) : (x.step sem e).flow = x.flow.step sem e := by
  cases e <;> rfl

/-- What the ports show does not change the run. -/
theorem guarded_flow {G : Flow Word → FlowEvent → Prop} {events : List FlowEvent}
    (h : Clocked.Guarded (fun x e => x.step sem e) G x.flow events) :
    Clocked.Guarded (fun x e => x.step sem e) (fun x e => G x.flow e) x events := by
  induction events generalizing x with
  | nil => trivial
  | cons e events ih =>
    refine ⟨h.1, ih ?_⟩
    rw [step_flow]
    exact h.2

/-- Reset, with the registers that `top.cc` starts from those of the core. -/
def reset (rob : RobPtr → RobEntry) (dq : BitVec 2 → Uop) (file : Loc → Word) : Mirror where
  flow := Flow.reset rob dq file
  shown := Flow.resetVals file

/-- Two moves and their sum, the second move's result first, with what the ports are to show. -/
def sumReported : List FlowEvent :=
  [.cycle { resume := true }, .cycle { restartAck := true },
    .cycle { insnValid := true, insn := moviInsn 3, insnValidTwo := true, insnTwo := moviInsn 4 },
    .cycle { insnValid := true, insn := { data := 0x00642821#32 } }, .cycle {},
    .result 1, .result 0, .result 2,
    .cycle { completeValid1 := true, completeBundle1 := { robPtr := 1, complete := true, data := 2 } },
    .cycle { completeValid1 := true, completeBundle1 := { robPtr := 0, complete := true, data := 1 }
             completeValid2 := true
             completeBundle2 := { robPtr := 2, complete := true, data := 6 } },
    .cycle {}, .cycle {}]

def sumSem (i : ℕ × Uop) (vs : List Word) : Word := BitVec.ofNat 64 (i.1 + 1) + vs.sum

end Mirror

end Core
end MipsCore
