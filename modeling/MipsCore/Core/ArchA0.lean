import MipsCore.Core.RobPointers
import MipsCore.Core.Restart
import Mathlib.Data.List.Permutation

/-! # The shadow of $a0

The integer registers as the retired instructions leave them, in program order.
The register that holds the address of a flushed line follows $4 as long as no
second retirement changes it.
-/
namespace MipsCore
open Clocked

namespace Core
variable {s : Core} {i : CoreIn}

/-! ## Destinations -/

def entryDst (e : RobEntry) : Option ArchReg := if e.validDst then some e.ldst else none
def uopDst (u : Uop) : Option ArchReg := if u.dstValid then some (u.dst.setWidth 5) else none

theorem entryDst_stable : Stable entryDst := ⟨fun _ _ => rfl, fun _ _ => rfl⟩

theorem entryDst_foldEntry (fold : Bool) (op : Opcode) (e : RobEntry) :
    entryDst (foldEntry fold op e) = entryDst e := by
  unfold foldEntry
  split_ifs <;> rfl

theorem entryDst_tRobTail : entryDst s.tRobTail = uopDst s.tUop := by
  rw [tRobTail, entryDst_foldEntry, uopDst]
  unfold destEntry
  split_ifs <;> rfl

theorem entryDst_tRobNextTail : entryDst s.tRobNextTail = uopDst s.tUop2 := by
  rw [tRobNextTail, entryDst_foldEntry, uopDst]
  unfold destEntry2
  split_ifs <;> rfl

theorem newEntries_dst : (s.newEntries i).map entryDst = (s.allocUops i).map uopDst := by
  unfold newEntries allocUops
  split_ifs
  · rw [List.map_cons, List.map_singleton, entryDst_tRobTail, entryDst_tRobNextTail]
    rfl
  · rw [List.map_singleton, entryDst_tRobTail]
    rfl
  · rfl

/-! ## The request to flush a line -/

theorem faultDispatch_flushCl (c : Comb) : (faultDispatch s i c).nFlushClReq = c.nFlushClReq := by
  obtain ⟨_, _, _, he⟩ := faultDispatch_eq s i c
  rw [he]

theorem combSerialize_flushCl {c : Comb} (hc : c.nFlushClReq = false)
    (h : (combSerialize s c).nFlushClReq = true) : (combSerialize s c).nFlushClAddr = s.archA0 := by
  unfold combSerialize at h ⊢
  split_ifs at h ⊢ <;> simp_all

theorem combAllocRetire_flushCl (c : Comb) :
    (combAllocRetire s i c).nFlushClReq = c.nFlushClReq := by
  unfold combAllocRetire
  split_ifs <;> rfl

theorem combAllocIdle_flushCl {c : Comb} (hc : c.nFlushClReq = false)
    (h : (combAllocIdle s i c).nFlushClReq = true) :
    s.tRobEmpty = true ∧ (combAllocIdle s i c).nFlushClAddr = s.archA0 := by
  unfold combAllocIdle at h ⊢
  split_ifs at h ⊢ with h1 h2
  · rw [Bool.and_eq_true] at h1
    exact ⟨h1.2, combSerialize_flushCl hc h⟩
  · exact absurd h (by simp [hc])
  · exact absurd h (by simp [hc])

theorem combActive_flushCl {c : Comb} (hc : c.nFlushClReq = false)
    (h : (combActive s i c).nFlushClReq = true) :
    s.tRobEmpty = true ∧ (combActive s i c).nFlushClAddr = s.archA0 := by
  unfold combActive at h ⊢
  split_ifs at h ⊢
  · exact absurd h (by simp [hc])
  · exact absurd h (by simp [combFault, faultDispatch_flushCl, hc])
  · exact absurd h (by simp [combAllocRetire_flushCl, hc])
  · exact absurd h (by simp [hc])
  · exact combAllocIdle_flushCl hc h
  · exact absurd h (by simp [hc])

theorem withDelaySlot_flushCl (c : Comb) :
    (withDelaySlot s c).nFlushClReq = c.nFlushClReq ∧
      (withDelaySlot s c).nFlushClAddr = c.nFlushClAddr := by
  unfold withDelaySlot
  split_ifs <;> exact ⟨rfl, rfl⟩

/-- A line is flushed at the address in the shadow, and only when the buffer is empty. -/
theorem step_flushCl (h : (s.step i).flushClReq = true) :
    s.tRobEmpty = true ∧ (s.step i).flushClAddr = s.archA0 := by
  obtain ⟨hreq, haddr⟩ := withDelaySlot_flushCl (s := s) (combState s i (combDefault s i))
  change (withDelaySlot s _).nFlushClReq = true at h
  change _ ∧ (withDelaySlot s _).nFlushClAddr = _
  rw [hreq] at h
  rw [haddr]
  have hd : (combDefault s i).nFlushClReq = false := rfl
  unfold combState at h ⊢
  cases hs : s.state with
  | ACTIVE =>
    rw [hs] at h
    exact combActive_flushCl hd h
  | _ =>
    rw [hs] at h
    simp only [combDrain, combExceptionDrain, combRat, combAllocForSerialize, combAllocForMonitor,
      combRestartHead, combWaitForSerialize, combWaitForMonitor, combMonitorFlushCache,
      combHandleMonitor, combFlushForHalt, combHalt, combHaltWaitForRestart, writeCpr0,
      combWriteEpc, combWriteCause, combWriteBadvaddr] at h
    (try split_ifs at h) <;> simp_all

/-! ## Retired results -/

/-- The integer registers after an instruction has retired with a result. -/
def commit (regs : ArchReg → Word) (r : Uop × Word) : ArchReg → Word :=
  match uopDst r.1 with
  | some d => Function.update regs d r.2
  | none => regs

theorem commit_apply (regs : ArchReg → Word) (r : Uop × Word) (d : ArchReg) :
    commit regs r d = if uopDst r.1 = some d then r.2 else regs d := by
  unfold commit
  cases hu : uopDst r.1 with
  | none => rfl
  | some k =>
    by_cases hk : k = d
    · rw [hk, if_pos rfl]
      exact Function.update_self ..
    · rw [if_neg fun h => hk (Option.some.inj h)]
      exact Function.update_of_ne (Ne.symm hk) ..

theorem step_archA0 :
    (s.step i).archA0 =
      if s.retires i = true ∧ entryDst s.tRobHead = some 4 then s.tRobHead.data else s.archA0 := by
  have hstep : (s.step i).archA0 =
      if s.tRobHead.validDst && (s.comb i).tRetire && s.tRobHead.ldst == 4 then s.tRobHead.data
      else s.archA0 := rfl
  rw [hstep, comb_tRetire, entryDst]
  cases s.tRobHead.validDst <;> cases s.retires i <;> simp

end Core

/-- The core, the uops in its reorder buffer, and the integer registers as the retired
instructions leave them. -/
structure ArchLedger where
  core : Core
  live : List Uop
  regs : ArchReg → Word

namespace ArchLedger
open MipsCore.Core (entryDst uopDst commit)
variable (h : ArchLedger) (i : CoreIn)

def reset (rob : RobPtr → RobEntry) (dq : BitVec 2 → Uop) : ArchLedger where
  core := Core.reset rob dq
  live := []
  regs := fun _ => 0

/-- The instructions that the cycle retires, with the results in their entries. -/
def retiring : List (Uop × Word) :=
  (h.live.zip (h.core.window.map RobEntry.data)).take (h.core.retireCount i)

def step : ArchLedger where
  core := h.core.step i
  live :=
    if h.core.flushes then [] else (h.live ++ h.core.allocUops i).drop (h.core.retireCount i)
  regs := (h.retiring i).foldl commit h.regs

/-- The shadow holds $4, and a line that is flushed is the one that $4 names. -/
structure ShadowCurrent : Prop where
  current : h.core.archA0 = h.regs 4
  used : (h.step i).core.flushClReq = true →
    h.core.tRobEmpty = true ∧ (h.step i).core.flushClAddr = h.regs 4

/-- The second of two retirements leaves $4 as the first one left it. -/
def SecondKeeps : Prop :=
  h.core.retiresTwo = true →
    (h.retiring i).foldl commit h.regs 4 = ((h.retiring i).take 1).foldl commit h.regs 4

/-- The allocation of a monitor call is not refused, and no second retirement changes $4. -/
def Keeps : Prop := h.core.MonitorRoom i ∧ h.SecondKeeps i

instance : Decidable (h.SecondKeeps i) := inferInstanceAs (Decidable (_ → _))
instance : Decidable (h.Keeps i) := inferInstanceAs (Decidable (_ ∧ _))

structure Inv : Prop where
  rob : h.core.RobInv
  live : h.core.window.map entryDst = h.live.map uopDst
  shadow : h.core.archA0 = h.regs 4

variable {h i}

theorem reset_inv (rob : RobPtr → RobEntry) (dq : BitVec 2 → Uop) : (reset rob dq).Inv where
  rob := Core.reset_robInv rob dq
  live := by
    have hcount : (Core.reset rob dq).robCount = 0 := by simp [Core.robCount, Core.reset]
    change (Core.reset rob dq).window.map entryDst = []
    rw [Core.window, hcount]
    rfl
  shadow := rfl

/-- The oldest of what a cycle retires is the head of the buffer. -/
theorem Inv.retiring_head (hi : h.Inv) (hr : h.core.retires i = true) :
    ∃ u rest, h.live.zip (h.core.window.map RobEntry.data) = (u, h.core.tRobHead.data) :: rest ∧
      uopDst u = entryDst h.core.tRobHead := by
  have hne := Core.retires_nonempty hi.rob.pointers hi.rob.monitorAllocated hr
  obtain ⟨es, hw⟩ := Core.window_cons (Core.robCount_pos.mpr hne)
  have hl := hi.live
  rw [hw, List.map_cons] at hl
  cases hlive : h.live with
  | nil => rw [hlive] at hl; cases hl
  | cons u us =>
    rw [hlive, List.map_cons] at hl
    rw [hw]
    exact ⟨u, _, rfl, (List.cons.inj hl).1.symm⟩

/-- What the first retirement makes of $4 is what the shadow becomes. -/
theorem Inv.first_retired (hi : h.Inv) :
    (h.step i).core.archA0 = ((h.retiring i).take 1).foldl commit h.regs 4 := by
  have hstep : (h.step i).core = h.core.step i := rfl
  rw [hstep, Core.step_archA0, hi.shadow, retiring, Core.retireCount]
  cases hr : h.core.retires i with
  | false => simp
  | true =>
    obtain ⟨u, rest, hz, hd⟩ := hi.retiring_head hr
    have htake : ((h.live.zip (h.core.window.map RobEntry.data)).take
        (if h.core.retiresTwo then 2 else 1)).take 1 = [(u, h.core.tRobHead.data)] := by
      rw [hz]
      cases h.core.retiresTwo <;> rfl
    rw [if_pos rfl, htake, List.foldl_cons, List.foldl_nil, Core.commit_apply, hd]
    simp

theorem step_inv (hi : h.Inv) (hg : h.Keeps i) : (h.step i).Inv where
  rob := Core.step_robInv hi.rob hg.1
  live := by
    have hp := hi.rob.pointers
    have hm := hi.rob.monitorAllocated (i := i)
    have hstep : (h.step i).core = h.core.step i := rfl
    cases hf : h.core.flushes with
    | true => rw [hstep, (Core.step_flush hf).2.2.2, step, hf]; rfl
    | false =>
      rw [hstep, Core.step_window_view Core.entryDst_stable hp hm hf hi.live Core.newEntries_dst,
        step, hf]
      rfl
  shadow := by
    have hregs : (h.step i).regs = (h.retiring i).foldl commit h.regs := rfl
    rw [hi.first_retired, hregs]
    cases h2 : h.core.retiresTwo with
    | true => exact (hg.2 h2).symm
    | false =>
      have hone : (h.retiring i).take 1 = h.retiring i := by
        rw [retiring, List.take_take, Core.retireCount, h2]
        cases h.core.retires i <;> rfl
      rw [hone]

theorem Inv.shadowCurrent (hi : h.Inv) : h.ShadowCurrent i where
  current := hi.shadow
  used hreq := by
    obtain ⟨he, ha⟩ := Core.step_flushCl hreq
    exact ⟨he, ha.trans hi.shadow⟩

/-- In every run in which no second retirement changes $4 and no monitor call is refused, the
shadow holds $4 in every state. -/
theorem run_shadowCurrent (rob : RobPtr → RobEntry) (dq : BitVec 2 → Uop) (inputs : List CoreIn)
    (i : CoreIn) (hg : Guarded step Keeps (reset rob dq) inputs) :
    (run step (reset rob dq) inputs).ShadowCurrent i :=
  (hg.invariant (fun _ _ hi hs => step_inv hi hs) (reset_inv rob dq)).shadowCurrent

/-- A load and an instruction behind it that completes first, and the call that flushes a line. -/
def pairRun (first second : BitVec 32) : List CoreIn :=
  [{ resume := true }, { restartAck := true },
    { insnValid := true, insn := { data := first }, insnValidTwo := true, insnTwo := { data := second } },
    { insnValid := true, insn := { data := 0x00001a05 } }, {}, {}, {},
    { completeValid1 := true, completeBundle1 := { robPtr := 1, complete := true, data := 7 } }, {}, {},
    { coreMemRspValid := true, coreMemRsp := { robPtr := 0, data := 9 } }, {}]

theorem step_eval : step = fun h i => { h.step i with core := h.core.stepEval i } := by
  rw [← Core.step_eq_stepEval]
  rfl

/-- LW $4 and ADDIU $5 behind it, and the line that $4 names. -/
theorem run_shadowCurrent_pair :
    (run step (reset (fun _ => {}) fun _ => {}) (pairRun 0x8cc40000 0x24e50001)).ShadowCurrent {} :=
  run_shadowCurrent _ _ _ _ (by rw [step_eval]; decide +kernel)

/-- The shadow misses ADDIU $4 that retires behind LW $5, and the wrong line is flushed. -/
theorem exists_not_shadowCurrent :
    ¬∀ (rob : RobPtr → RobEntry) (dq : BitVec 2 → Uop) (inputs : List CoreIn) (i : CoreIn),
      (run step (reset rob dq) inputs).core.tRobEmpty = true →
        (run step (reset rob dq) inputs).ShadowCurrent i := by
  intro h
  obtain ⟨hempty, hshadow, hregs⟩ :
      (run step (reset (fun _ => {}) fun _ => {}) (pairRun 0x8cc50000 0x24e40001)).core.tRobEmpty =
          true ∧
        (run step (reset (fun _ => {}) fun _ => {}) (pairRun 0x8cc50000 0x24e40001)).core.archA0 =
          0 ∧
        (run step (reset (fun _ => {}) fun _ => {}) (pairRun 0x8cc50000 0x24e40001)).regs 4 = 7 := by
    rw [step_eval]
    exact ⟨by decide +kernel, by decide +kernel, by decide +kernel⟩
  have hc := (h (fun _ => {}) (fun _ => {}) (pairRun 0x8cc50000 0x24e40001) {} hempty).current
  exact absurd (hshadow.symm.trans (hc.trans hregs)) (by decide)

end ArchLedger
end MipsCore
