import MipsCore.Chip.Handoff
import MipsCore.Core.RetireLedger

/-! # From fetch to retirement

Between two entries of the core into its active state the retirement ports report what was in the
reorder buffer at the first of them, and then, in order and each once, the instructions that the
instruction cache has pushed since the restart.
-/
namespace MipsCore
open MipsCore.Core (MonitorAllocated)

/-- The core with its instruction cache, and a record of what has retired since the core became
active. -/
structure Retirement where
  handoff : Handoff
  /-- The pcs in the reorder buffer when the core became active. -/
  entered : List Word
  /-- The pcs at the retirement ports since. -/
  reported : List Word
  /-- The pcs that have been flushed since. -/
  dropped : List Word
  /-- What the cache had pushed since the restart when the core last allocated. -/
  source : List InsnFetch

namespace Retirement
variable (x : Retirement) (i : FrontEndIn)

def reset (rob : RobPtr → RobEntry) (dq : BitVec 2 → Uop) (m : ExecInit) (d : L1iInit) :
    Retirement where
  handoff := Handoff.reset rob dq m d
  entered := []
  reported := []
  dropped := []
  source := []

def core : Core := x.handoff.core
def coreIn : CoreIn := x.handoff.coreIn i
def windowPcs : List Word := x.core.window.map RobEntry.pc

/-- The pcs at the retirement ports in the next cycle. -/
def ports : List Word := (x.core.step (x.coreIn i)).portPcs

def step : Retirement where
  handoff := x.handoff.step i
  entered := if x.handoff.front.reenters i then
    (x.core.step (x.coreIn i)).window.map RobEntry.pc else x.entered
  reported := if x.handoff.front.reenters i then [] else x.reported ++ x.ports i
  dropped := if x.handoff.front.reenters i then [] else
    if x.core.flushes then x.dropped ++ x.windowPcs else x.dropped
  source := if x.handoff.front.reenters i then [] else
    if x.handoff.allocated i = [] then x.source else x.handoff.fetched

/-- What was there and what has been taken since has been reported, is in the reorder buffer or
has been flushed, in that order. -/
structure Inv : Prop where
  handoff : x.handoff.Inv
  pointers : x.core.Pointers
  line : x.entered ++ x.handoff.taken.map Uop.pc = x.reported ++ x.windowPcs ++ x.dropped
  flushed : x.dropped = [] ∨ x.core.flushes = true ∧ x.windowPcs = []
  taken : Handoff.Taken x.handoff.taken x.source
  first : ∀ f fs, x.source = f :: fs → f.pc = x.handoff.entryPc
  active : x.core.state = .ACTIVE → x.source <+: x.handoff.fetched

variable {x i}

theorem step_core : (x.step i).core = x.core.step (x.coreIn i) := rfl

/-- The ports report what leaves the reorder buffer at its head. -/
theorem ports_eq (hp : x.core.Pointers) (hm : x.core.MonitorAllocated (x.coreIn i)) :
    x.ports i = x.windowPcs.take (x.core.retireCount (x.coreIn i)) := by
  refine List.map_injective_iff.mpr (Option.some_injective Word) ?_
  rw [windowPcs, ← List.map_take, List.map_map]
  exact RetireLedger.portPcs_step hp hm

theorem windowPcs_step (hp : x.core.Pointers) (hm : x.core.MonitorAllocated (x.coreIn i))
    (hf : x.core.flushes = false) : (x.step i).windowPcs =
      (x.windowPcs ++ (x.handoff.allocated i).map Uop.pc).drop
        (x.core.retireCount (x.coreIn i)) := by
  have hwin := Core.step_window_map RetireLedger.stable_pc hp hm hf
  have hnew : (x.core.newEntries (x.coreIn i)).map (some ∘ RobEntry.pc) =
      (x.handoff.allocated i).map (some ∘ Uop.pc) := RetireLedger.pc_newEntries
  refine List.map_injective_iff.mpr (Option.some_injective Word) ?_
  rw [List.map_drop, List.map_append, List.map_map, ← hnew, windowPcs, windowPcs, List.map_map,
    List.map_map, ← List.map_append]
  exact hwin

theorem step_stays (hr : x.handoff.front.reenters i = false) :
    (x.step i).entered = x.entered ∧ (x.step i).reported = x.reported ++ x.ports i ∧
      (x.step i).dropped = (if x.core.flushes then x.dropped ++ x.windowPcs else x.dropped) ∧
      (x.step i).source = (if x.handoff.allocated i = [] then x.source else x.handoff.fetched) ∧
      (x.step i).handoff.taken = x.handoff.taken ++ x.handoff.allocated i ∧
      (x.step i).handoff.entryPc = x.handoff.entryPc := by
  simp [step, Handoff.step, hr]

theorem step_enters (hr : x.handoff.front.reenters i = true) :
    (x.step i).entered = (x.step i).windowPcs ∧ (x.step i).reported = [] ∧
      (x.step i).dropped = [] ∧ (x.step i).source = [] ∧ (x.step i).handoff.taken = [] := by
  simp only [step, Handoff.step, hr, if_true, and_self, and_true]
  rfl

theorem flushes_stays (hf : x.core.flushes = true) (hr : x.handoff.front.reenters i = false) :
    (x.step i).core.flushes = true := by
  have hst : x.core.state = .RAT := by simpa [Core.flushes] using hf
  have hr : (x.core.state != .ACTIVE && x.core.nextState (x.coreIn i) == .ACTIVE) = false := hr
  have hnext : (x.step i).core.state = x.core.nextState (x.coreIn i) := Handoff.step_state
  rw [hst, Core.nextState, hst] at hr
  rw [Core.flushes, hnext, Core.nextState, hst]
  cases hg : x.core.gotAck (x.coreIn i) with
  | true => simp [hg] at hr
  | false => rfl

theorem active_stays (hr : x.handoff.front.reenters i = false)
    (hs : (x.step i).core.state = .ACTIVE) : x.core.state = .ACTIVE := by
  have hr : (x.core.state != .ACTIVE && x.core.nextState (x.coreIn i) == .ACTIVE) = false := hr
  have hnext : (x.step i).core.state = x.core.nextState (x.coreIn i) := Handoff.step_state
  rw [← hnext, hs] at hr
  simpa using hr

theorem Inv.stays (h : x.Inv) (hm : x.core.MonitorAllocated (x.coreIn i))
    (hr : x.handoff.front.reenters i = false) :
    (x.step i).entered ++ (x.step i).handoff.taken.map Uop.pc =
      (x.step i).reported ++ (x.step i).windowPcs ++ (x.step i).dropped ∧
    ((x.step i).dropped = [] ∨ (x.step i).core.flushes = true ∧ (x.step i).windowPcs = []) := by
  obtain ⟨hent, hrep, hdrop, -, htaken, -⟩ := step_stays hr
  rw [hent, hrep, hdrop, htaken, ports_eq h.pointers hm, List.map_append, ← List.append_assoc,
    h.line]
  cases hf : x.core.flushes with
  | true =>
    obtain ⟨hret, hal⟩ := RetireLedger.flush_still (i := x.coreIn i) hf
    have hwin : (x.step i).windowPcs = [] := congrArg (List.map _) (Core.step_flush hf).2.2.2
    have hal : x.handoff.allocated i = [] := hal
    have hone : x.windowPcs ++ x.dropped = x.dropped ++ x.windowPcs := by
      rcases h.flushed with hd | ⟨-, hw⟩
      · rw [hd, List.append_nil, List.nil_append]
      · rw [hw, List.append_nil, List.nil_append]
    refine ⟨?_, Or.inr ⟨flushes_stays hf hr, hwin⟩⟩
    rw [if_pos rfl, hwin, hret, hal, List.take_zero, List.map_nil]
    simp only [List.append_nil, List.append_assoc, hone]
  | false =>
    have hnone := h.flushed.resolve_right (by simp [hf])
    have hle : x.core.retireCount (x.coreIn i) ≤ x.windowPcs.length := by
      simpa [windowPcs, Core.window] using Core.retireCount_le h.pointers hm
    refine ⟨?_, Or.inl hnone⟩
    rw [windowPcs_step h.pointers hm hf, if_neg Bool.false_ne_true, hnone,
      List.drop_append_of_le_length hle]
    simp only [List.append_nil, List.append_assoc]
    rw [← List.append_assoc (List.take _ _), List.take_append_drop]

theorem Inv.stays_source (h : x.Inv) (hr : x.handoff.front.reenters i = false) :
    Handoff.Taken (x.step i).handoff.taken (x.step i).source ∧
      (∀ f fs, (x.step i).source = f :: fs → f.pc = (x.step i).handoff.entryPc) ∧
      ((x.step i).core.state = .ACTIVE → (x.step i).source <+: (x.step i).handoff.fetched) := by
  obtain ⟨-, -, -, hsrc, htaken, hpc⟩ := step_stays hr
  have hgrows : (x.step i).core.state = .ACTIVE →
      x.core.state = .ACTIVE ∧ x.handoff.fetched <+: (x.step i).handoff.fetched := by
    intro hs
    have hact := active_stays hr hs
    refine ⟨hact, ?_⟩
    change _ <+: if x.handoff.l1i.restarts _ && x.core.state != .ACTIVE then _ else _
    rw [hact]
    simp
  rw [hsrc, htaken, hpc]
  by_cases hal : x.handoff.allocated i = []
  · rw [if_pos hal, hal, List.append_nil]
    exact ⟨h.taken, h.first, fun hs => (h.active (hgrows hs).1).trans (hgrows hs).2⟩
  · rw [if_neg hal]
    obtain ⟨ht, hb⟩ := h.handoff.allocated_taken hal
    exact ⟨ht, hb, fun hs => (hgrows hs).2⟩

theorem Inv.step (h : x.Inv) (hm : x.core.MonitorAllocated (x.coreIn i)) : (x.step i).Inv := by
  have hp := Core.step_pointers h.pointers hm
  cases hr : x.handoff.front.reenters i with
  | true =>
    obtain ⟨hent, hrep, hdrop, hsrc, htaken⟩ := step_enters hr
    refine ⟨h.handoff.step, hp, ?_, Or.inl hdrop, ?_, ?_, ?_⟩
    · rw [hent, hrep, hdrop, htaken]
      simp
    · rw [htaken, hsrc]
      exact ⟨[], List.nil_prefix, .nil⟩
    · intro f fs he
      rw [hsrc] at he
      cases he
    · rw [hsrc]
      exact fun _ => List.nil_prefix
  | false =>
    obtain ⟨hline, hflushed⟩ := h.stays hm hr
    obtain ⟨htaken, hfirst, hactive⟩ := h.stays_source hr
    exact ⟨h.handoff.step, hp, hline, hflushed, htaken, hfirst, hactive⟩

theorem reset_inv (rob : RobPtr → RobEntry) (dq : BitVec 2 → Uop) (m : ExecInit) (d : L1iInit) :
    (reset rob dq m d).Inv := by
  have hwin : (reset rob dq m d).windowPcs = [] := by
    have hcount : (Core.reset rob dq).robCount = 0 := by simp [Core.robCount, Core.reset]
    change ((Core.reset rob dq).window).map RobEntry.pc = []
    rw [Core.window, hcount]
    rfl
  refine ⟨Handoff.reset_inv rob dq m d, Core.reset_pointers rob dq, ?_, Or.inl rfl, ?_, ?_, ?_⟩
  · rw [hwin]
    rfl
  · exact ⟨[], List.nil_prefix, .nil⟩
  · intro f fs he
    cases he
  · exact fun _ => List.nil_prefix

/-- What has been taken carries the pcs of what it was decoded from. -/
theorem decodes_pcs {us : List Uop} {fs : List InsnFetch}
    (h : List.Forall₂ Handoff.Decodes us fs) : us.map Uop.pc = fs.map InsnFetch.pc := by
  induction h with
  | nil => rfl
  | cons hu _ ih =>
    obtain ⟨m, rfl⟩ := hu
    rw [List.map_cons, List.map_cons, ih, decode_pc]

/-- Since the core became active its retirement ports have reported, in order, each once and
without a gap, the pcs that were in the reorder buffer and then the first of those that the cache
has pushed since the restart, from the restart pc on. -/
structure Reports (x : Retirement) : Prop where
  line : ∃ fs, fs <+: x.source ∧
    x.entered ++ fs.map InsnFetch.pc = x.reported ++ x.windowPcs ++ x.dropped
  ports : ∀ i, x.core.MonitorAllocated (x.coreIn i) → x.ports i <+: x.windowPcs
  first : ∀ f fs, x.source = f :: fs → f.pc = x.handoff.entryPc
  source : x.core.state = .ACTIVE → x.source <+: x.handoff.fetched

theorem Inv.reports (h : x.Inv) : x.Reports := by
  obtain ⟨fs, hfs, hd⟩ := h.taken
  refine ⟨⟨fs, hfs, ?_⟩, fun i hm => ?_, h.first, h.active⟩
  · rw [← decodes_pcs hd]
    exact h.line
  · rw [ports_eq h.pointers hm]
    exact List.take_prefix _ _

/-- What retires is what has been fetched, in every run in which a monitor call retires only the
uop that it has allocated. -/
theorem run_reports (rob : RobPtr → RobEntry) (dq : BitVec 2 → Uop) (m : ExecInit) (d : L1iInit)
    (inputs : List FrontEndIn)
    (h : Clocked.Guarded step (fun x i => x.core.MonitorAllocated (x.coreIn i)) (reset rob dq m d)
      inputs) :
    (Clocked.run step (reset rob dq m d) inputs).Reports :=
  (h.invariant (fun _ _ hx hm => Inv.step hx hm) (reset_inv rob dq m d)).reports

/-- A resume and a line of three moves and a NOP. -/
def movesRun : List FrontEndIn :=
  ([{ outside := { resume := true, resumePc := 0x10 } }, {}, {}, {},
    { memRspValid := true
      memRspLoadData := bswap32 0 ++ bswap32 0x24030003 ++ bswap32 0x24020002 ++
        bswap32 0x24010001 }] : List FrontEndIn) ++ List.replicate 6 ({} : FrontEndIn)

theorem step_eval : step = fun x i => { x.step i with
    handoff := { x.handoff.step i with front := x.handoff.front.stepEval i } } := by
  rw [← FrontEnd.step_eq_stepEval]
  rfl

theorem run_reports_moves :
    (Clocked.run step (reset (fun _ => {}) (fun _ => {}) {} {}) movesRun).Reports :=
  run_reports (fun _ => {}) (fun _ => {}) {} {} movesRun (by rw [step_eval]; decide +kernel)

end Retirement
end MipsCore
