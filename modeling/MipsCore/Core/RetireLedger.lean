import MipsCore.Core.Restart

/-! # Every uop is retired or flushed once

The uops are numbered as they are allocated.  The ledger keeps the numbers of those that are in the
reorder buffer, of those that have retired and of those that a flush has dropped, and the pcs that
the retirement ports have reported.
-/
namespace MipsCore
open MipsCore.Core

structure RetireLedger where
  core : Core
  allocated : List Uop
  live : List ℕ
  retired : List ℕ
  flushed : List ℕ
  reported : List Word

/-- The pcs at the retirement ports. -/
def Core.portPcs (s : Core) : List Word :=
  (if s.retireValid then [s.retirePc] else []) ++ if s.retireTwoValid then [s.retireTwoPc] else []

namespace RetireLedger
variable (x : RetireLedger) (i : CoreIn)

def reset (rob : RobPtr → RobEntry) (dq : BitVec 2 → Uop) : RetireLedger where
  core := Core.reset rob dq
  allocated := []
  live := []
  retired := []
  flushed := []
  reported := []

/-- The numbers that a cycle gives out. -/
def numbered : List ℕ := List.range' x.allocated.length (x.core.allocCount i)

/-- One cycle of the core and its record. -/
def step : RetireLedger where
  core := x.core.step i
  allocated := x.allocated ++ x.core.allocUops i
  live := if x.core.flushes then [] else (x.live ++ x.numbered i).drop (x.core.retireCount i)
  retired := x.retired ++ x.live.take (x.core.retireCount i)
  flushed := x.flushed ++ if x.core.flushes then x.live else []
  reported := x.reported ++ (x.core.step i).portPcs

/-- The pc of a numbered uop. -/
def pc (k : ℕ) : Option Word := x.allocated[k]?.map Uop.pc

/-- Every uop that has been allocated is in the buffer, retired or flushed, once; the retired ones
and then those in the buffer are in program order; and the ports have reported the retired ones. -/
structure Conserved : Prop where
  once : (x.retired ++ x.live ++ x.flushed).Perm (List.range x.allocated.length)
  inOrder : (x.retired ++ x.live).Pairwise (· < ·)
  window : x.core.window.map (fun e => some e.pc) = x.live.map x.pc
  reported : x.reported.map some = x.retired.map x.pc

variable {x i}

theorem pc_step {k : ℕ} (hk : k < x.allocated.length) : (x.step i).pc k = x.pc k := by
  rw [pc, pc, step, List.getElem?_append_left hk]

theorem pc_numbered :
    (x.numbered i).map (x.step i).pc = (x.core.allocUops i).map fun u => some u.pc := by
  apply List.ext_getElem?
  intro j
  rw [numbered, List.getElem?_map, List.getElem?_map]
  by_cases hj : j < x.core.allocCount i
  · have hu : j < (x.core.allocUops i).length := by rwa [length_allocUops]
    rw [List.getElem?_range' hj, List.getElem?_eq_getElem hu, Option.map_some, Option.map_some, pc,
      step, List.getElem?_append_right (by omega), show x.allocated.length + 1 * j -
        x.allocated.length = j by omega, List.getElem?_eq_getElem hu, Option.map_some]
  · have hu : (x.core.allocUops i).length ≤ j := by
      rw [length_allocUops]
      omega
    rw [List.getElem?_eq_none (by rw [List.length_range']; omega), List.getElem?_eq_none hu]
    rfl

theorem pc_foldEntry (fold : Bool) (op : Opcode) (e : RobEntry) :
    (foldEntry fold op e).pc = e.pc := by
  unfold foldEntry
  split_ifs <;> rfl

theorem pc_tRobTail {s : Core} : s.tRobTail.pc = s.tUop.pc := by
  rw [tRobTail, pc_foldEntry]
  unfold destEntry
  split_ifs <;> rfl

theorem pc_tRobNextTail {s : Core} : s.tRobNextTail.pc = s.tUop2.pc := by
  rw [tRobNextTail, pc_foldEntry]
  unfold destEntry2
  split_ifs <;> rfl

theorem pc_newEntries {s : Core} :
    (s.newEntries i).map (fun e => some e.pc) = (s.allocUops i).map fun u => some u.pc := by
  unfold newEntries allocUops
  split_ifs <;> simp [pc_tRobTail, pc_tRobNextTail]

theorem stable_pc : Stable fun e => some e.pc := ⟨fun _ _ => rfl, fun _ _ => rfl⟩

/-- The ports of a cycle report what retires in it. -/
theorem portPcs_step {s : Core} (hp : s.Pointers) (hm : s.MonitorAllocated i) :
    (s.step i).portPcs.map some = (s.window.take (s.retireCount i)).map fun e => some e.pc := by
  have h1 : (s.step i).retireValid = s.retires i := comb_tRetire s i
  have h2 : (s.step i).retireTwoValid = s.retiresTwo := comb_tRetireTwo s i
  have hle := retireCount_le hp hm
  unfold portPcs
  rw [h1, h2]
  cases hr : s.retires i with
  | false =>
    have htwo : s.retiresTwo = false := by
      by_contra hc
      simp [(retiresTwo_retires (i := i) (by simpa using hc)).1] at hr
    simp [retireCount, hr, htwo]
  | true =>
    cases htwo : s.retiresTwo with
    | false =>
      have hpos := retires_nonempty hp hm hr
      obtain ⟨rest, hw⟩ := window_cons (robCount_pos.mpr hpos)
      simp [retireCount, hr, htwo, hw]
      rfl
    | true =>
      obtain ⟨-, -, hne, hnn⟩ := retiresTwo_retires (i := i) htwo
      obtain ⟨rest, hw⟩ := window_cons_cons hp hne hnn
      simp [retireCount, hr, htwo, hw]
      exact ⟨rfl, rfl⟩

theorem Conserved.length (h : x.Conserved) : x.live.length = x.core.robCount := by
  have hlen := congrArg List.length h.window
  rw [List.length_map, List.length_map, Core.window, Ring.length_contents] at hlen
  exact hlen.symm

theorem Conserved.lt (h : x.Conserved) {k : ℕ} (hk : k ∈ x.retired ++ x.live) :
    k < x.allocated.length :=
  List.mem_range.mp (h.once.mem_iff.mp (List.mem_append_left _ hk))

/-- A cycle moves what retires over and appends what it allocates. -/
theorem Conserved.step_line (h : x.Conserved) (hp : x.core.Pointers)
    (hm : x.core.MonitorAllocated i) (hf : x.core.flushes = false) :
    (x.step i).retired ++ (x.step i).live = x.retired ++ x.live ++ x.numbered i := by
  have hle := retireCount_le hp hm
  rw [← h.length] at hle
  change (x.retired ++ x.live.take _) ++ (if x.core.flushes then _ else _) = _
  rw [hf, if_neg Bool.false_ne_true, List.drop_append_of_le_length hle, List.append_assoc,
    ← List.append_assoc (x.live.take _), List.take_append_drop, List.append_assoc]

theorem flush_still {s : Core} (hf : s.flushes = true) :
    s.retireCount i = 0 ∧ s.allocUops i = [] := by
  obtain ⟨ha, hr, -, -⟩ := flushes_idle (i := i) hf
  simp [retireCount, allocUops, ha, hr]

theorem Conserved.step_reported (h : x.Conserved) (hp : x.core.Pointers)
    (hm : x.core.MonitorAllocated i) :
    (x.step i).reported.map some = (x.step i).retired.map (x.step i).pc := by
  have hret : (x.step i).retired.map (x.step i).pc = (x.step i).retired.map x.pc := by
    refine List.map_congr_left fun k hk => pc_step (h.lt ?_)
    rcases List.mem_append.mp hk with hk | hk
    · exact List.mem_append_left _ hk
    · exact List.mem_append_right _ (List.mem_of_mem_take hk)
  have htake := congrArg (List.take (x.core.retireCount i)) h.window
  rw [← List.map_take, ← List.map_take] at htake
  rw [hret]
  change (x.reported ++ _).map some = (x.retired ++ _).map x.pc
  rw [List.map_append, List.map_append, h.reported, portPcs_step hp hm, htake]

theorem Conserved.step (h : x.Conserved) (hp : x.core.Pointers) (hm : x.core.MonitorAllocated i) :
    (x.step i).Conserved := by
  have hreported := h.step_reported hp hm
  cases hf : x.core.flushes with
  | true =>
    obtain ⟨hret, hal⟩ := flush_still (i := i) hf
    have hlive : (x.step i).live = [] := if_pos hf
    have hretired : (x.step i).retired = x.retired := by simp [RetireLedger.step, hret]
    have hflushed : (x.step i).flushed = x.flushed ++ x.live := by simp [RetireLedger.step, hf]
    have hallocated : (x.step i).allocated = x.allocated := by simp [RetireLedger.step, hal]
    refine ⟨?_, ?_, ?_, hreported⟩
    · rw [hlive, hretired, hflushed, hallocated, List.append_nil]
      refine List.Perm.trans ?_ h.once
      rw [List.append_assoc]
      exact List.Perm.append_left _ List.perm_append_comm
    · rw [hlive, hretired, List.append_nil]
      exact (List.pairwise_append.mp h.inOrder).1
    · rw [hlive]
      exact congrArg (List.map _) (step_flush hf).2.2.2
  | false =>
    have hline := h.step_line hp hm hf
    have hlive : (x.step i).live = (x.live ++ x.numbered i).drop (x.core.retireCount i) := by
      simp [RetireLedger.step, hf]
    have hflushed : (x.step i).flushed = x.flushed := by simp [RetireLedger.step, hf]
    have hrange : List.range (x.step i).allocated.length =
        List.range x.allocated.length ++ x.numbered i := by
      change List.range (x.allocated ++ _).length = _
      rw [List.length_append, length_allocUops, List.range_eq_range', List.range_eq_range', numbered]
      simpa using (List.range'_append_1 (s := 0) (m := x.allocated.length)
        (n := x.core.allocCount i)).symm
    refine ⟨?_, ?_, ?_, hreported⟩
    · rw [hline, hflushed, hrange, List.append_assoc]
      refine List.Perm.trans (List.Perm.append_left _ List.perm_append_comm) ?_
      rw [← List.append_assoc]
      exact List.Perm.append_right _ h.once
    · rw [hline]
      refine List.pairwise_append.mpr ⟨h.inOrder, List.pairwise_lt_range', fun a ha b hb => ?_⟩
      exact Nat.lt_of_lt_of_le (h.lt ha) (List.mem_range'_1.mp hb).1
    · have hnew : (x.live ++ x.numbered i).map (x.step i).pc =
          x.live.map x.pc ++ (x.core.newEntries i).map fun e => some e.pc := by
        rw [List.map_append, pc_numbered, pc_newEntries]
        congr 1
        exact List.map_congr_left fun k hk => pc_step (h.lt (List.mem_append_right _ hk))
      change (x.core.step i).window.map _ = _
      rw [hlive, step_window_map stable_pc hp hm hf, List.map_drop, hnew, List.map_append, h.window]

/-- In every run each allocated uop is retired or flushed once or is still in the buffer, and the
retirement ports report the retired ones in program order. -/
theorem run_conserved (rob : RobPtr → RobEntry) (dq : BitVec 2 → Uop) (inputs : List CoreIn)
    (h : Clocked.Guarded step (fun x i => x.core.MonitorAllocated i) (reset rob dq) inputs) :
    (Clocked.run step (reset rob dq) inputs).Conserved := by
  have hstep : ∀ x i, x.core.Pointers ∧ x.Conserved → x.core.MonitorAllocated i →
      (step x i).core.Pointers ∧ (step x i).Conserved :=
    fun _ _ hx hm => ⟨step_pointers hx.1 hm, hx.2.step hx.1 hm⟩
  refine (h.invariant hstep ⟨reset_pointers rob dq, ?_⟩).2
  · have hw : (Core.reset rob dq).window = [] := by
      rw [Core.window, show (Core.reset rob dq).robCount = 0 by simp [robCount, Core.reset]]
      rfl
    exact ⟨List.Perm.refl _, List.Pairwise.nil, congrArg (List.map _) hw, rfl⟩

/-- A move that retires, a branch that completes as mispredicted and the move behind it. -/
def conservedInputs : List CoreIn :=
  [{ resume := true }, { restartAck := true },
    { insnValid := true, insn := { data := 0x24010001#32, pc := 0x100 }
      insnValidTwo := true, insnTwo := { data := 0x10000001#32, pc := 0x104 } },
    { insnValid := true, insn := { data := 0x24020002#32, pc := 0x108 }
      insnValidTwo := true, insnTwo := { data := 0x24030003#32, pc := 0x10c } }, {},
    { completeValid1 := true, completeBundle1 := { robPtr := 0, complete := true }
      completeValid2 := true, completeBundle2 := { robPtr := 2, complete := true } },
    { completeValid1 := true
      completeBundle1 := { robPtr := 1, complete := true, faulted := true, restartPc := 0x10c } },
    {}, {}, {}, {}, {}, {}]

theorem step_eval : step = fun x i => { x.step i with core := x.core.stepEval i } := by
  rw [← Core.step_eq_stepEval]
  rfl

theorem run_conserved_branch :
    (Clocked.run step (reset (fun _ => {}) (fun _ => {})) conservedInputs).Conserved :=
  run_conserved _ _ _ (by rw [step_eval]; decide +kernel)

end RetireLedger
end MipsCore
