import MipsCore.Core.Windows
import MipsCore.Lib.RenameMap

/-! # Renames of one register class through a cycle

Each class of registers has its own view of an entry: the rename that the entry
records, if it has a destination of the class.  Whatever the view, a cycle
allocates, commits and frees through it in the same way.
-/
namespace MipsCore
namespace Core
open Rename
variable {s : Core} {i : CoreIn} {A P : Type*} {f : RobEntry → Option (Entry A P)}

/-- The renames that a cycle allocates and commits in each slot. -/
def allocated (s : Core) (i : CoreIn) (f : RobEntry → Option (Entry A P)) : Option (Entry A P) :=
  if s.allocates i then f s.tRobTail else none
def allocatedTwo (s : Core) (i : CoreIn) (f : RobEntry → Option (Entry A P)) : Option (Entry A P) :=
  if s.allocatesTwo i then f s.tRobNextTail else none
def retired (s : Core) (i : CoreIn) (f : RobEntry → Option (Entry A P)) : Option (Entry A P) :=
  if s.retires i then f s.tRobHead else none
def retiredTwo (s : Core) (f : RobEntry → Option (Entry A P)) : Option (Entry A P) :=
  if s.retiresTwo then f s.tRobNextHead else none

theorem filterMap_newEntries :
    (s.newEntries i).filterMap f = (s.allocated i f).toList ++ (s.allocatedTwo i f).toList := by
  unfold newEntries allocated allocatedTwo
  cases ha : s.allocates i with
  | false =>
    have ha2 : s.allocatesTwo i = false := by
      by_contra hc
      simp [(allocatesTwo_allocates (by simpa using hc)).1] at ha
    simp [ha2]
  | true =>
    cases s.allocatesTwo i <;> cases h1 : f s.tRobTail <;> cases h2 : f s.tRobNextTail <;> simp [h1, h2]

theorem filterMap_cons_toList (e : RobEntry) (l : List RobEntry) :
    (e :: l).filterMap f = (f e).toList ++ l.filterMap f := by
  cases h : f e <;> simp [h]

theorem filterMap_congr_map {l r : List RobEntry} (h : l.map f = r.map f) :
    l.filterMap f = r.filterMap f := by
  have := congrArg (List.filterMap id) h
  rwa [List.filterMap_map, List.filterMap_map, Function.id_comp] at this

variable [DecidableEq A] {retire alloc : A → P} {free retireFree : Set P} {l : List RobEntry}

/-- Retirement commits the oldest renames. -/
theorem coherent_retired (hp : s.Pointers) (hm : s.MonitorAllocated i)
    (h : Coherent retire alloc ((s.window ++ l).filterMap f) free retireFree) :
    Coherent (write (s.retiredTwo f) (write (s.retired i f) retire)) alloc
      (((s.window ++ l).drop (s.retireCount i)).filterMap f)
      (give (s.retiredTwo f) (give (s.retired i f) free))
      (give (s.retiredTwo f) (take (s.retiredTwo f)
        (give (s.retired i f) (take (s.retired i f) retireFree)))) := by
  have hle := retireCount_le hp hm
  cases hr : s.retires i with
  | false =>
    have h2 : s.retiresTwo = false := by
      by_contra hc
      simp [(retiresTwo_retires (i := i) (by simpa using hc)).1] at hr
    simpa [retired, retiredTwo, hr, h2, retireCount, write, take, give] using h
  | true =>
    cases h2 : s.retiresTwo with
    | false =>
      have hne : s.tRobEmpty = false := by
        rw [robCount_pos]
        simp only [retireCount, hr, h2, Bool.false_eq_true, ↓reduceIte] at hle
        omega
      obtain ⟨rest, hw⟩ := window_cons hne
      rw [hw, List.cons_append, filterMap_cons_toList] at h
      simpa [retired, retiredTwo, hr, h2, retireCount, hw, write, take, give] using h.popOption
    | true =>
      obtain ⟨-, -, hne, hnn⟩ := retiresTwo_retires (i := i) h2
      obtain ⟨rest, hw⟩ := window_cons_cons hp hne hnn
      rw [hw, List.cons_append, filterMap_cons_toList, List.cons_append, filterMap_cons_toList] at h
      simpa [retired, retiredTwo, hr, h2, retireCount, hw] using h.popOption.popOption

/-- A cycle without a flush allocates at one end of the log and commits at the other. -/
theorem step_coherent (hf : Stable f) (hp : s.Pointers) (hm : s.MonitorAllocated i)
    (hfl : s.flushes = false)
    (h : Coherent retire alloc (s.window.filterMap f) free retireFree)
    (h1 : ∀ e ∈ s.allocated i f, e.new ∈ free ∧ e.old = alloc e.dst)
    (h2 : ∀ e ∈ s.allocatedTwo i f,
      e.new ∈ take (s.allocated i f) free ∧ e.old = write (s.allocated i f) alloc e.dst) :
    Coherent (write (s.retiredTwo f) (write (s.retired i f) retire))
      (write (s.allocatedTwo i f) (write (s.allocated i f) alloc)) ((s.step i).window.filterMap f)
      (give (s.retiredTwo f) (give (s.retired i f)
        (take (s.allocatedTwo i f) (take (s.allocated i f) free))))
      (give (s.retiredTwo f) (take (s.retiredTwo f)
        (give (s.retired i f) (take (s.retired i f) retireFree)))) := by
  have hlog := filterMap_congr_map ((step_window_map hf hp hm hfl).trans (List.map_drop ..).symm)
  have hpush := (h.pushOption h1).pushOption h2
  rw [List.append_assoc, ← filterMap_newEntries, ← List.filterMap_append] at hpush
  rw [hlog]
  exact coherent_retired hp hm hpush

/-- A flush takes the map and the free list of retirement over for allocation. -/
theorem step_renames (hf : Stable f) (hp : s.Pointers) (hm : s.MonitorAllocated i)
    (h : Coherent retire alloc (s.window.filterMap f) free retireFree)
    (h1 : ∀ e ∈ s.allocated i f, e.new ∈ free ∧ e.old = alloc e.dst)
    (h2 : ∀ e ∈ s.allocatedTwo i f,
      e.new ∈ take (s.allocated i f) free ∧ e.old = write (s.allocated i f) alloc e.dst) :
    Coherent (write (s.retiredTwo f) (write (s.retired i f) retire))
      (if s.flushes then retire else write (s.allocatedTwo i f) (write (s.allocated i f) alloc))
      ((s.step i).window.filterMap f)
      (if s.flushes then retireFree else give (s.retiredTwo f) (give (s.retired i f)
        (take (s.allocatedTwo i f) (take (s.allocated i f) free))))
      (give (s.retiredTwo f) (take (s.retiredTwo f)
        (give (s.retired i f) (take (s.retired i f) retireFree)))) := by
  cases hfl : s.flushes with
  | true =>
    obtain ⟨-, hidle, -, hidle2⟩ := flushes_idle (i := i) hfl
    have hret : s.retired i f = none := by simp [retired, hidle]
    have hret2 : s.retiredTwo f = none := by simp [retiredTwo, hidle2]
    rw [(step_flush hfl).2.2.2, hret, hret2, if_pos rfl, if_pos rfl]
    exact h.rollback
  | false =>
    rw [if_neg Bool.false_ne_true, if_neg Bool.false_ne_true]
    exact step_coherent hf hp hm hfl h h1 h2

end Core
end MipsCore
