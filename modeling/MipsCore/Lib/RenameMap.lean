import Mathlib.Data.List.Nodup
import Mathlib.Data.Set.Function
import Mathlib.Logic.Function.Basic

/-! # Renaming maps with a log of pending renames

A renaming map sends names to locations.  Renames are allocated at the end of a
log and committed, oldest first, into a second map; a rollback forgets the log.
`Coherent` relates the two maps, the log and the two sets of free locations.
-/
namespace Rename
open Function
variable {A P : Type*}

/-- A pending rename: its name, the location it takes and the one it replaces. -/
structure Entry (A P : Type*) where
  dst : A
  new : P
  old : P

variable [DecidableEq A]

/-- The map after the renames of a log. -/
def apply : (A → P) → List (Entry A P) → A → P
  | m, [] => m
  | m, e :: log => apply (update m e.dst e.new) log

/-- Every entry replaces the location its name had when it was allocated. -/
def Chained : (A → P) → List (Entry A P) → Prop
  | _, [] => True
  | m, e :: log => e.old = m e.dst ∧ Chained (update m e.dst e.new) log

/-- The committed map, the log and the speculative map agree, and no location in use is free. -/
structure Coherent (retire alloc : A → P) (log : List (Entry A P)) (free retireFree : Set P) :
    Prop where
  alloc_eq : alloc = apply retire log
  chained : Chained retire log
  injective : Injective retire
  nodup : (log.map Entry.new).Nodup
  fresh : ∀ e ∈ log, e.new ∉ Set.range retire
  retire_notMem : ∀ a, retire a ∉ free
  new_notMem : ∀ e ∈ log, e.new ∉ free
  retireFree_iff : ∀ p, p ∈ retireFree ↔ p ∉ Set.range retire

/-- A name that no entry renames keeps its location. -/
theorem apply_of_forall_ne {m : A → P} {log : List (Entry A P)} {a : A}
    (h : ∀ e ∈ log, e.dst ≠ a) : apply m log a = m a := by
  induction log generalizing m with
  | nil => rfl
  | cons e log ih =>
    rw [apply, ih fun x hx => h x (List.mem_cons_of_mem _ hx)]
    exact update_of_ne (h e List.mem_cons_self).symm _ _

theorem apply_concat (m : A → P) (log : List (Entry A P)) (e : Entry A P) :
    apply m (log ++ [e]) = update (apply m log) e.dst e.new := by
  induction log generalizing m with
  | nil => rfl
  | cons x log ih => exact ih _

theorem chained_concat {m : A → P} {log : List (Entry A P)} {e : Entry A P} :
    Chained m (log ++ [e]) ↔ Chained m log ∧ e.old = apply m log e.dst := by
  induction log generalizing m with
  | nil => simp [Chained, apply]
  | cons x log ih => simp [Chained, apply, ih, and_assoc]

/-- Every location of the speculative map comes from the committed map or from the log. -/
theorem apply_mem (m : A → P) (log : List (Entry A P)) (a : A) :
    (∃ e ∈ log, e.new = apply m log a) ∨ apply m log a = m a := by
  induction log generalizing m with
  | nil => exact Or.inr rfl
  | cons e log ih =>
    rcases ih (update m e.dst e.new) with ⟨x, hx, he⟩ | he
    · exact Or.inl ⟨x, List.mem_cons_of_mem _ hx, he⟩
    · by_cases ha : a = e.dst
      · subst ha
        rw [update_self] at he
        exact Or.inl ⟨e, List.mem_cons_self, he.symm⟩
      · rw [update_of_ne ha] at he
        exact Or.inr he

theorem update_injective {m : A → P} (hm : Injective m) (a : A) {p : P} (hp : p ∉ Set.range m) :
    Injective (update m a p) := by
  intro x y hxy
  by_cases hx : x = a <;> by_cases hy : y = a
  · exact hx.trans hy.symm
  · subst hx
    rw [update_self, update_of_ne hy] at hxy
    exact absurd ⟨y, hxy.symm⟩ hp
  · subst hy
    rw [update_self, update_of_ne hx] at hxy
    exact absurd ⟨x, hxy⟩ hp
  · rw [update_of_ne hx, update_of_ne hy] at hxy
    exact hm hxy

/-- A location of an updated map is the new one or an old one of another name. -/
theorem mem_range_update {m : A → P} {a : A} {p q : P} (h : q ∈ Set.range (update m a p)) :
    q = p ∨ q ∈ Set.range m := by
  obtain ⟨x, rfl⟩ := h
  by_cases hx : x = a
  · exact Or.inl (by rw [hx, update_self])
  · exact Or.inr ⟨x, by rw [update_of_ne hx]⟩

theorem apply_injective {m : A → P} {log : List (Entry A P)} (hm : Injective m)
    (hnd : (log.map Entry.new).Nodup) (hf : ∀ e ∈ log, e.new ∉ Set.range m) :
    Injective (apply m log) := by
  induction log generalizing m with
  | nil => exact hm
  | cons e log ih =>
    rw [List.map_cons, List.nodup_cons] at hnd
    refine ih (update_injective hm e.dst (hf e List.mem_cons_self)) hnd.2 fun x hx hr => ?_
    rcases mem_range_update hr with he | hr
    · exact hnd.1 (he ▸ List.mem_map_of_mem hx)
    · exact hf x (List.mem_cons_of_mem _ hx) hr

/-! ## Renames that may be absent -/

/-- The map after a rename. -/
def write (o : Option (Entry A P)) (m : A → P) : A → P := o.elim m fun e => update m e.dst e.new

section Free
omit [DecidableEq A]

/-- A set of locations without the one that a rename takes. -/
def take (o : Option (Entry A P)) (free : Set P) : Set P := o.elim free fun e => free \ {e.new}
/-- A set of locations with the one that a rename replaces. -/
def give (o : Option (Entry A P)) (free : Set P) : Set P := o.elim free fun e => insert e.old free

/-- A rename under a condition. -/
def renameIf (b : Bool) (a : A) (p q : P) : Option (Entry A P) := if b then some ⟨a, p, q⟩ else none

theorem mem_renameIf {b : Bool} {a : A} {p q : P} {e : Entry A P} :
    e ∈ renameIf b a p q ↔ b = true ∧ e = ⟨a, p, q⟩ := by
  cases b <;> simp [renameIf, eq_comm]

theorem take_renameIf (b : Bool) (a : A) (p q : P) (free : Set P) :
    take (renameIf b a p q) free = if b then free \ {p} else free := by
  cases b <;> rfl

theorem give_renameIf (b : Bool) (a : A) (p q : P) (free : Set P) :
    give (renameIf b a p q) free = if b then insert q free else free := by
  cases b <;> rfl

end Free

theorem write_renameIf (b : Bool) (a : A) (p q : P) (m : A → P) :
    write (renameIf b a p q) m = if b then update m a p else m := by
  cases b <;> rfl

namespace Coherent
variable {retire alloc : A → P} {log : List (Entry A P)} {free retireFree : Set P}

theorem alloc_injective (h : Coherent retire alloc log free retireFree) : Injective alloc := by
  rw [h.alloc_eq]
  exact apply_injective h.injective h.nodup h.fresh

theorem alloc_notMem (h : Coherent retire alloc log free retireFree) (a : A) : alloc a ∉ free := by
  rw [h.alloc_eq]
  rcases apply_mem retire log a with ⟨e, he, hn⟩ | hn
  · exact hn ▸ h.new_notMem e he
  · exact hn ▸ h.retire_notMem a

/-- Allocating a free location extends the log. -/
theorem push (h : Coherent retire alloc log free retireFree) (a : A) {p : P} (hp : p ∈ free) :
    Coherent retire (update alloc a p) (log ++ [⟨a, p, alloc a⟩]) (free \ {p}) retireFree where
  alloc_eq := by rw [apply_concat, ← h.alloc_eq]
  chained := by rw [chained_concat, ← h.alloc_eq]; exact ⟨h.chained, rfl⟩
  injective := h.injective
  nodup := by
    rw [List.map_append, List.map_singleton, List.nodup_append]
    refine ⟨h.nodup, List.nodup_singleton _, ?_⟩
    rintro q hq r hr rfl
    obtain ⟨e, he, rfl⟩ := List.mem_map.mp hq
    exact h.new_notMem e he (by simp at hr; rwa [hr])
  fresh := by
    intro e he
    rcases List.mem_append.mp he with he | he
    · exact h.fresh e he
    · obtain rfl := List.mem_singleton.mp he
      rintro ⟨x, hx⟩
      exact h.retire_notMem x (hx ▸ hp)
  retire_notMem := fun x hx => h.retire_notMem x hx.1
  new_notMem := by
    intro e he hn
    rcases List.mem_append.mp he with he | he
    · exact h.new_notMem e he hn.1
    · obtain rfl := List.mem_singleton.mp he
      exact hn.2 rfl
  retireFree_iff := h.retireFree_iff

/-- Committing the oldest rename frees the location it replaces. -/
theorem pop {e : Entry A P} (h : Coherent retire alloc (e :: log) free retireFree) :
    Coherent (update retire e.dst e.new) alloc log (insert e.old free)
      (insert e.old (retireFree \ {e.new})) := by
  have hnew : e.new ∉ Set.range retire := h.fresh e List.mem_cons_self
  have hold : e.old = retire e.dst := h.chained.1
  have hnd := h.nodup
  rw [List.map_cons, List.nodup_cons] at hnd
  have hne : ∀ x, x ≠ e.dst → retire x ≠ e.old := fun x hx he =>
    hx (h.injective (he.trans hold))
  refine ⟨h.alloc_eq, h.chained.2, update_injective h.injective _ hnew, hnd.2, ?_, ?_, ?_, ?_⟩
  · intro x hx hr
    rcases mem_range_update hr with he | hr
    · exact hnd.1 (he ▸ List.mem_map_of_mem hx)
    · exact h.fresh x (List.mem_cons_of_mem _ hx) hr
  · intro x hx
    by_cases hxd : x = e.dst
    · subst hxd
      rw [update_self] at hx
      rcases hx with hx | hx
      · exact hnew ⟨e.dst, by rw [hx, hold]⟩
      · exact h.new_notMem e List.mem_cons_self hx
    · rw [update_of_ne hxd] at hx
      rcases hx with hx | hx
      · exact hne x hxd hx
      · exact h.retire_notMem x hx
  · rintro x hx (hn | hn)
    · exact h.fresh x (List.mem_cons_of_mem _ hx) ⟨e.dst, by rw [hn, hold]⟩
    · exact h.new_notMem x (List.mem_cons_of_mem _ hx) hn
  · intro p
    constructor
    · rintro (rfl | ⟨hp, hpn⟩) ⟨x, hx⟩
      · by_cases hxd : x = e.dst
        · subst hxd
          rw [update_self] at hx
          exact hnew ⟨e.dst, by rw [hx, hold]⟩
        · rw [update_of_ne hxd] at hx
          exact hne x hxd hx
      · by_cases hxd : x = e.dst
        · subst hxd
          rw [update_self] at hx
          exact hpn hx.symm
        · rw [update_of_ne hxd] at hx
          exact (h.retireFree_iff p).mp hp ⟨x, hx⟩
    · intro hp
      by_cases hpo : p = e.old
      · exact Or.inl hpo
      · refine Or.inr ⟨(h.retireFree_iff p).mpr ?_, fun hpn => hp ⟨e.dst, ?_⟩⟩
        · rintro ⟨x, rfl⟩
          refine hp ⟨x, update_of_ne ?_ _ _⟩
          rintro rfl
          exact hpo hold.symm
        · rw [update_self]; exact hpn.symm

/-- Forgetting the log restores the committed map and its free locations. -/
theorem rollback (h : Coherent retire alloc log free retireFree) :
    Coherent retire retire [] retireFree retireFree where
  alloc_eq := rfl
  chained := trivial
  injective := h.injective
  nodup := List.nodup_nil
  fresh := by simp
  retire_notMem := fun a ha => (h.retireFree_iff _).mp ha ⟨a, rfl⟩
  new_notMem := by simp
  retireFree_iff := h.retireFree_iff

/-- An allocation that may be absent. -/
theorem pushOption {o : Option (Entry A P)} (h : Coherent retire alloc log free retireFree)
    (ho : ∀ e ∈ o, e.new ∈ free ∧ e.old = alloc e.dst) :
    Coherent retire (write o alloc) (log ++ o.toList) (take o free) retireFree := by
  cases o with
  | none => simpa [write, take] using h
  | some e =>
    obtain ⟨hnew, hold⟩ := ho e rfl
    have hp := h.push e.dst hnew
    rw [← hold] at hp
    exact hp

/-- A commit that may be absent. -/
theorem popOption {o : Option (Entry A P)}
    (h : Coherent retire alloc (o.toList ++ log) free retireFree) :
    Coherent (write o retire) alloc log (give o free) (give o (take o retireFree)) := by
  cases o with
  | none => simpa [write, take, give] using h
  | some e => exact h.pop

end Coherent
end Rename
