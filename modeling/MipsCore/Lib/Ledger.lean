import Mathlib.Data.List.Basic
import Mathlib.Data.List.Pairwise
import Mathlib.Data.List.Nodup

/-! # Numbered tasks in hand

Tasks are numbered as they arrive.  A unit holds the numbers of the tasks that it
has not finished; a step takes a new task in or not, and finishes some of those it
holds.  As long as the others keep their order, every task is finished once.
-/
namespace Ledger
variable {held held' done : List ℕ} {n : ℕ} {new : Bool}

/-- The number of the task that arrives. -/
def arriving (new : Bool) (n : ℕ) : List ℕ := if new then [n] else []

/-- Tasks in hand are in the order of their arrival. -/
structure Ordered (held : List ℕ) (n : ℕ) : Prop where
  sorted : held.Pairwise (· < ·)
  bound : ∀ k ∈ held, k < n

/-- The step finishes the tasks `done` and keeps the others in order. -/
structure Moves (held : List ℕ) (n : ℕ) (new : Bool) (done held' : List ℕ) : Prop where
  perm : (held ++ arriving new n).Perm (done ++ held')
  order : held'.Sublist (held ++ arriving new n)

theorem ordered_nil (n : ℕ) : Ordered [] n := ⟨List.Pairwise.nil, by simp⟩

theorem mem_arriving {k : ℕ} : k ∈ arriving new n ↔ new = true ∧ k = n := by
  cases new <;> simp [arriving]

theorem Ordered.arrive (h : Ordered held n) (new : Bool) :
    Ordered (held ++ arriving new n) (n + new.toNat) where
  sorted := by
    refine List.pairwise_append.mpr ⟨h.sorted, by cases new <;> simp [arriving], fun a ha b hb => ?_⟩
    exact (mem_arriving.mp hb).2 ▸ h.bound a ha
  bound := fun k hk => by
    rcases List.mem_append.mp hk with hk | hk
    · have := h.bound k hk
      omega
    · obtain ⟨hn, rfl⟩ := mem_arriving.mp hk
      simp [hn]

theorem Ordered.nodup (h : Ordered held n) : held.Nodup :=
  h.sorted.imp fun hab => Nat.ne_of_lt hab

/-- Every step keeps the order of arrival. -/
theorem Moves.ordered (hm : Moves held n new done held') (h : Ordered held n) :
    Ordered held' (n + new.toNat) where
  sorted := (h.arrive new).sorted.sublist hm.order
  bound := fun k hk => (h.arrive new).bound k (hm.order.subset hk)

theorem Moves.mem (hm : Moves held n new done held') (k : ℕ) :
    (k ∈ held ∨ new = true ∧ k = n) ↔ k ∈ done ∨ k ∈ held' := by
  rw [← mem_arriving, ← List.mem_append, ← List.mem_append]
  exact hm.perm.mem_iff

/-- A finished task is no longer in hand. -/
theorem Moves.disjoint (hm : Moves held n new done held') (h : Ordered held n) :
    done.Disjoint held' := by
  have hnd := (h.arrive new).nodup
  rw [hm.perm.nodup_iff, List.nodup_append'] at hnd
  exact hnd.2.2

theorem Moves.nodup_done (hm : Moves held n new done held') (h : Ordered held n) : done.Nodup := by
  have hnd := (h.arrive new).nodup
  rw [hm.perm.nodup_iff, List.nodup_append'] at hnd
  exact hnd.1

theorem range_arriving : List.range (n + new.toNat) = List.range n ++ arriving new n := by
  cases new with
  | false => exact (List.append_nil _).symm
  | true => exact List.range_succ

/-- What has been finished and what is in hand stay all that has arrived, each once. -/
theorem Moves.perm_range {past : List ℕ} (hm : Moves held n new done held')
    (h : (past ++ held).Perm (List.range n)) :
    (past ++ done ++ held').Perm (List.range (n + new.toNat)) := by
  rw [range_arriving, List.append_assoc]
  refine List.Perm.trans ?_ (List.Perm.append_right _ h)
  rw [List.append_assoc]
  exact List.Perm.append_left past hm.perm.symm

/-- The first task in hand precedes the others and those that arrive. -/
theorem Ordered.head_lt {a : ℕ} {rest : List ℕ} (h : Ordered (a :: rest) n) {k : ℕ}
    (hk : k ∈ rest ∨ k = n) : a < k := by
  rcases hk with hk | rfl
  · exact List.rel_of_pairwise_cons h.sorted hk
  · exact h.bound a List.mem_cons_self

/-- Tasks are finished at the front of the line and at its end, in front of the one that
arrives. -/
theorem moves_ends {front back rest keep : List ℕ} :
    Moves (front ++ rest ++ (back ++ keep)) n new (front ++ back) (rest ++ keep ++ arriving new n) where
  perm := by
    rw [List.append_assoc, List.append_assoc, List.append_assoc, List.append_assoc, List.append_assoc]
    refine List.Perm.append_left front ?_
    rw [← List.append_assoc, ← List.append_assoc back]
    exact List.Perm.append_right _ List.perm_append_comm
  order := by
    refine List.Sublist.append ?_ (List.Sublist.refl _)
    refine List.Sublist.append ?_ ?_
    · exact List.sublist_append_right ..
    · exact List.sublist_append_right ..

end Ledger
