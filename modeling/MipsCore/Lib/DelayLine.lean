import Mathlib.Data.Fin.Tuple.Basic
import MipsCore.Lib.Clocked

/-! # Delay lines

Registers in a row: what enters the first leaves the last after as many cycles as there are
registers, whatever enters behind it.
-/
namespace DelayLine
open Clocked (run)
variable {α : Type*} {d : ℕ}

/-- `d + 1` registers in a row. -/
abbrev Line (α : Type*) (d : ℕ) := Fin (d + 1) → α

/-- One cycle: the first register takes the input, every other one its predecessor. -/
def shift (r : Line α d) (x : α) : Line α d := Fin.cons x (Fin.init r)

/-- The last register. -/
def out (r : Line α d) : α := r (Fin.last d)

@[simp] theorem shift_zero (r : Line α d) (x : α) : shift r x 0 = x := Fin.cons_zero ..
@[simp] theorem shift_succ (r : Line α d) (x : α) (i : Fin d) : shift r x i.succ = r i.castSucc :=
  Fin.cons_succ ..

/-- After `n` more cycles the input is in register `n`. -/
theorem run_shift (r : Line α d) (x : α) (later : List α) (h : later.length ≤ d) :
    run shift r (x :: later) ⟨later.length, Nat.lt_succ_of_le h⟩ = x := by
  induction later using List.reverseRecOn with
  | nil => exact shift_zero r x
  | append_singleton later y ih =>
    rw [List.length_append, List.length_singleton] at h
    have hi : (⟨(later ++ [y]).length, by simpa using Nat.lt_succ_of_le h⟩ : Fin (d + 1)) =
        Fin.succ ⟨later.length, by omega⟩ := by
      ext
      simp
    rw [hi, ← List.cons_append, Clocked.run_concat, shift_succ]
    exact ih (by omega)

/-- The input leaves the line after as many cycles as it has registers. -/
theorem out_run (r : Line α d) (x : α) (later : List α) (h : later.length = d) :
    out (run shift r (x :: later)) = x := by
  subst h
  exact run_shift r x later le_rfl

/-- A function of the inputs that enters a line leaves it later. -/
theorem out_run_map {ι : Type*} (g : ι → α) (r : Line α d) (i : ι) (later : List ι)
    (h : later.length = d) : out (run (fun r i => shift r (g i)) r (i :: later)) = g i := by
  have hmap : ∀ (r : Line α d) (is : List ι),
      run (fun r i => shift r (g i)) r is = run shift r (is.map g) := by
    intro r is
    induction is generalizing r with
    | nil => rfl
    | cons i is ih => exact ih _
  rw [hmap, List.map_cons]
  exact out_run r (g i) _ (by rwa [List.length_map])

end DelayLine
