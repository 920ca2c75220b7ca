import Mathlib.Logic.Function.Iterate

/-! # Straight-line code

A machine fetches the word at its program counter and executes it.  A block is code that runs
through from its first word to the last; blocks put one behind the other are a block.
-/
namespace StraightLine

/-- A machine with its program counter, the code that it sees, and what each word does. -/
structure Machine (σ A W : Type*) where
  pc : σ → A
  next : A → A
  image : σ → A → Option W
  exec : W → σ → Option σ

namespace Machine
variable {σ A W : Type*} (m : Machine σ A W)

def step (s : σ) : Option σ := (m.image s (m.pc s)).bind fun w => m.exec w s

def steps : ℕ → σ → Option σ
  | 0, s => some s
  | n + 1, s => (m.step s).bind (steps n)

/-- The image holds the words from an address on. -/
def Holds (f : A → Option W) : A → List W → Prop
  | _, [] => True
  | a, w :: ws => f a = some w ∧ Holds f (m.next a) ws

/-- Code that runs through, changes the state by `f` and leaves the image alone. -/
structure Block (ws : List W) (f : σ → σ) : Prop where
  runs : ∀ s, m.Holds (m.image s) (m.pc s) ws → m.steps ws.length s = some (f s)
  pc : ∀ s, m.pc (f s) = m.next^[ws.length] (m.pc s)
  image : ∀ s, m.image (f s) = m.image s

variable {m}

theorem steps_add (n k : ℕ) (s : σ) : m.steps (n + k) s = (m.steps n s).bind (m.steps k) := by
  induction n generalizing s with
  | zero => rw [Nat.zero_add]; rfl
  | succ n ih =>
    rw [Nat.add_right_comm]
    change (m.step s).bind (m.steps (n + k)) = ((m.step s).bind (m.steps n)).bind (m.steps k)
    cases m.step s with
    | none => rfl
    | some t => exact ih t

theorem holds_append {f : A → Option W} {a : A} {ws vs : List W} : m.Holds f a (ws ++ vs) ↔
    m.Holds f a ws ∧ m.Holds f (m.next^[ws.length] a) vs := by
  induction ws generalizing a with
  | nil => simp [Holds]
  | cons w ws ih =>
    rw [List.cons_append, Holds, Holds, ih, and_assoc, List.length_cons, Function.iterate_succ_apply]

theorem Block.nil : m.Block [] fun s => s where
  runs _ _ := rfl
  pc _ := rfl
  image _ := rfl

/-- A word that always executes and goes on to the next one. -/
theorem Block.word {w : W} {f : σ → σ} (he : ∀ s, m.exec w s = some (f s))
    (hp : ∀ s, m.pc (f s) = m.next (m.pc s)) (hi : ∀ s, m.image (f s) = m.image s) :
    m.Block [w] f where
  runs s h := by
    change (m.step s).bind (m.steps 0) = _
    rw [step, h.1, Option.bind_some, he]
    rfl
  pc := hp
  image := hi

theorem Block.append {ws vs : List W} {f g : σ → σ} (h : m.Block ws f) (k : m.Block vs g) :
    m.Block (ws ++ vs) fun s => g (f s) where
  runs s hs := by
    obtain ⟨hw, hv⟩ := holds_append.mp hs
    rw [List.length_append, steps_add, h.runs s hw, Option.bind_some, k.runs (f s)]
    rwa [h.image, h.pc]
  pc s := by
    rw [k.pc, h.pc, List.length_append, Nat.add_comm, Function.iterate_add_apply]
  image s := (k.image _).trans (h.image s)

theorem Block.ite {ws : List W} {f : σ → σ} (h : m.Block ws f) (c : Prop) [Decidable c] :
    m.Block (if c then ws else []) fun s => if c then f s else s := by
  by_cases hc : c
  · simpa only [if_pos hc] using h
  · simpa only [if_neg hc] using Block.nil

/-- A block for each element of a list. -/
theorem Block.flatMap {α : Type*} {ws : α → List W} {f : α → σ → σ} (xs : List α)
    (h : ∀ x ∈ xs, m.Block (ws x) (f x)) :
    m.Block (xs.flatMap ws) fun s => xs.foldl (fun s x => f x s) s := by
  induction xs with
  | nil => exact Block.nil
  | cons x xs ih =>
    have hx := h x List.mem_cons_self
    have hxs := ih fun y hy => h y (List.mem_cons_of_mem x hy)
    exact hx.append hxs

end Machine
end StraightLine
