import Mathlib.Data.List.Induction

/-! # Runs of clocked machines

A clocked machine reads one input in every cycle.  A run is the list of its
inputs, oldest first, and an invariant of the step is an invariant of the run.
A guarded run asks more of the inputs, cycle by cycle, than the machine checks.
-/
namespace Clocked
variable {σ ι : Type*} {step : σ → ι → σ} {guard : σ → ι → Prop}

/-- The state in which a run ends. -/
def run (step : σ → ι → σ) (s : σ) (inputs : List ι) : σ := inputs.foldl step s

@[simp] theorem run_nil (s : σ) : run step s [] = s := rfl
@[simp] theorem run_cons (s : σ) (i : ι) (inputs : List ι) :
    run step s (i :: inputs) = run step (step s i) inputs := rfl
theorem run_append (s : σ) (xs ys : List ι) :
    run step s (xs ++ ys) = run step (run step s xs) ys := List.foldl_append ..
theorem run_concat (s : σ) (xs : List ι) (i : ι) :
    run step s (xs ++ [i]) = step (run step s xs) i := by simp [run_append]

/-- Every cycle of the run meets the guard in the state it starts from. -/
def Guarded (step : σ → ι → σ) (guard : σ → ι → Prop) : σ → List ι → Prop
  | _, [] => True
  | s, i :: inputs => guard s i ∧ Guarded step guard (step s i) inputs

/-- The guard of a run as a check that can be evaluated. -/
def checks (step : σ → ι → σ) (check : σ → ι → Bool) : σ → List ι → Bool
  | _, [] => true
  | s, i :: inputs => check s i && checks step check (step s i) inputs

theorem checks_iff {check : σ → ι → Bool} (hc : ∀ s i, check s i = true ↔ guard s i) {s : σ}
    {inputs : List ι} : checks step check s inputs = true ↔ Guarded step guard s inputs := by
  induction inputs generalizing s with
  | nil => simp [checks, Guarded]
  | cons i inputs ih => rw [checks, Guarded, Bool.and_eq_true, hc, ih]

instance Guarded.decidable [∀ s i, Decidable (guard s i)] (s : σ) (inputs : List ι) :
    Decidable (Guarded step guard s inputs) :=
  decidable_of_iff (checks step (fun s i => decide (guard s i)) s inputs = true)
    (checks_iff fun _ _ => decide_eq_true_iff)

@[simp] theorem guarded_nil (s : σ) : Guarded step guard s [] := trivial
@[simp] theorem guarded_cons (s : σ) (i : ι) (inputs : List ι) :
    Guarded step guard s (i :: inputs) ↔ guard s i ∧ Guarded step guard (step s i) inputs := Iff.rfl

theorem guarded_append {s : σ} {xs ys : List ι} :
    Guarded step guard s (xs ++ ys) ↔
      Guarded step guard s xs ∧ Guarded step guard (run step s xs) ys := by
  induction xs generalizing s with
  | nil => simp
  | cons i xs ih => simp [ih, and_assoc]

theorem guarded_and {P Q : σ → ι → Prop} {s : σ} {inputs : List ι} :
    Guarded step (fun s i => P s i ∧ Q s i) s inputs ↔
      Guarded step P s inputs ∧ Guarded step Q s inputs := by
  induction inputs generalizing s with
  | nil => simp
  | cons i inputs ih => simp only [guarded_cons, ih, and_and_and_comm]

/-- What every guarded step preserves holds at the end of every guarded run. -/
theorem Guarded.invariant {Inv : σ → Prop}
    (hstep : ∀ s i, Inv s → guard s i → Inv (step s i)) {s : σ} {inputs : List ι}
    (hg : Guarded step guard s inputs) (hs : Inv s) : Inv (run step s inputs) := by
  induction inputs generalizing s with
  | nil => exact hs
  | cons i inputs ih => exact ih hg.2 (hstep s i hs hg.1)

/-- What the invariant and the guard imply holds in every cycle of a guarded run. -/
theorem Guarded.of_invariant {Inv : σ → Prop} {goal : σ → ι → Prop}
    (hstep : ∀ s i, Inv s → guard s i → Inv (step s i)) (hgoal : ∀ s i, Inv s → guard s i → goal s i)
    {s : σ} (hs : Inv s) {inputs : List ι} (hg : Guarded step guard s inputs) :
    Guarded step goal s inputs := by
  induction inputs generalizing s with
  | nil => trivial
  | cons i inputs ih => exact ⟨hgoal s i hs hg.1, ih (hstep s i hs hg.1) hg.2⟩

/-- Where the guard decides a goal of each cycle and keeps the invariant that decides it, it
decides the goal of a whole run. -/
theorem guarded_iff {Inv : σ → Prop} {goal : σ → ι → Prop}
    (hstep : ∀ s i, Inv s → guard s i → Inv (step s i))
    (hgoal : ∀ s i, Inv s → (goal s i ↔ guard s i)) {s : σ} (hs : Inv s) (inputs : List ι) :
    Guarded step goal s inputs ↔ Guarded step guard s inputs := by
  induction inputs generalizing s with
  | nil => exact Iff.rfl
  | cons i inputs ih =>
    rw [guarded_cons, guarded_cons, hgoal s i hs]
    exact and_congr_right fun hgi => ih (hstep s i hs hgi)

/-- What every step preserves holds at the end of every run. -/
theorem run_invariant {Inv : σ → Prop} (hstep : ∀ s i, Inv s → Inv (step s i))
    {s : σ} (hs : Inv s) (inputs : List ι) : Inv (run step s inputs) := by
  induction inputs generalizing s with
  | nil => exact hs
  | cons i inputs ih => exact ih (hstep s i hs)

/-! ## Flags -/

/-- Some cycle of the run sets the flag, and neither it nor a later one clears it. -/
def Since (step : σ → ι → σ) (sets clears : σ → ι → Prop) (s : σ) (inputs : List ι) : Prop :=
  ∃ xs i ys, inputs = xs ++ i :: ys ∧ sets (run step s xs) i ∧
    Guarded step (fun s i => ¬clears s i) (run step s xs) (i :: ys)

theorem since_concat {sets clears : σ → ι → Prop} {s : σ} {inputs : List ι} {i : ι} :
    Since step sets clears s (inputs ++ [i]) ↔
      ¬clears (run step s inputs) i ∧
        (sets (run step s inputs) i ∨ Since step sets clears s inputs) := by
  constructor
  · rintro ⟨xs, j, ys, he, hset, hkeep⟩
    rcases List.eq_nil_or_concat ys with rfl | ⟨zs, k, rfl⟩
    · obtain ⟨rfl, hj⟩ := List.append_inj' he rfl
      obtain rfl := List.singleton_inj.mp hj
      exact ⟨hkeep.1, Or.inl hset⟩
    · rw [List.concat_eq_append] at he hkeep
      rw [← List.cons_append, ← List.append_assoc] at he
      obtain ⟨rfl, hk⟩ := List.append_inj' he rfl
      obtain rfl := List.singleton_inj.mp hk
      rw [← List.cons_append, guarded_append] at hkeep
      refine ⟨?_, Or.inr ⟨xs, j, zs, rfl, hset, hkeep.1⟩⟩
      rw [run_append]
      exact hkeep.2.1
  · rintro ⟨hkeep, hset | ⟨xs, j, ys, rfl, hset, hys⟩⟩
    · exact ⟨inputs, i, [], rfl, hset, hkeep, trivial⟩
    · refine ⟨xs, j, ys ++ [i], by simp, hset, ?_⟩
      rw [← List.cons_append, guarded_append]
      refine ⟨hys, ?_, trivial⟩
      rw [← run_append]
      exact hkeep

/-- A flag that is low at first and that the step sets and clears, the latter first, tells
whether it was set since it was last cleared. -/
theorem flag_iff_since {sets clears : σ → ι → Prop} {P : σ → Prop}
    (hflag : ∀ s i, P (step s i) ↔ ¬clears s i ∧ (sets s i ∨ P s)) {s : σ} (h0 : ¬P s)
    (inputs : List ι) : P (run step s inputs) ↔ Since step sets clears s inputs := by
  induction inputs using List.reverseRecOn with
  | nil => exact iff_of_false h0 fun ⟨xs, i, ys, he, _⟩ => by simp at he
  | append_singleton inputs i ih => rw [run_concat, hflag, since_concat, ih]

/-! ## Machines that stop -/

section Stopping
variable {act : ι → σ → Option σ}

/-- A step that can fail, on a machine that stops there. -/
def attempt (act : ι → σ → Option σ) (o : Option σ) (i : ι) : Option σ := o.bind (act i)

theorem run_attempt_none (inputs : List ι) : run (attempt act) none inputs = none := by
  induction inputs with
  | nil => rfl
  | cons i inputs ih => exact ih

/-- A run that does not stop keeps the invariant in all of its states just when each of its cycles
meets the guard that decides the invariant of the next state. -/
theorem invariant_iff_guarded {Inv : σ → Prop}
    (hact : ∀ {s i t}, Inv s → act i s = some t → (Inv t ↔ guard s i)) {s : σ} (hs : Inv s)
    {inputs : List ι} (hrun : run (attempt act) (some s) inputs ≠ none) :
    (∀ n t, run (attempt act) (some s) (inputs.take n) = some t → Inv t) ↔
      Guarded (attempt act) (fun o i => ∀ s ∈ o, guard s i) (some s) inputs := by
  induction inputs generalizing s with
  | nil =>
    refine iff_of_true (fun n t ht => ?_) trivial
    rw [List.take_nil] at ht
    exact Option.some.inj ht ▸ hs
  | cons i inputs ih =>
    have hnext : attempt act (some s) i = act i s := rfl
    rw [run_cons, hnext] at hrun
    rw [guarded_cons, hnext]
    cases hi : act i s with
    | none =>
      rw [hi] at hrun
      exact absurd (run_attempt_none inputs) hrun
    | some u =>
      rw [hi] at hrun
      have hg : (∀ v ∈ some s, guard v i) ↔ Inv u :=
        ⟨fun h => (hact hs hi).mpr (h s rfl), fun hu v hv => by
          obtain rfl := Option.some.inj hv
          exact (hact hs hi).mp hu⟩
      rw [hg]
      constructor
      · intro hall
        have hu : Inv u := hall 1 u hi
        refine ⟨hu, (ih hu hrun).mp fun n t ht => hall (n + 1) t ?_⟩
        rw [List.take_succ_cons, run_cons, hnext, hi]
        exact ht
      · rintro ⟨hu, hrest⟩ n t ht
        cases n with
        | zero => exact Option.some.inj ht ▸ hs
        | succ n =>
          rw [List.take_succ_cons, run_cons, hnext, hi] at ht
          exact (ih hu hrun).mpr hrest n t ht

end Stopping

end Clocked
