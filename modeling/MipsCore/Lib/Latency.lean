import MipsCore.Lib.Clocked

/-! # Units whose operations take a known number of cycles

A unit starts operations under tags.  `pending s k t` says that an operation tagged
`t` is to complete in `k` cycles, `starts s i k t` that the cycle starts one that
takes `k` cycles.  A lawful unit completes what is due and nothing else, so over a
whole run every started operation completes once.
-/
namespace Latency
variable {σ ι τ : Type*}

structure TimedUnit (σ ι τ : Type*) where
  step : σ → ι → σ
  pending : σ → ℕ → τ → Prop
  starts : σ → ι → ℕ → τ → Prop
  completes : σ → ι → τ → Prop

namespace TimedUnit
variable (m : TimedUnit σ ι τ)

/-- What is in flight moves one cycle closer, and what is due completes. -/
structure Lawful (Inv : σ → Prop) : Prop where
  step_inv : ∀ s i, Inv s → Inv (m.step s i)
  completes_iff : ∀ s i t, Inv s → (m.completes s i t ↔ m.pending s 0 t ∨ m.starts s i 0 t)
  pending_step : ∀ s i k t, Inv s →
    (m.pending (m.step s i) k t ↔ m.pending s (k + 1) t ∨ m.starts s i (k + 1) t)
  /-- A cycle starts an operation with one latency. -/
  starts_inj : ∀ s i j k t, m.starts s i j t → m.starts s i k t → j = k

/-- The state at the beginning of cycle `n`. -/
def states (s : σ) (inputs : ℕ → ι) : ℕ → σ
  | 0 => s
  | n + 1 => m.step (states s inputs n) (inputs n)

/-- The operation `t` that starts at cycle `n` and takes `k` cycles is alone under its tag: every
other one has completed before or starts after it has completed. -/
def Alone (s : σ) (inputs : ℕ → ι) (n k : ℕ) (t : τ) : Prop :=
  ∀ n' k', m.starts (m.states s inputs n') (inputs n') k' t → n' ≠ n → n' + k' < n ∨ n + k < n'

/-- The operation that starts at cycle `n` completes exactly once. -/
def CompletesOnce (s : σ) (inputs : ℕ → ι) (n k : ℕ) (t : τ) : Prop :=
  ∃! c, n ≤ c ∧ c ≤ n + k ∧ m.completes (m.states s inputs c) (inputs c) t

variable {m} {Inv : σ → Prop}

theorem states_inv (h : m.Lawful Inv) {s : σ} (hs : Inv s) (inputs : ℕ → ι) (n : ℕ) :
    Inv (m.states s inputs n) := by
  induction n with
  | zero => exact hs
  | succ n ih => exact h.step_inv _ _ ih

/-- What is pending was started, with the latency that is left. -/
theorem pending_states (h : m.Lawful Inv) {s : σ} (hs : Inv s) (h0 : ∀ k t, ¬m.pending s k t)
    (inputs : ℕ → ι) (n k : ℕ) (t : τ) :
    m.pending (m.states s inputs n) k t ↔
      ∃ j < n, m.starts (m.states s inputs j) (inputs j) (n - j + k) t := by
  induction n generalizing k with
  | zero => simp [states, h0]
  | succ n ih =>
    rw [states, h.pending_step _ _ _ _ (states_inv h hs inputs n), ih (k + 1)]
    constructor
    · rintro (⟨j, hj, hst⟩ | hst)
      · refine ⟨j, by omega, ?_⟩
        rwa [show n + 1 - j + k = n - j + (k + 1) by omega]
      · refine ⟨n, by omega, ?_⟩
        rwa [show n + 1 - n + k = k + 1 by omega]
    · rintro ⟨j, hj, hst⟩
      rcases Nat.lt_succ_iff_lt_or_eq.mp hj with hj | rfl
      · refine Or.inl ⟨j, hj, ?_⟩
        rwa [show n - j + (k + 1) = n + 1 - j + k by omega]
      · refine Or.inr ?_
        rwa [show k + 1 = j + 1 - j + k by omega]

/-- The completions of a run are those of the started operations, each after its latency. -/
theorem completes_states (h : m.Lawful Inv) {s : σ} (hs : Inv s) (h0 : ∀ k t, ¬m.pending s k t)
    (inputs : ℕ → ι) (n : ℕ) (t : τ) :
    m.completes (m.states s inputs n) (inputs n) t ↔
      ∃ j ≤ n, m.starts (m.states s inputs j) (inputs j) (n - j) t := by
  rw [h.completes_iff _ _ _ (states_inv h hs inputs n), pending_states h hs h0]
  constructor
  · rintro (⟨j, hj, hst⟩ | hst)
    · exact ⟨j, Nat.le_of_lt hj, hst⟩
    · exact ⟨n, Nat.le_refl n, by rwa [Nat.sub_self]⟩
  · rintro ⟨j, hj, hst⟩
    rcases Nat.lt_or_eq_of_le hj with hj | rfl
    · exact Or.inl ⟨j, hj, hst⟩
    · exact Or.inr (by rwa [Nat.sub_self] at hst)

/-- An operation that is alone under its tag completes exactly once. -/
theorem completesOnce (h : m.Lawful Inv) {s : σ} (hs : Inv s) (h0 : ∀ k t, ¬m.pending s k t)
    {inputs : ℕ → ι} {n k : ℕ} {t : τ} (hst : m.starts (m.states s inputs n) (inputs n) k t)
    (ha : m.Alone s inputs n k t) : m.CompletesOnce s inputs n k t := by
  refine ⟨n + k, ⟨by omega, by omega, ?_⟩, ?_⟩
  · rw [completes_states h hs h0]
    exact ⟨n, by omega, by rwa [show n + k - n = k by omega]⟩
  · rintro c ⟨hn, hc, hcomp⟩
    obtain ⟨j, hj, hstj⟩ := (completes_states h hs h0 inputs c t).mp hcomp
    by_cases hjn : j = n
    · subst hjn
      have heq := h.starts_inj _ _ _ _ _ hst hstj
      omega
    · have hout := ha j (c - j) hstj hjn
      omega

/-- The port is free in the cycle in which a started operation will need it. -/
def StartsFree (m : TimedUnit σ ι τ) (Inv : σ → Prop) : Prop :=
  ∀ s i k t t', Inv s → m.starts s i k t → ¬m.pending s k t'

/-- Operations that start in different cycles complete in different cycles. -/
theorem starts_apart (h : m.Lawful Inv) (hf : m.StartsFree Inv) {s : σ} (hs : Inv s)
    (h0 : ∀ k t, ¬m.pending s k t) {inputs : ℕ → ι} {j j' k k' : ℕ} {t t' : τ}
    (hj : m.starts (m.states s inputs j) (inputs j) k t)
    (hj' : m.starts (m.states s inputs j') (inputs j') k' t') (heq : j + k = j' + k') : j = j' := by
  have hlt : ∀ {a b ka kb : ℕ} {ta tb : τ}, m.starts (m.states s inputs a) (inputs a) ka ta →
      m.starts (m.states s inputs b) (inputs b) kb tb → a + ka = b + kb → ¬a < b := by
    intro a b ka kb ta tb ha hb hab hlt
    refine hf _ _ kb tb ta (states_inv h hs inputs b) hb ?_
    rw [pending_states h hs h0]
    refine ⟨a, hlt, ?_⟩
    rwa [show b - a + kb = ka by omega]
  have h1 := hlt hj hj' heq
  have h2 := hlt hj' hj heq.symm
  omega

end TimedUnit
end Latency
