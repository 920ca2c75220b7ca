import MipsCore.Pipeline.State
import MipsCore.Exec.Queues

/-! # From the decode queue to the execution unit

The core never pushes into a full queue, and what it pushes are the renamed uops
of the decode queue.  A property of renamed uops thus reaches everything in
flight in the execution unit.
-/
namespace MipsCore

namespace Core
variable {s : Core} {i : CoreIn}

theorem allocates_uqFull (h : s.allocates i = true) : i.uqFull = false := by
  unfold allocates at h
  split at h
  · simp only [Bool.and_eq_true, canAlloc, Bool.not_eq_true'] at h
    exact h.2.1.1.1.1.1.2
  · simp only [canAllocSerial, Bool.and_eq_true, Bool.not_eq_true'] at h
    exact h.1.1.2
  · simp only [canAllocSerial, Bool.and_eq_true, Bool.not_eq_true'] at h
    exact h.1.1.2
  · cases h

theorem allocatesTwo_uqNextFull (h : s.allocatesTwo i = true) : i.uqNextFull = false := by
  simp only [allocatesTwo, canAllocTwo, Bool.and_eq_true, Bool.not_eq_true'] at h
  exact h.2.1.1.1.1.2

theorem uqPush_allocates (h : s.uqPush (s.comb i) = true) : s.allocates i = true := by
  simp only [uqPush, tPush1, tPush2, comb_tAlloc, comb_tAllocTwo, Bool.or_eq_true,
    Bool.and_eq_true] at h
  exact h.elim And.left fun h => (allocatesTwo_allocates h.1).1

theorem uqPushTwo_allocatesTwo (h : s.uqPushTwo (s.comb i) = true) :
    s.allocatesTwo i = true ∧ s.uqPush (s.comb i) = true := by
  simp only [uqPushTwo, tPush2, comb_tAllocTwo, Bool.and_eq_true] at h
  exact ⟨h.1.1, by simp [uqPush, h.2]⟩

end Core

namespace Pipeline
open MipsCore.Core Exec
variable {p : Pipeline} {i : PipelineIn} {cls : Uop → Bool}

/-- The strobes of the cycle. -/
def comb (p : Pipeline) (i : PipelineIn) : Comb := p.core.comb (p.coreIn i)
/-- What the execution unit reads in the cycle. -/
def toExec (p : Pipeline) (i : PipelineIn) : ExecIn := p.execIn i (p.comb i)

theorem offered : Offered p.exec (p.toExec i) where
  push h := allocates_uqFull (uqPush_allocates h)
  pushTwo h :=
    ⟨(uqPushTwo_allocatesTwo h).2, allocatesTwo_uqNextFull (uqPushTwo_allocatesTwo h).1⟩

/-- What is pushed is what the cycle allocates, renamed, unless it folds. -/
theorem mem_pushed_cases {u : Uop} (h : u ∈ pushed (p.toExec i) cls) :
    p.core.allocates (p.coreIn i) = true ∧ p.core.tFoldUop = false ∧
        u = p.core.tAllocUop (p.comb i) ∨
      p.core.allocatesTwo (p.coreIn i) = true ∧ p.core.tFoldUop2 = false ∧
        u = p.core.tAllocUop2 (p.comb i) := by
  rcases (mem_pushed offered h).2 with ⟨hp, rfl⟩ | ⟨hp, rfl⟩
  · have hp : p.core.uqPush (p.comb i) = true := hp
    change _ ∧ _ ∧ p.core.uqUop (p.comb i) = _ ∨ _ ∧ _ ∧ p.core.uqUop (p.comb i) = _
    simp only [uqPush, tPush1, tPush2, Bool.or_eq_true, Bool.and_eq_true, Bool.not_eq_true', comb,
      comb_tAlloc, comb_tAllocTwo] at hp
    unfold uqUop tPush1
    rw [comb, comb_tAlloc]
    cases h1 : p.core.allocates (p.coreIn i) && !p.core.tFoldUop with
    | true =>
      rw [Bool.and_eq_true, Bool.not_eq_true'] at h1
      exact Or.inl ⟨h1.1, h1.2, by simp⟩
    | false =>
      have h2 := hp.resolve_left fun hc => by simp [hc.1, hc.2] at h1
      exact Or.inr ⟨h2.1, h2.2, by simp⟩
  · have hp : p.core.uqPushTwo (p.comb i) = true := hp
    simp only [uqPushTwo, tPush2, Bool.and_eq_true, Bool.not_eq_true', comb, comb_tAllocTwo] at hp
    exact Or.inr ⟨hp.1.1, hp.1.2, rfl⟩

/-- A decoder property of the waiting uops, and the property that it becomes by renaming, of what
is in flight to the integer unit and to memory. -/
structure Flow (P Q : Uop → Prop) (p : Pipeline) : Prop where
  dq : p.core.DqPointers
  queue : ∀ u ∈ p.core.queue, P u
  queues : p.exec.QueuesOk
  flight : IntInFlight Q p.exec
  memFlight : ∀ u ∈ p.exec.memUqWindow, Q u

theorem reset_flow (P Q : Uop → Prop) (rob : RobPtr → RobEntry) (dq : BitVec 2 → Uop)
    (m : ExecInit) : Flow P Q (reset rob dq m) where
  dq := reset_dqPointers rob dq
  queue := by simp [reset, reset_queue]
  queues := reset_queuesOk m
  flight := reset_intInFlight Q m
  memFlight := by simp [reset, memUqWindow, Exec.reset, Ring.contents]

theorem step_flow {P Q : Uop → Prop} (hP : ∀ m f, P (decodeMips32 m f)) (h : Flow P Q p)
    (h1 : p.core.allocates (p.coreIn i) = true → P p.core.tUop → Q (p.core.tAllocUop (p.comb i)))
    (h2 : p.core.allocatesTwo (p.coreIn i) = true → P p.core.tUop2 →
      Q (p.core.tAllocUop2 (p.comb i))) : Flow P Q (p.step i) := by
  have hpush : ∀ cls, ∀ u ∈ pushed (p.toExec i) cls, Q u := by
    intro cls u hu
    rcases mem_pushed_cases hu with ⟨ha, -, rfl⟩ | ⟨ha, -, rfl⟩
    · exact h1 ha (h.queue _ (tUop_mem ha))
    · exact h2 ha (h.queue _ (tUop2_mem h.dq ha))
  exact
    { dq := step_dqPointers h.dq
      queue := step_queue_forall hP h.dq h.queue
      queues := step_queuesOk h.queues offered
      flight := step_intInFlight h.flight h.queues offered (hpush _)
      memFlight := fun u hu =>
        (mem_memUqWindow_step h.queues offered hu).elim (h.memFlight u) (hpush _ u) }

end Pipeline
end MipsCore
