import MipsCore.Exec.Dispatch
import MipsCore.Pipeline.Flow
import Mathlib.Data.List.Permutation

/-! # Order of the uop queues

Whatever the core allocates under its guards, a queue delivers the pushed uops of
its class in the order of their allocation: since the last flush, the uops of a
class are the delivered ones and behind them the waiting ones.
-/
namespace MipsCore
open Clocked

namespace UopQueue
open Exec
variable {e : Exec} {i : ExecIn}

/-- The waiting uops, oldest first. -/
def window : UopQueue → Exec → List Uop
  | int, e => e.uqWindow
  | mem, e => e.memUqWindow
  | fp, e => Ring.contents e.fpUq e.fpUqHeadPtr (Ring.count e.fpUqHeadPtr e.fpUqTailPtr)

/-- The head leaves the queue: for the integer scheduler, as a memory request, or for the
floating-point unit. -/
def pops : UopQueue → Exec → ExecIn → Bool
  | int, e, i => e.tPopUq i
  | mem, e, i => e.tPopMemUq i
  | fp, e, i => e.tPopFpUq i

def head : UopQueue → Exec → Uop
  | int, e => e.uqHead
  | mem, e => e.memUqHead
  | fp, e => e.fpUqHead

/-- The uops that a cycle takes out of the queue. -/
def popped (q : UopQueue) (e : Exec) (i : ExecIn) : List Uop :=
  if q.pops e i then [q.head e] else []

theorem step_window (q : UopQueue) (hq : e.QueuesOk) (ho : Offered e i) :
    q.window (e.step i) =
      if i.dsDone then [] else (q.window e ++ pushed i q.takes).drop (q.pops e i).toNat := by
  cases q with
  | int =>
    exact (queue_cycle hq.uq (fun h => (offered_full ho h).1) (fun h => (offered_nextFull ho h).1)
      tPopUq_nonempty).2
  | mem =>
    exact (queue_cycle hq.memUq (fun h => (offered_full ho h).2.1)
      (fun h => (offered_nextFull ho h).2.1) tPopMemUq_nonempty).2
  | fp =>
    exact (queue_cycle hq.fpUq (fun h => (offered_full ho h).2.2)
      (fun h => (offered_nextFull ho h).2.2) tPopFpUq_nonempty).2

/-- What is pushed fits behind what waits. -/
theorem window_room (q : UopQueue) (hq : e.QueuesOk) (ho : Offered e i) :
    (q.window e).length + (pushed i q.takes).length ≤ 8 := by
  cases q with
  | int =>
    rw [window, uqWindow, Ring.length_contents]
    exact (queue_push (q := e.uq) hq.uq (fun h => (offered_full ho h).1)
      (fun h => (offered_nextFull ho h).1)).1
  | mem =>
    rw [window, memUqWindow, Ring.length_contents]
    exact (queue_push (q := e.memUq) hq.memUq (fun h => (offered_full ho h).2.1)
      (fun h => (offered_nextFull ho h).2.1)).1
  | fp =>
    rw [window, Ring.length_contents]
    exact (queue_push (q := e.fpUq) hq.fpUq (fun h => (offered_full ho h).2.2)
      (fun h => (offered_nextFull ho h).2.2)).1

theorem window_le (q : UopQueue) (hq : e.QueuesOk) : (q.window e).length ≤ 8 := by
  have hidle : Offered e {} :=
    ⟨fun h => absurd h Bool.false_ne_true, fun h => absurd h Bool.false_ne_true⟩
  have hroom := q.window_room hq hidle
  omega

/-- What leaves the queue is the oldest of what waits. -/
theorem window_popped (q : UopQueue) :
    q.window e = q.popped e i ++ (q.window e).drop (q.pops e i).toNat := by
  have hcons : ∀ {m : BitVec 3 → Uop} {h t : BitVec 4}, h ≠ t →
      Ring.contents m h (Ring.count h t) =
        [m (Ring.slot h)] ++ (Ring.contents m h (Ring.count h t)).drop 1 := by
    intro m h t hne
    rw [Ring.contents_pop _ _ (Nat.pos_of_ne_zero (mt Ring.count_eq_zero.mp hne))]
    rfl
  unfold popped
  cases hp : q.pops e i with
  | false => rfl
  | true =>
    cases q with
    | int => exact hcons (tPopUq_nonempty hp)
    | mem => exact hcons (tPopMemUq_nonempty hp)
    | fp => exact hcons (tPopFpUq_nonempty hp)

theorem pops_le (q : UopQueue) : (q.pops e i).toNat ≤ (q.window e).length := by
  have hlen := congrArg List.length (q.window_popped (e := e) (i := i))
  rw [List.length_append, popped] at hlen
  cases hp : q.pops e i with
  | false => exact Nat.zero_le _
  | true =>
    rw [hp, if_pos rfl, List.length_singleton] at hlen
    rw [hlen]
    exact Nat.le_add_right 1 _

end UopQueue

/-! ## Allocation -/

/-- What the core allocates in a cycle: the strobes, the fold flags and the renamed uops. -/
structure Alloc where
  tAlloc : Bool := false
  tAllocTwo : Bool := false
  tFoldUop : Bool := false
  tFoldUop2 : Bool := false
  tAllocUop : Uop := {}
  tAllocUop2 : Uop := {}

namespace Alloc
variable (a : Alloc) (i : ExecIn)

def tPush1 : Bool := a.tAlloc && !a.tFoldUop
def tPush2 : Bool := a.tAllocTwo && !a.tFoldUop2

/-- The uops that the allocation pushes, in program order. -/
def pushes : List Uop :=
  (if a.tPush1 then [a.tAllocUop] else []) ++ if a.tPush2 then [a.tAllocUop2] else []

/-- The execution unit's ports: behind a folded uop the second one takes the first port. -/
def drive : ExecIn :=
  { i with
    uqUop := if a.tPush1 then a.tAllocUop else a.tAllocUop2
    uqUopTwo := a.tAllocUop2
    uqPush := a.tPush1 || a.tPush2
    uqPushTwo := a.tPush2 && a.tPush1 }

/-- A queue takes the pushed uops of its class, in their order. -/
theorem pushed_drive (cls : Uop → Bool) : Exec.pushed (a.drive i) cls = a.pushes.filter cls := by
  unfold Exec.pushed Exec.pushTwo Exec.pushOne Exec.pushUop pushes drive Exec.pushTwo
  cases a.tPush1 <;> cases a.tPush2 <;> cases h1 : cls a.tAllocUop <;>
    cases h2 : cls a.tAllocUop2 <;> simp [h1, h2]

/-- The core's guards: no queue is full, and behind an allocated uop none is full for a second. -/
structure Guards (e : Exec) : Prop where
  one : a.tAlloc = true → e.uqFull = false
  two : a.tAllocTwo = true → a.tAlloc = true ∧ e.uqNextFull = false

variable {a i} {e : Exec}

theorem Guards.offered (h : a.Guards e) : Exec.Offered e (a.drive i) where
  push hp := by
    have hp : (a.tPush1 || a.tPush2) = true := hp
    simp only [tPush1, tPush2, Bool.or_eq_true, Bool.and_eq_true] at hp
    exact hp.elim (fun h1 => h.one h1.1) fun h2 => h.one (h.two h2.1).1
  pushTwo hp := by
    have hp : (a.tPush2 && a.tPush1) = true := hp
    rw [Bool.and_eq_true] at hp
    refine ⟨?_, ?_⟩
    · change (a.tPush1 || a.tPush2) = true
      rw [hp.2, Bool.true_or]
    · exact (h.two (Bool.and_eq_true_iff.mp hp.1).1).2

end Alloc

/-- The allocation of the core in a cycle of the pipeline. -/
def Pipeline.allocation (p : Pipeline) (i : PipelineIn) : Alloc where
  tAlloc := (p.comb i).tAlloc
  tAllocTwo := (p.comb i).tAllocTwo
  tFoldUop := p.core.tFoldUop
  tFoldUop2 := p.core.tFoldUop2
  tAllocUop := p.core.tAllocUop (p.comb i)
  tAllocUop2 := p.core.tAllocUop2 (p.comb i)

/-- The core drives the execution unit with its allocation, and under its guards. -/
theorem Pipeline.toExec_eq_drive (p : Pipeline) (i : PipelineIn) :
    p.toExec i = (p.allocation i).drive (p.toExec i) ∧ (p.allocation i).Guards p.exec := by
  refine ⟨rfl, fun h => ?_, fun h => ?_⟩
  · exact Core.allocates_uqFull (i := p.coreIn i) ((Core.comb_tAlloc ..).symm.trans h)
  · have h2 : p.core.allocatesTwo (p.coreIn i) = true := (Core.comb_tAllocTwo ..).symm.trans h
    refine ⟨?_, Core.allocatesTwo_uqNextFull h2⟩
    exact (Core.comb_tAlloc ..).trans (Core.allocatesTwo_allocates h2).1

/-! ## Every run -/

/-- The uop belongs to one of the three classes. -/
def OneQueue (u : Uop) : Prop := u.isInt.toNat + u.isMem.toNat + u.isFp.toNat = 1

instance (u : Uop) : Decidable (OneQueue u) := inferInstanceAs (Decidable (_ = _))

/-- The execution unit, the uops pushed since the last flush, and what each queue has delivered of
them. -/
structure UopLedger where
  exec : Exec
  log : List Uop
  delivered : UopQueue → List Uop

namespace UopLedger
variable (h : UopLedger) (x : Alloc × ExecIn)

def reset (m : ExecInit) : UopLedger where
  exec := Exec.reset m
  log := []
  delivered := fun _ => []

/-- What the execution unit reads in the cycle. -/
def execIn : ExecIn := x.1.drive x.2

def step : UopLedger where
  exec := h.exec.step (execIn x)
  log := if x.2.dsDone then [] else h.log ++ x.1.pushes
  delivered := fun q =>
    if x.2.dsDone then [] else h.delivered q ++ q.popped h.exec (execIn x)

/-- The core's guards, and one class for each uop that is pushed. -/
def Allowed : Prop :=
  (x.1.tAlloc = true → h.exec.uqFull = false) ∧
    (x.1.tAllocTwo = true → x.1.tAlloc = true ∧ h.exec.uqNextFull = false) ∧
    ∀ u ∈ x.1.pushes, OneQueue u

instance : Decidable (h.Allowed x) := inferInstanceAs (Decidable (_ ∧ _ ∧ _))

/-- The uops that have passed through a queue or wait in it. -/
def passed (q : UopQueue) : List Uop := h.delivered q ++ q.window h.exec

/-- Each queue has delivered and holds the pushed uops of its class in their order and within its
capacity, all queues together hold and have delivered every pushed uop once. -/
structure Ordered : Prop where
  order : ∀ q : UopQueue, h.passed q = h.log.filter q.takes
  once : (h.passed .int ++ (h.passed .mem ++ h.passed .fp)).Perm h.log
  capacity : ∀ q : UopQueue, (q.window h.exec).length ≤ 8

structure Inv : Prop where
  queues : h.exec.QueuesOk
  order : ∀ q : UopQueue, h.passed q = h.log.filter q.takes
  classes : ∀ u ∈ h.log, OneQueue u

variable {h x}

theorem Allowed.offered (hg : h.Allowed x) : Exec.Offered h.exec (execIn x) :=
  Alloc.Guards.offered ⟨hg.1, hg.2.1⟩

theorem reset_inv (m : ExecInit) : (reset m).Inv where
  queues := Exec.reset_queuesOk m
  order q := by cases q <;> simp [passed, reset, UopQueue.window, Exec.uqWindow, Exec.memUqWindow,
    Exec.reset, Ring.contents]
  classes := by simp [reset]

theorem step_order (hi : h.Inv) (hg : h.Allowed x) (q : UopQueue) :
    (h.step x).passed q = (h.step x).log.filter q.takes := by
  have hw := q.step_window hi.queues hg.offered
  have hd : (execIn x).dsDone = x.2.dsDone := rfl
  have hpush : Exec.pushed (execIn x) q.takes = x.1.pushes.filter q.takes := x.1.pushed_drive ..
  rw [hd, hpush] at hw
  unfold passed step
  rw [hw]
  cases x.2.dsDone with
  | true => rfl
  | false =>
    have hpop := q.window_popped (e := h.exec) (i := execIn x)
    simp only [Bool.false_eq_true, if_false]
    rw [List.drop_append_of_le_length q.pops_le, List.filter_append, ← hi.order q, passed,
      List.append_assoc, ← List.append_assoc (q.popped ..), ← hpop, List.append_assoc]

theorem step_inv (hi : h.Inv) (hg : h.Allowed x) : (h.step x).Inv where
  queues := Exec.step_queuesOk hi.queues hg.offered
  order := step_order hi hg
  classes u hu := by
    unfold step at hu
    split_ifs at hu
    · cases hu
    · exact (List.mem_append.mp hu).elim (hi.classes u) (hg.2.2 u)

/-- Uops of one class each, sorted by class. -/
theorem perm_classes {us : List Uop} (hu : ∀ u ∈ us, OneQueue u) :
    (us.filter Uop.isInt ++ (us.filter Uop.isMem ++ us.filter Uop.isFp)).Perm us := by
  induction us with
  | nil => exact .nil
  | cons u us ih =>
    have hus := ih fun v hv => hu v (List.mem_cons_of_mem u hv)
    have hone := hu u List.mem_cons_self
    unfold OneQueue at hone
    cases hi : u.isInt <;> cases hm : u.isMem <;> cases hf : u.isFp <;> simp [hi, hm, hf] at hone
    · rw [List.filter_cons_of_neg (by simp [hi]), List.filter_cons_of_neg (by simp [hm]),
        List.filter_cons_of_pos hf, ← List.append_assoc]
      rw [← List.append_assoc] at hus
      exact List.perm_middle.trans (hus.cons u)
    · rw [List.filter_cons_of_neg (by simp [hi]), List.filter_cons_of_pos hm,
        List.filter_cons_of_neg (by simp [hf]), List.cons_append]
      exact List.perm_middle.trans (hus.cons u)
    · rw [List.filter_cons_of_pos hi, List.filter_cons_of_neg (by simp [hm]),
        List.filter_cons_of_neg (by simp [hf]), List.cons_append]
      exact hus.cons u

theorem Inv.ordered (hi : h.Inv) : h.Ordered where
  order := hi.order
  once := by
    rw [hi.order, hi.order, hi.order]
    exact perm_classes hi.classes
  capacity q := q.window_le hi.queues

/-- In every run in which the core allocates under its guards uops of one class each, every queue
delivers the pushed uops of its class in their order, each once, and what the next cycle pushes
fits. -/
theorem run_ordered (m : ExecInit) (inputs : List (Alloc × ExecIn))
    (hg : Guarded step Allowed (reset m) inputs) :
    (run step (reset m) inputs).Ordered ∧
      ∀ x, (run step (reset m) inputs).Allowed x → ∀ q : UopQueue,
        (q.window (run step (reset m) inputs).exec).length +
          (x.1.pushes.filter q.takes).length ≤ 8 := by
  have hi := hg.invariant (fun _ _ hi hx => step_inv hi hx) (reset_inv m)
  refine ⟨hi.ordered, fun x hx q => ?_⟩
  have hroom := q.window_room hi.queues hx.offered
  have hpush : Exec.pushed (execIn x) q.takes = x.1.pushes.filter q.takes := x.1.pushed_drive ..
  rwa [hpush] at hroom

/-- A cycle that allocates a pair, the first of which may be folded. -/
def pairCycle (fold : Bool) (u v : Uop) : Alloc × ExecIn :=
  ({ tAlloc := true, tAllocTwo := true, tFoldUop := fold, tAllocUop := u, tAllocUop2 := v }, {})

/-- A pair of memory operations, an integer operation behind a folded uop, and a memory operation
behind a floating-point operation. -/
def mixRun : List (Alloc × ExecIn) :=
  [pairCycle false { op := .LW, isMem := true } { op := .SW, isMem := true, robPtr := 1 },
    pairCycle true { op := .NOP } { op := .ADDU, isInt := true, robPtr := 3 },
    pairCycle false { op := .DP_ADD, isFp := true } { op := .LW, isMem := true, robPtr := 5 },
    ({}, {})]

theorem run_ordered_mix : (run step (reset {}) mixRun).Ordered :=
  (run_ordered {} mixRun (by decide +kernel)).1

end UopLedger
end MipsCore
