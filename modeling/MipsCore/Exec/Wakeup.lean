import MipsCore.Exec.Queues
import MipsCore.Exec.Fpu
import Mathlib.Data.List.Cycle

/-! # Wakeup of the integer scheduler

The ready bits of the scheduler follow the scoreboards: the source of a valid entry is
ready exactly when the register it names is not in flight, whatever the latencies of
the units that write it.
-/
namespace MipsCore
namespace Exec
open Clocked
open BitMask (getLsbD_setBitIf_true getLsbD_setBitIf_false)
open Ring (writeIf)
variable {e : Exec} {i : ExecIn}

/-! ## Registers and sources -/

/-- A renamed register that an integer uop may wait for. -/
inductive Reg
  | gpr (p : PrfPtr)
  | hilo (p : HiloPtr)
  | fcr (p : HiloPtr)
  deriving DecidableEq, Repr

/-- The sources of a scheduler entry, each with a ready bit. -/
inductive Source
  | A | B | C | hilo | fcr
  deriving DecidableEq, Repr

namespace Source

def valid (u : Uop) : Source → Bool
  | A => u.srcAValid
  | B => u.srcBValid
  | C => u.srcCValid
  | hilo => u.hiloSrcValid
  | fcr => u.fcrSrcValid

def reg (u : Uop) : Source → Reg
  | A => .gpr u.srcA
  | B => .gpr u.srcB
  | C => .gpr u.srcC
  | hilo => .hilo u.hiloSrc
  | fcr => .fcr u.hiloSrc

/-- The ready bits of the entries. -/
def rdy (e : Exec) : Source → BitVec 4
  | A => e.aluSrcARdy
  | B => e.aluSrcBRdy
  | C => e.aluSrcCRdy
  | hilo => e.aluHiloRdy
  | fcr => e.aluFcrRdy

end Source

/-- The register is in flight on the scoreboard of its class. -/
def inFlight (e : Exec) : Reg → Bool
  | .gpr p => e.intBusy p
  | .hilo p => e.hiloInflight.getLsbD p.toNat
  | .fcr p => e.fcrPrfInflight.getLsbD p.toNat

/-- A result of the cycle is for the register. -/
def written (e : Exec) (i : ExecIn) : Reg → Bool
  | .gpr p => e.wakes i p
  | .hilo p => e.wakesHilo i p
  | .fcr p => wakesFcr i p

/-- The register is the destination of the uop. -/
def targets (u : Uop) : Reg → Bool
  | .gpr p => u.dstValid && u.dst == p
  | .hilo p => u.hiloDstValid && u.hiloDst == p
  | .fcr p => u.fcrDstValid && u.hiloDst == p

/-- The register is a destination that the cycle pushes. -/
def pushesDst (i : ExecIn) (r : Reg) : Bool :=
  i.uqPush && targets i.uqUop r || i.uqPushTwo && targets i.uqUopTwo r

/-! ## Scoreboards -/

/-- A register is in flight after a cycle that pushes it as a destination, until it is written. -/
theorem step_inFlight (r : Reg) :
    (e.step i).inFlight r = (!i.dsDone && !e.written i r && (pushesDst i r || e.inFlight r)) := by
  cases hd : i.dsDone with
  | true => cases r <;> simp [inFlight, intBusy, step, hd]
  | false =>
    cases r with
    | gpr p =>
      have he : (e.step i).prfInflight = e.nPrfInflight i := by simp [step, hd]
      have hw : 2 ^ 6 ≤ 64 := by decide
      simp only [inFlight, intBusy, he, nPrfInflight, getLsbD_setBitIf_true hw,
        getLsbD_setBitIf_false hw, written, wakes, pushesDst, targets, Bool.not_or, Bool.not_false,
        Bool.true_and]
      ac_rfl
    | hilo p =>
      have he : (e.step i).hiloInflight = e.nHiloInflight i := by simp [step, hd]
      have hw : 2 ^ 2 ≤ 4 := by decide
      simp only [inFlight, he, nHiloInflight, getLsbD_setBitIf_true hw, getLsbD_setBitIf_false hw,
        written, wakesHilo, pushesDst, targets, Bool.not_or, Bool.not_false, Bool.true_and]
      ac_rfl
    | fcr p =>
      have he : (e.step i).fcrPrfInflight = e.nFcrPrfInflight i := by simp [step, hd]
      have hw : 2 ^ 2 ≤ 4 := by decide
      simp only [inFlight, he, nFcrPrfInflight, getLsbD_setBitIf_true hw, getLsbD_setBitIf_false hw,
        written, wakesFcr, pushesDst, targets, Bool.not_false, Bool.true_and]
      ac_rfl

/-! ## Ready bits -/

/-- The source is ready: its register is not in flight or a result of the cycle is for it. -/
def available (e : Exec) (i : ExecIn) (u : Uop) (s : Source) : Bool :=
  !e.inFlight (s.reg u) || e.written i (s.reg u)

/-- A result of the cycle is for the source. -/
def srcMatch (e : Exec) (i : ExecIn) (u : Uop) (s : Source) : Bool :=
  s.valid u && e.written i (s.reg u)

/-- The ready bits after the cycle, one definition for the five kinds of sources. -/
theorem step_rdy (s : Source) :
    s.rdy (e.step i) =
      e.nSrcRdy i
        (allocRdy (s.valid e.uqHead) (e.inFlight (s.reg e.uqHead)) (e.srcMatch i e.uqHead s))
        (fun u => e.srcMatch i u s) (s.rdy e) := by
  cases s <;> rfl

/-- Each valid entry's ready bits tell which of its sources are not in flight. -/
def Tracks (e : Exec) : Prop :=
  ∀ (s : Source) (k : BitVec 2), e.aluSchedValid.getLsbD k.toNat = true →
    (s.rdy e).getLsbD k.toNat =
      !(s.valid (e.aluSchedUops k) && e.inFlight (s.reg (e.aluSchedUops k)))

/-- The uop waits in a valid scheduler entry, or is the one that the cycle allocates. -/
def Waits (e : Exec) (i : ExecIn) (u : Uop) : Prop :=
  e.tPopUq i = true ∧ u = e.uqHead ∨
    ∃ k : BitVec 2, e.aluSchedValid.getLsbD k.toNat = true ∧ u = e.aluSchedUops k

/-- No uop is pushed over a register that a waiting uop still reads. -/
def SparesSources (e : Exec) (i : ExecIn) : Prop :=
  ∀ u, e.Waits i u → ∀ s : Source, s.valid u = true → pushesDst i (s.reg u) = false

theorem reset_tracks (m : ExecInit) : (Exec.reset m).Tracks := by
  intro s k hk
  simp [Exec.reset] at hk

/-- The source of a waiting uop is in flight after the cycle unless it is available in it. -/
theorem SparesSources.step_inFlight (hg : e.SparesSources i) (hd : i.dsDone = false) {u : Uop}
    (hw : e.Waits i u) {s : Source} (hs : s.valid u = true) :
    (e.step i).inFlight (s.reg u) = !e.available i u s := by
  rw [Exec.step_inFlight, hd, hg u hw s hs, available, Bool.not_or, Bool.not_not, Bool.not_false,
    Bool.true_and, Bool.false_or, Bool.and_comm]

theorem step_tracks (h : e.Tracks) (hg : e.SparesSources i) : (e.step i).Tracks := by
  intro s k hk
  obtain ⟨hd, hsel, hv⟩ := step_aluSchedValid.mp hk
  have hu : (e.step i).aluSchedUops = writeIf (e.tPopUq i) e.allocPtr e.uqHead e.aluSchedUops := rfl
  rw [step_rdy, nSrcRdy, getLsbD_entryMask, hu, writeIf]
  simp only [Bool.and_eq_true, beq_iff_eq]
  by_cases ha : e.tPopUq i = true ∧ k = e.allocPtr
  · obtain ⟨hp, rfl⟩ := ha
    rw [if_pos ⟨hp, rfl⟩, if_pos hp, Function.update_self, allocRdy, srcMatch]
    cases hs : s.valid e.uqHead with
    | false => rfl
    | true =>
      rw [hg.step_inFlight hd (Or.inl ⟨hp, rfl⟩) hs, available]
      simp
  · have hval := hv.resolve_left ha
    have hkeep : (if e.tPopUq i = true then Function.update e.aluSchedUops e.allocPtr e.uqHead
        else e.aluSchedUops) k = e.aluSchedUops k := by
      split_ifs with hp
      · exact Function.update_of_ne (fun hka => ha ⟨hp, hka⟩) _ _
      · rfl
    rw [if_neg ha, if_neg hsel, if_pos hval, hkeep, h s k hval, srcMatch]
    cases hs : s.valid (e.aluSchedUops k) with
    | false => rfl
    | true =>
      rw [hg.step_inFlight hd (Or.inr ⟨k, hval, rfl⟩) hs, available]
      simp

/-! ## Issue -/

/-- An entry is ready exactly when its unit is free and every source it uses is available. -/
theorem Tracks.entryRdy_iff (h : e.Tracks) {k : BitVec 2}
    (hk : e.aluSchedValid.getLsbD k.toNat = true) :
    e.entryRdy i k = true ↔ e.unitFree i (e.aluSchedUops k).op = true ∧
      ∀ s : Source, s.valid (e.aluSchedUops k) = true → e.available i (e.aluSchedUops k) s = true := by
  have hsrc : ∀ s : Source, (e.srcMatch i (e.aluSchedUops k) s || (s.rdy e).getLsbD k.toNat) = true ↔
      (s.valid (e.aluSchedUops k) = true → e.available i (e.aluSchedUops k) s = true) := by
    intro s
    rw [h s k hk, srcMatch, available]
    cases s.valid (e.aluSchedUops k) <;> simp [Bool.or_comm]
  have hall : e.entryRdy i k = true ↔ e.unitFree i (e.aluSchedUops k).op = true ∧
      ∀ s : Source, (e.srcMatch i (e.aluSchedUops k) s || (s.rdy e).getLsbD k.toNat) = true := by
    rw [entryRdy, hk, Bool.true_and, Bool.and_eq_true]
    refine and_congr_right fun _ => ?_
    simp only [Bool.and_eq_true]
    constructor
    · rintro ⟨⟨⟨⟨hA, hB⟩, hC⟩, hh⟩, hf⟩ s
      cases s <;> assumption
    · intro hs
      exact ⟨⟨⟨⟨hs .A, hs .B⟩, hs .C⟩, hs .hilo⟩, hs .fcr⟩
  rw [hall]
  exact and_congr_right fun _ => forall_congr' hsrc

/-- The sources of the latched uop are not in flight. -/
def Latched (e : Exec) : Prop :=
  e.startInt = true → ∀ s : Source, s.valid e.intUop = true → e.inFlight (s.reg e.intUop) = false

theorem step_latched (h : e.Tracks) (hg : e.SparesSources i) : (e.step i).Latched := by
  intro hs s hv
  have hst : (e.step i).startInt = (e.selects i && !i.dsDone) := rfl
  rw [hst, Bool.and_eq_true, Bool.not_eq_true'] at hs
  obtain ⟨hsel, hd⟩ := hs
  have hval := selects_valid hsel
  have ha := ((h.entryRdy_iff hval).mp (selects_entryRdy hsel)).2 s hv
  have hin := hg.step_inFlight hd (Or.inr ⟨e.selectPtr i, hval, rfl⟩) hv
  rw [ha] at hin
  exact hin

/-! ## Runs -/

/-- The wakeup of a cycle is exact: a source is marked ready or matches exactly when its register
is not in flight or is being written, nothing is issued before its operands are written, and an
entry waits for nothing but its operands and its unit. -/
structure WakesExactly (e : Exec) (i : ExecIn) : Prop where
  marked : ∀ (s : Source) (k : BitVec 2), e.aluSchedValid.getLsbD k.toNat = true →
    s.valid (e.aluSchedUops k) = true →
      ((s.rdy e).getLsbD k.toNat = true ∨ e.written i (s.reg (e.aluSchedUops k)) = true ↔
        e.inFlight (s.reg (e.aluSchedUops k)) = false ∨
          e.written i (s.reg (e.aluSchedUops k)) = true)
  notEarly : e.selects i = true → ∀ s : Source, s.valid (e.aluSchedUops (e.selectPtr i)) = true →
    e.inFlight (s.reg (e.aluSchedUops (e.selectPtr i))) = false ∨
      e.written i (s.reg (e.aluSchedUops (e.selectPtr i))) = true
  notLate : ∀ k : BitVec 2, e.aluSchedValid.getLsbD k.toNat = true →
    e.unitFree i (e.aluSchedUops k).op = true →
      (∀ s : Source, s.valid (e.aluSchedUops k) = true →
        e.inFlight (s.reg (e.aluSchedUops k)) = false ∨
          e.written i (s.reg (e.aluSchedUops k)) = true) → e.entryRdy i k = true

theorem available_iff {u : Uop} {s : Source} :
    e.available i u s = true ↔ e.inFlight (s.reg u) = false ∨ e.written i (s.reg u) = true := by
  rw [available, Bool.or_eq_true, Bool.not_eq_true']

theorem Tracks.wakesExactly (h : e.Tracks) (i : ExecIn) : e.WakesExactly i where
  marked := by
    intro s k hk hs
    rw [h s k hk, hs, Bool.true_and, Bool.not_eq_true']
  notEarly := by
    intro hsel s hs
    exact available_iff.mp (((h.entryRdy_iff (selects_valid hsel)).mp (selects_entryRdy hsel)).2 s hs)
  notLate := by
    intro k hk hu hs
    exact (h.entryRdy_iff hk).mpr ⟨hu, fun s hv => available_iff.mpr (hs s hv)⟩

/-- The run has pushed the register as a destination and neither written it since, in that cycle
or later, nor flushed the unit. -/
def Awaited (r : Reg) : Exec → List ExecIn → Prop :=
  Since Exec.step (fun _ i => pushesDst i r = true)
    (fun e i => i.dsDone = true ∨ e.written i r = true)

/-- The scoreboards hold what the run awaits. -/
theorem inFlight_iff_awaited (m : ExecInit) (inputs : List ExecIn) (r : Reg) :
    (run Exec.step (Exec.reset m) inputs).inFlight r = true ↔
      Awaited r (Exec.reset m) inputs := by
  refine flag_iff_since (P := fun e : Exec => e.inFlight r = true) (fun e i => ?_) ?_ inputs
  · rw [step_inFlight]
    cases i.dsDone <;> cases e.written i r <;> simp
  · cases r <;> simp [inFlight, intBusy, Exec.reset]

/-- In every run that spares the sources of waiting uops, wakeup is exact in every cycle, the
latched uop's operands have been written, and in flight is what the run has pushed and not
written since. -/
theorem wakeup_exact (m : ExecInit) (inputs : List ExecIn)
    (hg : Guarded Exec.step SparesSources (Exec.reset m) inputs) :
    (∀ i, (run Exec.step (Exec.reset m) inputs).WakesExactly i) ∧
      (run Exec.step (Exec.reset m) inputs).Latched ∧
      ∀ r, (run Exec.step (Exec.reset m) inputs).inFlight r = true ↔
        Awaited r (Exec.reset m) inputs := by
  have h0 : (Exec.reset m).Tracks ∧ (Exec.reset m).Latched :=
    ⟨reset_tracks m, fun h => by cases h⟩
  have hstep : ∀ (e : Exec) (i : ExecIn), e.Tracks ∧ e.Latched → e.SparesSources i →
      (e.step i).Tracks ∧ (e.step i).Latched :=
    fun _ _ h hs => ⟨step_tracks h.1 hs, step_latched h.1 hs⟩
  have hinv := hg.invariant hstep h0
  exact ⟨hinv.1.wakesExactly, hinv.2, inFlight_iff_awaited m inputs⟩

theorem Source.forall_iff {P : Source → Prop} :
    (∀ s, P s) ↔ P .A ∧ P .B ∧ P .C ∧ P .hilo ∧ P .fcr := by
  refine ⟨fun h => ⟨h _, h _, h _, h _, h _⟩, fun ⟨hA, hB, hC, hh, hf⟩ s => ?_⟩
  cases s <;> assumption

instance {P : Source → Prop} [DecidablePred P] : Decidable (∀ s, P s) :=
  decidable_of_iff _ Source.forall_iff.symm

instance : Decidable (SparesSources e i) :=
  decidable_of_iff
    ((e.tPopUq i = true →
        ∀ s : Source, s.valid e.uqHead = true → pushesDst i (s.reg e.uqHead) = false) ∧
      ∀ k : BitVec 2, e.aluSchedValid.getLsbD k.toNat = true →
        ∀ s : Source, s.valid (e.aluSchedUops k) = true →
          pushesDst i (s.reg (e.aluSchedUops k)) = false)
    ⟨fun h _ hu => hu.elim (fun ⟨hp, he⟩ => he ▸ h.1 hp) fun ⟨k, hk, he⟩ => he ▸ h.2 k hk,
      fun h => ⟨fun hp => h _ (Or.inl ⟨hp, rfl⟩), fun k hk => h _ (Or.inr ⟨k, hk, rfl⟩)⟩⟩

/-- A load of `$6` and an addition that waits for it. -/
def loadThenAdd : ExecIn where
  uqPush := true
  uqUop := { op := .LW, isMem := true, dst := 6, dstValid := true }
  uqPushTwo := true
  uqUopTwo :=
    { op := .ADDU, isInt := true, srcA := 5, srcAValid := true, srcB := 6, srcBValid := true,
      dst := 7, dstValid := true, robPtr := 1 }

/-- An addition that writes a register. -/
def addInto (p : PrfPtr) : ExecIn where
  uqPush := true
  uqUop := { op := .ADDU, isInt := true, dst := p, dstValid := true, robPtr := 2 }

theorem wakeup_exact_load :
    Guarded Exec.step SparesSources (Exec.reset {}) [loadThenAdd, {}, addInto 8] ∧
      (run Exec.step (Exec.reset {}) [loadThenAdd, {}, addInto 8]).WakesExactly
        { memRsp := { dstPtr := 6, dstValid := true } } :=
  have hg : Guarded Exec.step SparesSources (Exec.reset {}) [loadThenAdd, {}, addInto 8] := by
    decide +kernel
  ⟨hg, (wakeup_exact {} _ hg).1 _⟩

/-! ## Fresh destinations alone -/

/-- A uop that may write a general register back. -/
def writesBackGpr (u : Uop) : Prop :=
  u.op = .MUL ∨ (∃ a : AluIn, a.uop = u ∧ (Alu.run a).wrIntPrf = true) ∨
    ∃ e : Exec, e.memUqHead = u ∧ e.headIssue.tail.dstValid = true
def writesHilo (u : Uop) : Prop :=
  isMult u.op = true ∧ u.op ≠ .MUL ∨ isDiv u.op = true ∨
    ∃ a : AluIn, a.uop = u ∧ (Alu.run a).wrHilo = true
def writesFcr (u : Uop) : Prop := FpuStage.isCmp u.op = true

/-- The destination flags of a uop match its writebacks. -/
structure Flagged (u : Uop) : Prop where
  gpr : writesBackGpr u → u.dstValid = true
  hilo : writesHilo u → u.hiloDstValid = true
  fcr : writesFcr u → u.fcrDstValid = true

/-- What is pushed has matching flags and destinations that are not in flight. -/
structure FreshDsts (e : Exec) (i : ExecIn) : Prop where
  flagged : (i.uqPush = true → Flagged i.uqUop) ∧ (i.uqPushTwo = true → Flagged i.uqUopTwo)
  fresh : ∀ r, pushesDst i r = true → e.inFlight r = false
  apart : ∀ r, i.uqPush = true → i.uqPushTwo = true →
    ¬(targets i.uqUop r = true ∧ targets i.uqUopTwo r = true)

theorem flagged_gpr {u : Uop} (ho : u.op = .ADDU ∨ u.op = .LW) (hd : u.dstValid = true) :
    Flagged u where
  gpr := fun _ => hd
  hilo := by
    rintro (⟨h, -⟩ | h | ⟨a, rfl, h⟩)
    · rcases ho with ho | ho <;> simp [ho, isMult] at h
    · rcases ho with ho | ho <;> simp [ho, isDiv] at h
    · rcases ho with ho | ho <;> simp [Alu.run, ho, Alu.writes, Alu.done, Alu.default] at h
  fcr := by
    intro h
    rcases ho with ho | ho <;> simp [writesFcr, ho, FpuStage.isCmp] at h

theorem addInto_freshDsts {p : PrfPtr} (h : e.intBusy p = false) : e.FreshDsts (addInto p) where
  flagged := ⟨fun _ => flagged_gpr (Or.inl rfl) rfl, fun h => by cases h⟩
  fresh := by
    intro r hr
    cases r <;> simp [pushesDst, targets, addInto] at hr
    subst hr
    exact h
  apart := fun _ _ h => by cases h

theorem loadThenAdd_freshDsts (m : ExecInit) : (Exec.reset m).FreshDsts loadThenAdd where
  flagged := ⟨fun _ => flagged_gpr (Or.inr rfl) rfl, fun _ => flagged_gpr (Or.inl rfl) rfl⟩
  fresh := by
    intro r _
    cases r <;> simp [inFlight, intBusy, Exec.reset]
  apart := by
    rintro (p | p | p) - - ⟨h1, h2⟩
    · simp only [targets, loadThenAdd, Bool.true_and, beq_iff_eq] at h1 h2
      subst h1
      revert h2
      decide
    · simp [targets, loadThenAdd] at h1
    · simp [targets, loadThenAdd] at h1

/-- A destination that is not in flight may still be a source of a waiting uop: an addition that
reads `$5` and waits for `$6` keeps its ready bit for `$5` when a later uop puts `$5` in flight. -/
theorem fresh_not_enough :
    ¬∀ (m : ExecInit) (inputs : List ExecIn), Guarded Exec.step FreshDsts (Exec.reset m) inputs →
      ∀ i, (run Exec.step (Exec.reset m) inputs).WakesExactly i := by
  intro h
  have hg : Guarded Exec.step FreshDsts (Exec.reset {}) [loadThenAdd, {}, addInto 5] := by
    refine ⟨loadThenAdd_freshDsts {}, ⟨⟨(fun h => by cases h), fun h => by cases h⟩, ?_, ?_⟩,
      addInto_freshDsts (by decide +kernel), trivial⟩
    · intro r hr
      cases r <;> cases hr
    · intro _ h
      cases h
  have hm := ((h {} _ hg {}).marked .A 3 (by decide +kernel) (by decide +kernel)).mp (Or.inl (by decide +kernel))
  revert hm
  decide +kernel

end Exec
end MipsCore
