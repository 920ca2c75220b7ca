import MipsCore.Exec.Division
import MipsCore.Exec.Fpu
import MipsCore.Lib.Clocked

/-! # The unsigned divider

`unsigned_divider.sv`, which the floating-point divider instantiates for widths that
are no power of two, and its correctness for every width that its index can count.
-/
namespace MipsCore

inductive UnsignedFsm
  | IDLE | DIVIDE | PACK_OUTPUT | DONE
  deriving DecidableEq, Repr

/-- The divider for words of `w` bits, `W`, and an index of `lg` bits, `LG_W`. -/
structure UnsignedDivider (w lg : ℕ) where
  state : UnsignedFsm := .IDLE
  A : BitVec w := 0
  B : BitVec w := 0
  Y : BitVec w := 0
  D : BitVec (w + w) := 0
  R : BitVec (w + w) := 0
  idx : BitVec lg := 0
  /-- `shiftregbit` -/
  ss : BitVec w := 0
  deriving DecidableEq, Repr

structure UdivIn (w : ℕ) where
  startDiv : Bool := false
  srcA : BitVec w := 0
  srcB : BitVec w := 0

namespace UnsignedDivider
open Clocked (run)
open DividerW (shiftIn restoring_step)
variable {w lg : ℕ} (d : UnsignedDivider w lg) (i : UdivIn w)

def fits : Bool := d.D.ule (d.R <<< 1)
def ready : Bool := d.state == .IDLE
def complete : Bool := d.state == .DONE
def y : BitVec w := d.Y

/-- One cycle of the divider. -/
def step : UnsignedDivider w lg :=
  match d.state with
  | .IDLE =>
    { d with
      state := if i.startDiv then .DIVIDE else .IDLE, A := i.srcA, B := i.srcB,
      D := i.srcB ++ 0#w, R := 0#w ++ i.srcA, idx := BitVec.ofNat lg (w - 1) }
  | .DIVIDE =>
    { d with
      R := if d.fits then d.R <<< 1 - d.D else d.R <<< 1
      ss := shiftIn d.ss d.fits
      state := if d.idx = 0 then .PACK_OUTPUT else .DIVIDE
      idx := d.idx - 1 }
  | .PACK_OUTPUT => { d with state := .DONE, Y := d.ss }
  | .DONE => { d with state := .IDLE }

/-- Where a division of `a` by `b` is, `n` cycles after the one that started it. -/
def Progress (a b : BitVec w) (n : ℕ) : Prop :=
  match d.state with
  | .IDLE => n = w + 2
  | .DIVIDE =>
    n + d.idx.toNat + 1 = w ∧ d.D.toNat = b.toNat * 2 ^ w ∧
      d.R.toNat = Restoring.rem a.toNat (b.toNat * 2 ^ w) n ∧
      d.ss.toNat % 2 ^ n = Restoring.quo a.toNat (b.toNat * 2 ^ w) n
  | .PACK_OUTPUT => n = w ∧ d.ss = a / b
  | .DONE => n = w + 1 ∧ d.Y = a / b

variable {d i}

theorem toNat_pos {b : BitVec w} (hb : b ≠ 0) : 0 < b.toNat := by
  apply Nat.pos_of_ne_zero
  intro h
  exact hb (BitVec.eq_of_toNat_eq h)

/-- A start that is accepted loads the operands of its cycle. -/
theorem step_start (hw : w ≤ 2 ^ lg) (hs : d.state = .IDLE) (hst : i.startDiv = true)
    (hb : i.srcB ≠ 0) : (d.step i).Progress i.srcA i.srcB 0 := by
  have hpos := toNat_pos hb
  have hlt : i.srcA.toNat < i.srcB.toNat * 2 ^ w :=
    lt_of_lt_of_le i.srcA.isLt (Nat.le_mul_of_pos_left _ hpos)
  have hw0 : 0 < w := by
    apply Nat.pos_of_ne_zero
    intro h
    have h1 : i.srcB.toNat < 2 ^ w := i.srcB.isLt
    have h2 : 2 ^ w = 1 := by rw [h, pow_zero]
    omega
  simp only [step, hs, hst, if_true, Progress]
  refine ⟨?_, ?_, ?_, ?_⟩
  · rw [BitVec.toNat_ofNat, Nat.mod_eq_of_lt (by omega)]
    omega
  · rw [BitVec.toNat_append]
    simp [Nat.shiftLeft_eq]
  · rw [Restoring.rem_zero hlt, BitVec.toNat_append]
    simp
  · rw [Restoring.quo_zero hlt, pow_zero, Nat.mod_one]

/-- One cycle of a division under way. -/
theorem step_progress {a b : BitVec w} {n : ℕ} (hb : b ≠ 0) (h : d.Progress a b n)
    (hn : n < w + 2) : (d.step i).Progress a b (n + 1) := by
  cases hs : d.state with
  | IDLE =>
    simp only [Progress, hs] at h
    omega
  | DIVIDE =>
    simp only [Progress, hs] at h
    obtain ⟨hk, hD, hR, hq⟩ := h
    obtain ⟨hR', hq'⟩ := restoring_step (by omega) a.isLt (toNat_pos hb) hD hR hq
    by_cases hidx : d.idx = 0
    · have hkw : n + 1 = w := by simpa [hidx] using hk
      simp only [step, hs, hidx, if_true, Progress]
      refine ⟨hkw, BitVec.eq_of_toNat_eq ?_⟩
      rw [hkw, Restoring.quo_done] at hq'
      rw [BitVec.toNat_udiv, ← hq', Nat.mod_eq_of_lt (BitVec.isLt _)]
      rfl
    · simp only [step, hs, hidx, if_false, Progress]
      have hne : d.idx.toNat ≠ 0 := fun he => hidx (BitVec.eq_of_toNat_eq (by simpa using he))
      refine ⟨?_, hD, hR', hq'⟩
      rw [Division.toNat_pred hidx]
      omega
  | PACK_OUTPUT =>
    simp only [Progress, hs] at h
    simp only [step, hs, Progress]
    exact ⟨by omega, h.2⟩
  | DONE =>
    simp only [Progress, hs] at h
    simp only [step, hs, Progress]
    omega

/-- A division goes on for as many cycles as the word has bits, and for two more. -/
theorem run_progress {a b : BitVec w} (hb : b ≠ 0) (later : List (UdivIn w))
    (h : d.Progress a b 0) (hn : later.length ≤ w + 2) :
    (run step d later).Progress a b later.length := by
  induction later using List.reverseRecOn with
  | nil => exact h
  | append_singleton later i ih =>
    rw [List.length_append, List.length_singleton] at hn ⊢
    rw [Clocked.run_concat]
    exact step_progress hb (ih (by omega)) (by omega)

/-- The control of the divider, as the floating-point divider's model has it. -/
def control (d : UnsignedDivider w lg) : UdivFsm :=
  match d.state with
  | .IDLE => .IDLE
  | .DIVIDE => .DIVIDE d.idx.toNat
  | .PACK_OUTPUT => .PACK_OUTPUT
  | .DONE => .DONE

theorem control_step (hw0 : 0 < w) (hw : w ≤ 2 ^ lg) :
    (d.step i).control = FpDiv.udivStep w i.startDiv d.control := by
  cases hs : d.state with
  | IDLE =>
    have hidx : (BitVec.ofNat lg (w - 1)).toNat = w - 1 := by
      rw [BitVec.toNat_ofNat, Nat.mod_eq_of_lt (by omega)]
    cases hst : i.startDiv with
    | false => simp only [control, step, hs, hst, FpDiv.udivStep, Bool.false_eq_true, if_false]
    | true => simp only [control, step, hs, hst, FpDiv.udivStep, if_true, hidx]
  | DIVIDE =>
    by_cases hidx : d.idx = 0
    · have h0 : d.idx.toNat = 0 := by rw [hidx]; rfl
      simp only [control, step, hs, if_pos hidx, h0, FpDiv.udivStep]
    · obtain ⟨n, hn⟩ : ∃ n, d.idx.toNat = n + 1 :=
        Nat.exists_eq_succ_of_ne_zero fun he => hidx (BitVec.eq_of_toNat_eq (by simpa using he))
      have hpred : (d.idx - 1).toNat = n := by rw [Division.toNat_pred hidx, hn, Nat.add_sub_cancel]
      simp only [control, step, hs, hidx, if_false, hpred, hn, FpDiv.udivStep]
  | PACK_OUTPUT => simp only [control, step, hs, FpDiv.udivStep]
  | DONE => simp only [control, step, hs, FpDiv.udivStep]

/-- What a start that is accepted brings about, whatever the unit has done before and whatever its
inputs are afterwards: the unit is not ready until the division is over, completes it in one cycle,
and then shows the quotient of the operands that were present at the start. -/
theorem divides {w lg : ℕ} (hw : w ≤ 2 ^ lg) (past : List (UdivIn w)) (i : UdivIn w)
    (later : List (UdivIn w)) :
    let d : UnsignedDivider w lg := run step {} past
    let d' := run step (d.step i) later
    d.ready = true → i.startDiv = true → i.srcB ≠ 0 → later.length ≤ w + 2 →
      (d'.ready = true ↔ later.length = w + 2) ∧ (d'.complete = true ↔ later.length = w + 1) ∧
        (d'.complete = true → d'.y = i.srcA / i.srcB) := by
  intro d d' hr hst hb hn
  have hs : d.state = .IDLE := by simpa [ready] using hr
  have hp : d'.Progress i.srcA i.srcB later.length :=
    run_progress hb later (step_start hw hs hst hb) hn
  rw [ready, complete, y]
  cases hd : d'.state with
  | IDLE =>
    simp only [Progress, hd] at hp
    simp [hp]
  | DIVIDE =>
    simp only [Progress, hd] at hp
    simp
    omega
  | PACK_OUTPUT =>
    simp only [Progress, hd] at hp
    simp [hp.1]
  | DONE =>
    simp only [Progress, hd] at hp
    simp [hp.1, hp.2]

/-- 13 divided by 3, in words of five bits and an index of three. -/
theorem divides_thirteen :
    let d : UnsignedDivider 5 3 := run step {} [{}]
    let d' := run step (d.step { startDiv := true, srcA := 13, srcB := 3 }) (List.replicate 6 {})
    d'.complete = true ∧ d'.y = 4 := by
  have h := @divides 5 3 (by decide) [{}] { startDiv := true, srcA := 13, srcB := 3 }
    (List.replicate 6 {}) rfl rfl (by decide) (by decide)
  have hc := h.2.1.mpr rfl
  exact ⟨hc, h.2.2 hc⟩

end UnsignedDivider
end MipsCore
