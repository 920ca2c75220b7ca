import Mathlib.Analysis.Real.Sqrt
import MipsCore.Exec.UnsignedDivision
import MipsCore.Lib.Rounding

/-! # Division of floating-point numbers

`fp_div.sv` without the simulation model: the significands go through the unsigned divider, the
quotient is shifted by one place when it is below one, and its low bits become the fraction.  The
state called ROUND does not round, and a square root is a division.
-/
namespace MipsCore
open Clocked (run)
open BinaryFormat NearestEven
variable {f : BinaryFormat} {rw pw : ℕ}

/-- `LG_FW` -/
def lgFw (f : BinaryFormat) : ℕ := if f.F = 23 then 5 else 6

/-- The inputs of `fp_div`; `rw` is `LG_ROB_WIDTH`, `pw` is `LG_PRF_WIDTH`. -/
structure FpDivIn (f : BinaryFormat) (rw pw : ℕ) where
  a : BitVec f.W
  b : BitVec f.W
  start : Bool
  isSqrt : Bool
  robPtr : BitVec rw
  dstPtr : BitVec pw

/-- The registers of `fp_div`, with the divider that it instantiates. -/
structure FpDivider (f : BinaryFormat) (rw pw : ℕ) where
  state : FpDivFsm := .IDLE
  valid : Bool := false
  active : Bool := false
  isSqrt : Bool := false
  y : BitVec f.W := 0
  robPtr : BitVec rw := 0
  dstPtr : BitVec pw := 0
  exp : BitVec (f.E + 1) := 0
  expA : BitVec (f.E + 1) := 0
  expB : BitVec (f.E + 1) := 0
  sign : Bool := false
  divMant : BitVec (1 + f.F + f.F) := 0
  ud : UnsignedDivider (1 + f.F + f.F) (1 + lgFw f) := {}

namespace FpDivider

/-- `w_mant_a` -/
def mantA (x : BitVec f.W) : BitVec (1 + f.F + f.F) := 1#1 ++ frac x ++ 0#f.F
/-- `w_mant_b` -/
def mantB (x : BitVec f.W) : BitVec (1 + f.F + f.F) := (0#f.F ++ (1#1 ++ frac x)).cast (by omega)

/-- What the divider is given. -/
def udivIn (d : FpDivider f rw pw) (i : FpDivIn f rw pw) : UdivIn (1 + f.F + f.F) where
  startDiv := d.state == .IDLE && i.start
  srcA := mantA i.a
  srcB := mantB i.b

/-- One cycle of `fp_div`. -/
def step (d : FpDivider f rw pw) (i : FpDivIn f rw pw) : FpDivider f rw pw :=
  let d' := { d with valid := false, ud := d.ud.step (d.udivIn i) }
  match d.state with
  | .IDLE =>
    { d' with
      state := if i.start then .COMPUTE_EXP else .IDLE
      active := d.active || i.start
      dstPtr := if i.start then i.dstPtr else d.dstPtr
      robPtr := if i.start then i.robPtr else d.robPtr
      expA := (BinaryFormat.exp i.a).setWidth _
      expB := (BinaryFormat.exp i.b).setWidth _
      sign := BinaryFormat.sign i.a ^^ BinaryFormat.sign i.b
      isSqrt := i.isSqrt }
  | .COMPUTE_EXP =>
    { d' with
      exp := d.expA - d.expB + BitVec.ofNat _ (2 ^ (f.E - 1) - 1)
      state := .WAIT_FOR_DIVIDE }
  | .WAIT_FOR_DIVIDE =>
    if d.ud.complete then
      { d' with
        divMant := d.ud.y
        state := if d.ud.y.getLsbD f.F then .ROUND else .NORMALIZE }
    else d'
  | .NORMALIZE => { d' with divMant := d.divMant <<< 1, exp := d.exp - 1, state := .ROUND }
  | .ROUND =>
    { d' with
      state := .DONE
      y := pack d.sign (d.exp.setWidth f.E) (d.divMant.extractLsb' 0 f.F)
      valid := true }
  | .DONE => { d' with state := .IDLE, active := false }

end FpDivider

/-- The significand of an operand, with a leading one whatever its exponent is. -/
def divSig (x : BitVec f.W) : ℕ := 2 ^ f.F + (frac x).toNat

/-- One when the quotient of the significands is below one. -/
def divLow (a b : BitVec f.W) : ℕ := if divSig b ≤ divSig a then 0 else 1

/-- The quotient of the significands as the divider computes it. -/
def divQuo (a b : BitVec f.W) : ℕ := divSig a * 2 ^ f.F / divSig b

/-- The cycles from the one after the start to the result. -/
def divLatency (a b : BitVec f.W) : ℕ := 1 + f.F + f.F + 3 + divLow a b

/-- The dividend that gives the quotient of the significands in units of the last place. -/
def divNum (a b : BitVec f.W) : ℕ := divSig a * 2 ^ (f.F + divLow a b)

/-- The quotient is in the normal range, is rounded down, and has a zero in the place that
NORMALIZE shifts in. -/
def DivRounds (a b : BitVec f.W) : Prop :=
  (BinaryFormat.exp a).toNat + f.bias ≠ (BinaryFormat.exp b).toNat + divLow a b ∧
    (2 * (divNum a b % divSig b) < divSig b ∨
      2 * (divNum a b % divSig b) = divSig b ∧ divNum a b / divSig b % 2 = 0) ∧
    (divLow a b = 1 → divNum a b / divSig b % 2 = 0)

instance (a b : BitVec f.W) : Decidable (DivRounds a b) := by
  unfold DivRounds
  infer_instance

/-- `y` is the quotient of `a` and `b` with all cut off that is below the last place the divider
comes to. -/
structure ChopsTo (a b y : BitVec f.W) : Prop where
  sign : BinaryFormat.sign y = (BinaryFormat.sign a ^^ BinaryFormat.sign b)
  exp : BinaryFormat.exp y + (BinaryFormat.exp b + BitVec.ofNat f.E (divLow a b)) =
    BinaryFormat.exp a + BitVec.ofNat f.E f.bias
  sig : ∃ q, divSig y = q * 2 ^ divLow a b ∧ q * divSig b ≤ divSig a * 2 ^ f.F ∧
    divSig a * 2 ^ f.F < (q + 1) * divSig b

/-- The divisor is one that makes the quotient the rounded square root. -/
def SqrtRounds (a b : BitVec f.W) : Prop := ∃ y, RoundsTo √(value a) y ∧ ChopsTo a b y

namespace FpDivider
variable {a b : BitVec f.W} {d : FpDivider f rw pw} {i j : FpDivIn f rw pw}

theorem toNat_mantA (x : BitVec f.W) : (mantA x).toNat = divSig x * 2 ^ f.F := by
  rw [mantA, BitVec.toNat_append, BitVec.toNat_append, ← Nat.shiftLeft_add_eq_or_of_lt (frac x).isLt,
    Nat.shiftLeft_eq, Nat.shiftLeft_eq, divSig]
  simp

theorem toNat_mantB (x : BitVec f.W) : (mantB x).toNat = divSig x := by
  rw [mantB, BitVec.toNat_cast, BitVec.toNat_append, BitVec.toNat_append,
    ← Nat.shiftLeft_add_eq_or_of_lt (frac x).isLt, Nat.shiftLeft_eq, divSig]
  simp [Nat.shiftLeft_eq]

theorem divSig_lt (x : BitVec f.W) : divSig x < 2 ^ (f.F + 1) := by
  have := (frac x).isLt
  rw [pow_succ, divSig]
  omega

theorem two_pow_le_divSig (x : BitVec f.W) : 2 ^ f.F ≤ divSig x := Nat.le_add_right _ _

theorem divSig_pos (x : BitVec f.W) : 0 < divSig x :=
  (Nat.two_pow_pos f.F).trans_le (two_pow_le_divSig x)

theorem mantB_ne_zero (x : BitVec f.W) : mantB x ≠ 0 := by
  intro h
  have h := congrArg BitVec.toNat h
  rw [toNat_mantB, BitVec.ofNat_eq_ofNat, BitVec.toNat_ofNat, Nat.zero_mod] at h
  exact (divSig_pos x).ne' h

theorem toNat_quo (a b : BitVec f.W) : (mantA a / mantB b).toNat = divQuo a b := by
  rw [BitVec.toNat_udiv, toNat_mantA, toNat_mantB, divQuo]

theorem divQuo_lt (a b : BitVec f.W) : divQuo a b < 2 ^ (f.F + 1) := by
  rw [divQuo, Nat.div_lt_iff_lt_mul (divSig_pos b)]
  exact Nat.mul_lt_mul_of_lt_of_le (divSig_lt a) (two_pow_le_divSig b) (divSig_pos b)

/-- The leading bit of the quotient tells whether it is below one. -/
theorem getLsbD_quo (a b : BitVec f.W) :
    (mantA a / mantB b).getLsbD f.F = true ↔ divLow a b = 0 := by
  have hpos := Nat.two_pow_pos f.F
  have hlt := divQuo_lt a b
  have hge : 2 ^ f.F ≤ divQuo a b ↔ divSig b ≤ divSig a := by
    rw [divQuo, Nat.le_div_iff_mul_le (divSig_pos b), Nat.mul_comm, Nat.mul_le_mul_right_iff hpos]
  rw [BitVec.getLsbD, Nat.testBit_eq_decide_div_mod_eq, toNat_quo, decide_eq_true_iff, divLow]
  by_cases h : divSig b ≤ divSig a
  · have hone : divQuo a b / 2 ^ f.F = 1 := by
      have h1 := hge.mpr h
      rw [pow_succ] at hlt
      exact Nat.div_eq_of_lt_le (by omega) (by omega)
    rw [hone, if_pos h]
    simp
  · rw [Nat.div_eq_of_lt (not_le.mp (mt hge.mp h)), if_neg h]
    simp

/-- `r_exp` once it is computed, before the normalising shift. -/
def quoExp (a b : BitVec f.W) : BitVec (f.E + 1) :=
  (BinaryFormat.exp a).setWidth _ - (BinaryFormat.exp b).setWidth _ +
    BitVec.ofNat _ (2 ^ (f.E - 1) - 1)

/-- The result that the unit gives for its operands. -/
def result (a b : BitVec f.W) : BitVec f.W :=
  pack (BinaryFormat.sign a ^^ BinaryFormat.sign b)
    ((quoExp a b - BitVec.ofNat _ (divLow a b)).setWidth f.E)
    ((mantA a / mantB b) <<< divLow a b |>.extractLsb' 0 f.F)

/-- The unit is ready for a start. -/
def Idle (d : FpDivider f rw pw) : Prop :=
  d.state = .IDLE ∧ d.active = false ∧ d.valid = false ∧ d.ud.state = .IDLE

/-- What the unit holds of the operation that it was started with. -/
structure Holds (d : FpDivider f rw pw) (i : FpDivIn f rw pw) : Prop where
  active : d.active = true
  robPtr : d.robPtr = i.robPtr
  dstPtr : d.dstPtr = i.dstPtr
  sign : d.sign = (BinaryFormat.sign i.a ^^ BinaryFormat.sign i.b)

/-- Where an operation is, `n` cycles after the one that started it. -/
def Stage (d : FpDivider f rw pw) (i : FpDivIn f rw pw) (n : ℕ) : Prop :=
  match d.state with
  | .IDLE => False
  | .COMPUTE_EXP =>
    n = 0 ∧ d.valid = false ∧ d.ud.Progress (mantA i.a) (mantB i.b) n ∧
      d.expA = (BinaryFormat.exp i.a).setWidth _ ∧ d.expB = (BinaryFormat.exp i.b).setWidth _
  | .WAIT_FOR_DIVIDE =>
    n ≤ 1 + f.F + f.F + 1 ∧ d.valid = false ∧ d.ud.Progress (mantA i.a) (mantB i.b) n ∧
      d.exp = quoExp i.a i.b
  | .NORMALIZE =>
    n = 1 + f.F + f.F + 2 ∧ d.valid = false ∧ d.ud.state = .IDLE ∧ divLow i.a i.b = 1 ∧
      d.divMant = mantA i.a / mantB i.b ∧ d.exp = quoExp i.a i.b
  | .ROUND =>
    n = 1 + f.F + f.F + 2 + divLow i.a i.b ∧ d.valid = false ∧ d.ud.state = .IDLE ∧
      d.divMant = (mantA i.a / mantB i.b) <<< divLow i.a i.b ∧
      d.exp = quoExp i.a i.b - BitVec.ofNat _ (divLow i.a i.b)
  | .DONE =>
    n = divLatency i.a i.b ∧ d.valid = true ∧ d.ud.state = .IDLE ∧ d.y = result i.a i.b

theorem divLow_le (a b : BitVec f.W) : divLow a b ≤ 1 := by
  unfold divLow
  split <;> omega

/-- A start that is accepted loads its operands and its pointers. -/
theorem step_start (hw : 1 + f.F + f.F ≤ 2 ^ (1 + lgFw f)) (hd : d.Idle) (hst : i.start = true) :
    (d.step i).Holds i ∧ (d.step i).Stage i 0 := by
  obtain ⟨hs, ha, -, hu⟩ := hd
  have hud : (d.ud.step (d.udivIn i)).Progress (mantA i.a) (mantB i.b) 0 :=
    UnsignedDivider.step_start hw hu (by simp [udivIn, hs, hst]) (mantB_ne_zero i.b)
  simp only [step, hs, hst, if_true]
  exact ⟨⟨by simp, rfl, rfl, rfl⟩, rfl, rfl, hud, rfl, rfl⟩

/-- Without a start the unit stays ready. -/
theorem step_idle (hd : d.Idle) (hst : i.start = false) : (d.step i).Idle := by
  obtain ⟨hs, ha, -, hu⟩ := hd
  have hud : (d.ud.step (d.udivIn i)).state = .IDLE := by
    simp [UnsignedDivider.step, hu, udivIn, hst]
  simp only [step, hs, hst, Bool.false_eq_true, if_false]
  exact ⟨rfl, by simpa using ha, rfl, hud⟩

/-- Outside of its state IDLE the unit starts no division. -/
theorem ud_idle (hs : d.state ≠ .IDLE) (hu : d.ud.state = .IDLE) :
    (d.ud.step (d.udivIn j)).state = .IDLE := by
  simp [UnsignedDivider.step, hu, udivIn, hs]

/-- What one cycle makes of an operation under way. -/
theorem step_stage {n : ℕ} (hh : d.Holds i) (h : d.Stage i n) :
    if n = divLatency i.a i.b then (d.step j).Idle
    else (d.step j).Holds i ∧ (d.step j).Stage i (n + 1) := by
  have hlow := divLow_le i.a i.b
  obtain ⟨ha, hr, hp, hsg⟩ := hh
  cases hs : d.state with
  | IDLE => simp only [Stage, hs] at h
  | COMPUTE_EXP =>
    simp only [Stage, hs] at h
    obtain ⟨rfl, -, hprog, hea, heb⟩ := h
    rw [if_neg (by unfold divLatency; omega)]
    have hstep := UnsignedDivider.step_progress (i := d.udivIn j) (mantB_ne_zero i.b) hprog
      (by omega)
    simp only [step, hs]
    refine ⟨⟨ha, hr, hp, hsg⟩, by omega, rfl, hstep, ?_⟩
    rw [hea, heb, quoExp]
  | WAIT_FOR_DIVIDE =>
    simp only [Stage, hs] at h
    obtain ⟨hn, -, hprog, he⟩ := h
    rw [if_neg (by unfold divLatency; omega)]
    have hstep := UnsignedDivider.step_progress (i := d.udivIn j) (mantB_ne_zero i.b) hprog
      (by omega)
    by_cases hc : d.ud.state = .DONE
    · have hdone : n = 1 + f.F + f.F + 1 ∧ d.ud.Y = mantA i.a / mantB i.b := by
        simpa only [UnsignedDivider.Progress, hc] using hprog
      have hidle : (d.ud.step (d.udivIn j)).state = .IDLE := by simp [UnsignedDivider.step, hc]
      have hcomp : d.ud.complete = true := by simp [UnsignedDivider.complete, hc]
      have hbit := getLsbD_quo i.a i.b
      cases hb : (mantA i.a / mantB i.b).getLsbD f.F with
      | true =>
        have h0 : divLow i.a i.b = 0 := hbit.mp hb
        simp only [step, hs, hcomp, if_true, UnsignedDivider.y, hdone.2, hb]
        refine ⟨⟨ha, hr, hp, hsg⟩, by omega, rfl, hidle, ?_, ?_⟩
        · rw [h0, BitVec.shiftLeft_zero]
        · rw [he, h0, BitVec.sub_zero]
      | false =>
        have h1 : divLow i.a i.b = 1 := by
          have : divLow i.a i.b ≠ 0 := fun h0 => by
            rw [hbit.mpr h0] at hb
            cases hb
          omega
        simp only [step, hs, hcomp, if_true, UnsignedDivider.y, hdone.2, hb, Bool.false_eq_true,
          if_false]
        exact ⟨⟨ha, hr, hp, hsg⟩, by omega, rfl, hidle, h1, rfl, he⟩
    · have hcomp : d.ud.complete = false := by simp [UnsignedDivider.complete, hc]
      have hlt : n ≠ 1 + f.F + f.F + 1 := by
        rintro rfl
        cases hu : d.ud.state with
        | IDLE =>
          simp only [UnsignedDivider.Progress, hu] at hprog
          omega
        | DIVIDE =>
          simp only [UnsignedDivider.Progress, hu] at hprog
          omega
        | PACK_OUTPUT =>
          simp only [UnsignedDivider.Progress, hu] at hprog
          omega
        | DONE => exact hc hu
      simp only [step, hs, hcomp, Bool.false_eq_true, if_false]
      exact ⟨⟨ha, hr, hp, hsg⟩, by omega, rfl, hstep, he⟩
  | NORMALIZE =>
    simp only [Stage, hs] at h
    obtain ⟨rfl, -, hu, h1, hm, he⟩ := h
    have hidle := ud_idle (j := j) (by simp [hs]) hu
    rw [if_neg (by unfold divLatency; omega)]
    simp only [step, hs]
    refine ⟨⟨ha, hr, hp, hsg⟩, by omega, rfl, hidle, ?_, ?_⟩
    · rw [hm, h1]
    · rw [he, h1]
      rfl
  | ROUND =>
    simp only [Stage, hs] at h
    obtain ⟨rfl, -, hu, hm, he⟩ := h
    have hidle := ud_idle (j := j) (by simp [hs]) hu
    rw [if_neg (by unfold divLatency; omega)]
    simp only [step, hs]
    refine ⟨⟨ha, hr, hp, hsg⟩, by unfold divLatency; omega, rfl, hidle, ?_⟩
    rw [hm, he, hsg, result]
  | DONE =>
    simp only [Stage, hs] at h
    obtain ⟨rfl, -, hu, -⟩ := h
    have hidle := ud_idle (j := j) (by simp [hs]) hu
    rw [if_pos rfl]
    simp only [step, hs]
    exact ⟨rfl, rfl, rfl, hidle⟩

/-! ## Runs -/

theorem step_reachable (hw : 1 + f.F + f.F ≤ 2 ^ (1 + lgFw f))
    (h : d.Idle ∨ ∃ i n, d.Holds i ∧ d.Stage i n) :
    (d.step j).Idle ∨ ∃ i n, (d.step j).Holds i ∧ (d.step j).Stage i n := by
  rcases h with hd | ⟨i, n, hh, hst⟩
  · cases hj : j.start with
    | false => exact Or.inl (step_idle hd hj)
    | true => exact Or.inr ⟨j, 0, step_start hw hd hj⟩
  · have h := step_stage (j := j) hh hst
    split at h
    · exact Or.inl h
    · exact Or.inr ⟨i, n + 1, h⟩

/-- After any inputs a unit that is not active is ready for a start. -/
theorem run_idle (hw : 1 + f.F + f.F ≤ 2 ^ (1 + lgFw f)) (past : List (FpDivIn f rw pw))
    (ha : (run step ({} : FpDivider f rw pw) past).active = false) :
    (run step ({} : FpDivider f rw pw) past).Idle := by
  have hreach : ∀ (d : FpDivider f rw pw), (d.Idle ∨ ∃ i n, d.Holds i ∧ d.Stage i n) →
      ∀ past, (run step d past).Idle ∨
        ∃ i n, (run step d past).Holds i ∧ (run step d past).Stage i n := by
    intro d hd past
    induction past generalizing d with
    | nil => exact hd
    | cons j past ih => exact ih _ (step_reachable hw hd)
  rcases hreach {} (Or.inl ⟨rfl, rfl, rfl, rfl⟩) past with h | ⟨i, n, hh, -⟩
  · exact h
  · rw [hh.active] at ha
    cases ha

/-- An operation goes on whatever the inputs are. -/
theorem run_stage (later : List (FpDivIn f rw pw)) (hh : d.Holds i) (h : d.Stage i 0)
    (hn : later.length ≤ divLatency i.a i.b) :
    (run step d later).Holds i ∧ (run step d later).Stage i later.length := by
  induction later using List.reverseRecOn with
  | nil => exact ⟨hh, h⟩
  | append_singleton later j ih =>
    rw [List.length_append, List.length_singleton] at hn ⊢
    obtain ⟨hh', h'⟩ := ih (by omega)
    have hstep := step_stage (j := j) hh' h'
    rw [if_neg (by omega)] at hstep
    rwa [Clocked.run_concat]

/-- The unit says that its result is valid in the cycle in which it is. -/
theorem Stage.valid_iff {n : ℕ} (h : d.Stage i n) :
    (d.valid = true ↔ n = divLatency i.a i.b) ∧ (d.valid = true → d.y = result i.a i.b) := by
  have hlow := divLow_le i.a i.b
  unfold divLatency
  cases hs : d.state with
  | IDLE => simp only [Stage, hs] at h
  | COMPUTE_EXP =>
    simp only [Stage, hs] at h
    rw [h.2.1]
    exact ⟨iff_of_false (by decide) (by omega), fun hc => absurd hc (by decide)⟩
  | WAIT_FOR_DIVIDE =>
    simp only [Stage, hs] at h
    rw [h.2.1]
    exact ⟨iff_of_false (by decide) (by omega), fun hc => absurd hc (by decide)⟩
  | NORMALIZE =>
    simp only [Stage, hs] at h
    rw [h.2.1]
    exact ⟨iff_of_false (by decide) (by omega), fun hc => absurd hc (by decide)⟩
  | ROUND =>
    simp only [Stage, hs] at h
    rw [h.2.1]
    exact ⟨iff_of_false (by decide) (by omega), fun hc => absurd hc (by decide)⟩
  | DONE =>
    simp only [Stage, hs] at h
    rw [h.2.1]
    exact ⟨iff_of_true rfl h.1, fun _ => h.2.2.2⟩

/-! ## The result -/

/-- The significand of the result. -/
def kept (a b : BitVec f.W) : ℕ := divQuo a b * 2 ^ divLow a b

theorem kept_bounds (a b : BitVec f.W) : 2 ^ f.F ≤ kept a b ∧ kept a b < 2 ^ (f.F + 1) := by
  have hb := divSig_pos b
  have ha := two_pow_le_divSig a
  have hlt := divQuo_lt a b
  have hpow : 2 ^ (f.F + 1) = 2 * 2 ^ f.F := pow_succ' _ _
  have hF : 2 ^ f.F = 2 * 2 ^ (f.F - 1) := by
    rw [← pow_succ']
    congr 1
    have := f.four_le_F
    omega
  unfold kept divLow
  split
  · next h =>
    rw [pow_zero, Nat.mul_one]
    refine ⟨?_, hlt⟩
    rw [divQuo, Nat.le_div_iff_mul_le hb, Nat.mul_comm]
    exact Nat.mul_le_mul_right _ h
  · next h =>
    have hge : 2 ^ (f.F - 1) ≤ divQuo a b := by
      rw [divQuo, Nat.le_div_iff_mul_le hb]
      have h1 := Nat.mul_le_mul_right (2 ^ f.F) ha
      have h2 := Nat.mul_le_mul_left (2 ^ (f.F - 1)) (divSig_lt b).le
      have h3 : 2 ^ (f.F - 1) * 2 ^ (f.F + 1) = 2 ^ f.F * 2 ^ f.F := by
        rw [← pow_add, ← pow_add]
        congr 1
        have := f.four_le_F
        omega
      omega
    have hlt' : divQuo a b < 2 ^ f.F := by
      rw [divQuo, Nat.div_lt_iff_lt_mul hb, Nat.mul_comm (2 ^ f.F)]
      exact Nat.mul_lt_mul_of_pos_right (not_le.mp h) (Nat.two_pow_pos _)
    omega

/-- The exponents, in the width of the field. -/
theorem exp_result (a b : BitVec f.W) :
    BinaryFormat.exp (result a b) + (BinaryFormat.exp b + BitVec.ofNat f.E (divLow a b)) =
      BinaryFormat.exp a + BitVec.ofNat f.E f.bias := by
  have hle : f.E ≤ f.E + 1 := Nat.le_succ _
  have hq : (quoExp a b).setWidth f.E + BinaryFormat.exp b =
      BinaryFormat.exp a + BitVec.ofNat f.E f.bias := by
    have hsub : ((BinaryFormat.exp a).setWidth (f.E + 1) -
        (BinaryFormat.exp b).setWidth (f.E + 1)).setWidth f.E + BinaryFormat.exp b =
          BinaryFormat.exp a := by
      have h := congrArg (BitVec.setWidth f.E) (BitVec.sub_add_cancel
        ((BinaryFormat.exp a).setWidth (f.E + 1)) ((BinaryFormat.exp b).setWidth (f.E + 1)))
      rwa [BitVec.setWidth_add _ _ hle, BitVec.setWidth_setWidth_of_le _ hle,
        BitVec.setWidth_setWidth_of_le _ hle, BitVec.setWidth_eq, BitVec.setWidth_eq] at h
    rw [quoExp, BitVec.setWidth_add _ _ hle, BitVec.setWidth_ofNat_of_le hle, BitVec.add_assoc,
      BitVec.add_comm (BitVec.ofNat _ _), ← BitVec.add_assoc, hsub]
    rfl
  have hl : (quoExp a b - BitVec.ofNat _ (divLow a b)).setWidth f.E +
      BitVec.ofNat f.E (divLow a b) = (quoExp a b).setWidth f.E := by
    have h := congrArg (BitVec.setWidth f.E) (BitVec.sub_add_cancel (quoExp a b)
      (BitVec.ofNat _ (divLow a b)))
    rwa [BitVec.setWidth_add _ _ hle, BitVec.setWidth_ofNat_of_le hle] at h
  rw [result, exp_pack, ← hq, ← hl, BitVec.add_assoc, BitVec.add_comm (BitVec.ofNat _ _)]

theorem frac_result (a b : BitVec f.W) :
    BinaryFormat.frac (result a b) = BitVec.ofNat f.F (kept a b) := by
  refine BitVec.eq_of_toNat_eq ?_
  rw [result, frac_pack, BitVec.extractLsb'_toNat, BitVec.toNat_shiftLeft, toNat_quo,
    Nat.shiftLeft_eq, BitVec.toNat_ofNat, Nat.shiftRight_zero,
    Nat.mod_mod_of_dvd _ (Nat.pow_dvd_pow 2 (by omega)), kept]

theorem sign_result (a b : BitVec f.W) :
    BinaryFormat.sign (result a b) = (BinaryFormat.sign a ^^ BinaryFormat.sign b) := sign_pack _ _ _

theorem divSig_result (a b : BitVec f.W) : divSig (result a b) = kept a b := by
  obtain ⟨hlo, hhi⟩ := kept_bounds a b
  rw [divSig, frac_result, BitVec.toNat_ofNat, Nat.mod_eq_sub_mod hlo,
    Nat.mod_eq_of_lt (by rw [pow_succ] at hhi; omega)]
  omega

/-- The result with an exponent that needs no wrapping. -/
theorem result_eq {e : ℕ} (he : e + ((BinaryFormat.exp b).toNat + divLow a b) =
    (BinaryFormat.exp a).toNat + f.bias) :
    result a b = encode f (BinaryFormat.sign a ^^ BinaryFormat.sign b)
      (e + kept a b / 2 ^ (f.F + 1)) (kept a b) := by
  rw [Nat.div_eq_of_lt (kept_bounds a b).2, Nat.add_zero]
  refine ext_fields ?_ ?_ ?_
  · rw [sign_result, encode, sign_pack]
  · have hof : ∀ v : BitVec f.E, BitVec.ofNat f.E v.toNat = v := fun v => by simp
    rw [← BitVec.add_left_inj (BinaryFormat.exp b + BitVec.ofNat f.E (divLow a b)), exp_result,
      encode, exp_pack]
    calc BinaryFormat.exp a + BitVec.ofNat f.E f.bias
        = BitVec.ofNat f.E ((BinaryFormat.exp a).toNat + f.bias) := by rw [BitVec.ofNat_add, hof]
      _ = BitVec.ofNat f.E (e + ((BinaryFormat.exp b).toNat + divLow a b)) := by rw [he]
      _ = _ := by rw [BitVec.ofNat_add, BitVec.ofNat_add, hof]
  · rw [frac_result, encode, frac_pack]

/-- What the unit gives is the quotient cut off. -/
theorem chopsTo_iff {y : BitVec f.W} : ChopsTo a b y ↔ y = result a b := by
  have hb := divSig_pos b
  constructor
  · rintro ⟨hsg, he, q, hq, hlo, hhi⟩
    have hquo : divQuo a b = q := Nat.div_eq_of_lt_le hlo hhi
    refine ext_fields (hsg.trans (sign_result a b).symm) ?_ (BitVec.eq_of_toNat_eq ?_)
    · rw [← BitVec.add_left_inj (BinaryFormat.exp b + BitVec.ofNat f.E (divLow a b)), he, exp_result]
    · have hsig : divSig y = divSig (result a b) := by rw [divSig_result, kept, hquo, hq]
      exact Nat.add_left_cancel hsig
  · rintro rfl
    refine ⟨sign_result a b, exp_result a b, divQuo a b, divSig_result a b, ?_, ?_⟩
    · exact Nat.div_mul_le_self _ _
    · rw [← Nat.div_lt_iff_lt_mul hb]
      exact Nat.lt_succ_self _

/-! ## Rounding -/

/-- The quotient as a normalised significand. -/
theorem normalised (a b : BitVec f.W) : f.Normalised (divNum a b) (divSig b) := by
  have ha := two_pow_le_divSig a
  have hb := divSig_pos b
  refine ⟨hb, ?_, ?_⟩
  · unfold divNum divLow
    split
    · next h =>
      rw [Nat.add_zero, Nat.mul_comm]
      exact Nat.mul_le_mul_right _ h
    · rw [pow_succ, ← Nat.mul_assoc, Nat.mul_right_comm, Nat.mul_comm (2 ^ f.F)]
      have hlt := (divSig_lt b).le
      rw [pow_succ, Nat.mul_comm (2 ^ f.F)] at hlt
      exact Nat.mul_le_mul_right _ (by omega)
  · unfold divNum divLow
    split
    · rw [Nat.add_zero]
      exact Nat.mul_lt_mul_of_lt_of_le (divSig_lt a) (two_pow_le_divSig b) hb
    · next h =>
      rw [Nat.mul_comm (2 ^ (f.F + 1))]
      exact Nat.mul_lt_mul_of_pos_right (not_le.mp h) (Nat.two_pow_pos _)

/-- What is kept of the quotient: all of it, or what is above the last place. -/
theorem kept_eq (a b : BitVec f.W) :
    kept a b = divNum a b / divSig b - divLow a b * (divNum a b / divSig b % 2) := by
  have hlow := divLow_le a b
  rcases Nat.eq_zero_or_pos (divLow a b) with h0 | hpos
  · rw [kept, divQuo, divNum, h0, pow_zero, Nat.mul_one, Nat.zero_mul, Nat.sub_zero, Nat.add_zero]
  · have h1 : divLow a b = 1 := by omega
    have hhalf : divQuo a b = divNum a b / divSig b / 2 := by
      rw [Nat.div_div_eq_div_mul, divNum, h1, pow_succ, ← Nat.mul_assoc,
        Nat.mul_div_mul_right _ _ two_pos, divQuo]
    rw [kept, hhalf, h1, pow_one]
    omega

/-- The exact quotient on the scale of its unit. -/
theorem value_div (ha : IsNormal a) (hb : IsNormal b) :
    value a / value b = signed (BinaryFormat.sign a ^^ BinaryFormat.sign b)
      (divNum a b / divSig b * 2 ^ ((((BinaryFormat.exp a).toNat : ℤ) + f.bias -
        (BinaryFormat.exp b).toNat - divLow a b) - f.bias - f.F)) := by
  have hs : ∀ (s t : Bool) (v w : ℝ), signed s v / signed t w = signed (s ^^ t) (v / w) := by
    intro s t v w
    cases s <;> cases t <;> simp [neg_div, div_neg]
  have hpow : (2 : ℝ) ^ (((BinaryFormat.exp a).toNat : ℤ) - f.bias - f.F) =
      2 ^ (f.F + divLow a b) * 2 ^ ((((BinaryFormat.exp a).toNat : ℤ) + f.bias -
        (BinaryFormat.exp b).toNat - divLow a b) - f.bias - f.F) *
          2 ^ (((BinaryFormat.exp b).toNat : ℤ) - f.bias - f.F) := by
    rw [← zpow_natCast, ← zpow_add₀ two_ne_zero, ← zpow_add₀ two_ne_zero]
    congr 1
    push_cast
    ring
  have hz := (zpow_pos two_pos (((BinaryFormat.exp b).toNat : ℤ) - f.bias - f.F) : (0 : ℝ) < _).ne'
  have hD : (divSig b : ℝ) ≠ 0 := Nat.cast_ne_zero.mpr (divSig_pos b).ne'
  have hsa : sig a = divSig a := sig_of_normal ha
  have hsb : sig b = divSig b := sig_of_normal hb
  rw [value_of_normal ha, value_of_normal hb, hs, hsa, hsb, hpow, divNum]
  congr 1
  push_cast
  field_simp

/-- The exact condition for a quotient to be rounded. -/
theorem roundsTo_result (ha : IsNormal a) (hb : IsNormal b)
    (hx : f.RoundsToNormal (value a / value b)) :
    RoundsTo (value a / value b) (result a b) ↔ DivRounds a b := by
  have hn := normalised a b
  obtain ⟨hlo, hhi⟩ := kept_bounds a b
  have hval := value_div ha hb
  rw [hval, roundsToNormal_signed] at hx
  obtain ⟨hge, -, -, -⟩ := hn.range hx
  obtain ⟨e, he⟩ : ∃ e : ℕ, ((BinaryFormat.exp a).toNat : ℤ) + f.bias -
      (BinaryFormat.exp b).toNat - divLow a b = e := Int.eq_ofNat_of_zero_le hge
  rw [he] at hx hval
  rw [result_eq (e := e) (by omega), hval,
    hn.roundsTo_encode (roundsToNormal_signed.mpr hx) hlo hhi.le]
  have hzero : (BinaryFormat.exp a).toNat + f.bias = (BinaryFormat.exp b).toNat + divLow a b ↔
      e = 0 := by omega
  have hlow := divLow_le a b
  have hkept := kept_eq a b
  have hmod := Nat.mod_two_eq_zero_or_one (divNum a b / divSig b)
  have hdown := nearestEven_eq_div (N := divNum a b) (D := divSig b)
  have hle := le_nearestEven (divNum a b) (divSig b)
  unfold DivRounds
  by_cases h0 : e = 0
  · rw [if_pos h0]
    exact iff_of_false hhi.ne fun h => h.1 (hzero.mpr h0)
  · rw [if_neg h0, ← hdown]
    rcases Nat.eq_zero_or_pos (divLow a b) with hl | hl
    · rw [hl, Nat.zero_mul] at hkept
      omega
    · rw [show divLow a b = 1 by omega, Nat.one_mul] at hkept
      omega

theorem roundsTo_sqrt : RoundsTo √(value a) (result a b) ↔ SqrtRounds a b := by
  constructor
  · exact fun h => ⟨_, h, chopsTo_iff.mpr rfl⟩
  · rintro ⟨y, h, hy⟩
    rwa [← chopsTo_iff.mp hy]

/-- The counter of the divider is wide enough in both formats. -/
theorem width_le (hf : f = single ∨ f = double) : 1 + f.F + f.F ≤ 2 ^ (1 + lgFw f) := by
  rcases hf with rfl | rfl <;> decide

/-- What a start comes to. -/
theorem run_start (hf : f = single ∨ f = double) (past : List (FpDivIn f rw pw))
    (later : List (FpDivIn f rw pw))
    (hactive : (run step ({} : FpDivider f rw pw) past).active = false) (hstart : i.start = true)
    (hn : later.length ≤ divLatency i.a i.b) :
    let d := run step ({} : FpDivider f rw pw) (past ++ i :: later)
    d.Holds i ∧ d.Stage i later.length := by
  obtain ⟨hh, hs⟩ := step_start (width_le hf) (run_idle (width_le hf) past hactive) hstart
  rw [Clocked.run_append, Clocked.run_cons]
  exact run_stage later hh hs hn

end FpDivider

open FpDivider in
/-- A start that finds the unit not active is answered once, `divLatency` cycles later, with its own
pointers.  The quotient is rounded just when it is to be rounded down and has no bit in the place
that is shifted in; the square root just when the quotient happens to be it. -/
theorem fpDiv_rounds_iff (hf : f = single ∨ f = double) (past : List (FpDivIn f rw pw))
    (i : FpDivIn f rw pw) (later : List (FpDivIn f rw pw))
    (hactive : (run step ({} : FpDivider f rw pw) past).active = false) (hstart : i.start = true) :
    let d := run step ({} : FpDivider f rw pw) (past ++ i :: later)
    (later.length < divLatency i.a i.b → d.valid = false) ∧
      (later.length = divLatency i.a i.b →
        d.valid = true ∧ d.robPtr = i.robPtr ∧ d.dstPtr = i.dstPtr ∧
        (i.isSqrt = false → IsNormal i.a → IsNormal i.b →
          f.RoundsToNormal (value i.a / value i.b) →
            (RoundsTo (value i.a / value i.b) d.y ↔ DivRounds i.a i.b)) ∧
        (i.isSqrt = true → IsNormal i.a → BinaryFormat.sign i.a = false →
          (RoundsTo √(value i.a) d.y ↔ SqrtRounds i.a i.b))) := by
  intro d
  have hrun := run_start hf past later hactive hstart
  refine ⟨fun hlt => ?_, fun heq => ?_⟩
  · have hv := (hrun hlt.le).2.valid_iff.1
    rw [← Bool.not_eq_true, hv]
    exact hlt.ne
  · obtain ⟨hh, hs⟩ := hrun heq.le
    have hv := hs.valid_iff.1.mpr heq
    have hy := hs.valid_iff.2 hv
    refine ⟨hv, hh.robPtr, hh.dstPtr, fun _ ha hb hx => ?_, fun _ _ _ => ?_⟩
    · rw [hy, roundsTo_result ha hb hx]
    · rw [hy, roundsTo_sqrt]

/-- 3 divided by 1.5. -/
theorem fpDiv_rounds_iff_two :
    let a := encode single false 128 (3 * 2 ^ 22)
    let b := encode single false 127 (3 * 2 ^ 22)
    let i : FpDivIn single 5 7 := ⟨a, b, true, false, 9, 33⟩
    let d := run FpDivider.step {} ([] ++ i :: List.replicate 50 ⟨0, 0, false, false, 0, 0⟩)
    d.valid = true ∧ d.robPtr = 9 ∧ d.dstPtr = 33 ∧ RoundsTo (value a / value b) d.y := by
  intro a b i d
  have ha : IsNormal a := isNormal_encode (by decide) (by decide)
  have hb : IsNormal b := isNormal_encode (by decide) (by decide)
  have hx : single.RoundsToNormal (value a / value b) := by
    have hea : (exp a).toNat = 128 := by decide
    have heb : (exp b).toNat = 127 := by decide
    have hlow : divLow a b = 0 := by decide
    have hbias : single.bias = 127 := by decide
    rw [FpDivider.value_div ha hb, hea, heb, hlow, hbias]
    exact (FpDivider.normalised a b).roundsToNormal (e := 128) (by decide) (Or.inl (by decide))
  obtain ⟨hv, hr, hp, hdiv, -⟩ := (fpDiv_rounds_iff (Or.inl rfl) [] i
    (List.replicate 50 ⟨0, 0, false, false, 0, 0⟩) rfl rfl).2 (by decide)
  exact ⟨hv, hr, hp, (hdiv rfl ha hb hx).mpr (by decide)⟩

/-- A third is cut off where it is to be rounded up. -/
theorem not_roundsTo_fpDiv :
    let a := encode single false 127 (2 ^ 23)
    let b := encode single false 128 (3 * 2 ^ 22)
    let i : FpDivIn single 5 7 := ⟨a, b, true, false, 9, 33⟩
    let d := run FpDivider.step {} ([] ++ i :: List.replicate 51 ⟨0, 0, false, false, 0, 0⟩)
    IsNormal a ∧ IsNormal b ∧ single.RoundsToNormal (value a / value b) ∧
      d.valid = true ∧ ¬RoundsTo (value a / value b) d.y := by
  intro a b i d
  have ha : IsNormal a := isNormal_encode (by decide) (by decide)
  have hb : IsNormal b := isNormal_encode (by decide) (by decide)
  have hx : single.RoundsToNormal (value a / value b) := by
    have hea : (exp a).toNat = 127 := by decide
    have heb : (exp b).toNat = 128 := by decide
    have hlow : divLow a b = 1 := by decide
    have hbias : single.bias = 127 := by decide
    rw [FpDivider.value_div ha hb, hea, heb, hlow, hbias]
    exact (FpDivider.normalised a b).roundsToNormal (e := 125) (by decide) (Or.inl (by decide))
  obtain ⟨-, hs⟩ := FpDivider.run_start (i := i) (Or.inl rfl) []
    (List.replicate 51 ⟨0, 0, false, false, 0, 0⟩) rfl rfl (by decide)
  have hv := hs.valid_iff.1.mpr (by decide)
  refine ⟨ha, hb, hx, hv, ?_⟩
  rw [hs.valid_iff.2 hv, FpDivider.roundsTo_result ha hb hx]
  decide

end MipsCore
