import MipsCore.Lib.DelayLine
import MipsCore.Lib.FloatOrder

/-! # Comparison of floating-point numbers

`fp_compare.sv`: signs, exponents and fractions are compared one after the other, zeros count as
positive, and the result leaves a line of `D` registers.
-/
namespace MipsCore
open Clocked (run)
open BinaryFormat

/-- `fp_cmp_t` -/
inductive FpCmpType
  | CMP_NONE | CMP_LT | CMP_LE | CMP_EQ
  deriving DecidableEq, Repr

/-- The inputs of `fp_compare`. -/
structure FpCompareIn (f : BinaryFormat) where
  a : BitVec f.W
  b : BitVec f.W
  cmpType : FpCmpType

namespace FpCompareIn
variable {f : BinaryFormat} (i : FpCompareIn f)

/-- `x[W-2:0] == 'd0` -/
def isZero (x : BitVec f.W) : Bool := x.extractLsb' 0 (f.E + f.F) == 0

def aIsZero : Bool := isZero i.a
def bIsZero : Bool := isZero i.b
def signA : Bool := if i.aIsZero then false else sign i.a
def signB : Bool := if i.bIsZero then false else sign i.b
def bothNeg : Bool := i.signA && i.signB

def signLt : Bool := (i.signA ^^ i.signB) && i.signA
def signGt : Bool := (i.signA ^^ i.signB) && i.signB
def signEq : Bool := i.signA == i.signB
def expLt : Bool := (exp i.a).ult (exp i.b) && i.signEq
def expGt : Bool := (exp i.b).ult (exp i.a) && i.signEq
def expEq : Bool := exp i.a == exp i.b && i.signEq
def mantLt : Bool := (frac i.a).ult (frac i.b) && i.expEq
def mantGt : Bool := (frac i.b).ult (frac i.a) && i.expEq

def ltT : Bool := i.signLt || i.expLt || i.mantLt
def gtT : Bool := i.signGt || i.expGt || i.mantGt
def lt : Bool := if i.bothNeg then i.gtT else i.ltT
def eq : Bool := i.a == i.b || i.aIsZero && i.bIsZero
def le : Bool := i.lt || i.eq

/-- `t_y` -/
def tY : Bool :=
  match i.cmpType with
  | .CMP_LT => i.lt
  | .CMP_LE => i.le
  | .CMP_EQ => i.eq
  | .CMP_NONE => false

end FpCompareIn

/-- One cycle of `fp_compare` with `D = d + 1`. -/
def fpCompareStep {f : BinaryFormat} {d : ℕ} (r : DelayLine.Line Bool d) (i : FpCompareIn f) :
    DelayLine.Line Bool d := DelayLine.shift r i.tY

namespace FpCompareIn
variable {f : BinaryFormat} (i : FpCompareIn f)

theorem isZero_iff (x : BitVec f.W) : isZero x = true ↔ mag x = 0 := by
  have hlow : (x.extractLsb' 0 (f.E + f.F)).toNat = mag x := by
    have h : x.extractLsb' 0 (f.E + f.F) = exp x ++ frac x := by
      refine BitVec.eq_of_getLsbD_eq fun j hj => ?_
      rw [BitVec.getLsbD_extractLsb', BitVec.getLsbD_append, exp, frac, BitVec.getLsbD_extractLsb',
        BitVec.getLsbD_extractLsb']
      by_cases h1 : j < f.F
      · simp [h1, hj]
      · simp [h1, hj, show j - f.F < f.E by omega, show f.F + (j - f.F) = j by omega]
    rw [h, BitVec.toNat_append, ← Nat.shiftLeft_add_eq_or_of_lt (frac x).isLt, Nat.shiftLeft_eq, mag]
  rw [isZero, beq_iff_eq, ← BitVec.toNat_inj, hlow]
  simp

/-- The magnitudes compare by exponent first. -/
theorem mag_lt_iff (x y : BitVec f.W) :
    mag x < mag y ↔ (exp x).toNat < (exp y).toNat ∨
      exp x = exp y ∧ (frac x).toNat < (frac y).toNat := by
  have hx := (frac x).isLt
  have hy := (frac y).isLt
  rw [← BitVec.toNat_inj]
  unfold mag
  rcases lt_trichotomy (exp x).toNat (exp y).toNat with h | h | h
  · have := Nat.mul_le_mul_right (2 ^ f.F) (Nat.succ_le_of_lt h)
    rw [Nat.succ_mul] at this
    omega
  · rw [h]
    omega
  · have := Nat.mul_le_mul_right (2 ^ f.F) (Nat.succ_le_of_lt h)
    rw [Nat.succ_mul] at this
    omega

/-- With the sign of a zero taken away, the key is the magnitude under that sign. -/
theorem key_masked (x : BitVec f.W) :
    key x = if (if isZero x then false else sign x) = true then -(mag x : ℤ) else mag x := by
  unfold key
  by_cases h : isZero x = true
  · have := (isZero_iff x).mp h
    simp [h, this]
  · simp [h]

theorem ltT_eq (hs : i.signA = i.signB) : i.ltT = decide (mag i.a < mag i.b) := by
  rw [Bool.eq_iff_iff, decide_eq_true_iff, mag_lt_iff]
  simp only [ltT, signLt, expLt, mantLt, signEq, expEq, hs, BitVec.ult]
  simp
  tauto

theorem gtT_eq (hs : i.signA = i.signB) : i.gtT = decide (mag i.b < mag i.a) := by
  rw [Bool.eq_iff_iff, decide_eq_true_iff, mag_lt_iff]
  simp only [gtT, signGt, expGt, mantGt, signEq, expEq, hs, BitVec.ult]
  simp
  tauto

/-- `w_lt` compares the keys. -/
theorem lt_iff : i.lt = true ↔ key i.a < key i.b := by
  rw [key_masked, key_masked]
  have hza := isZero_iff i.a
  have hzb := isZero_iff i.b
  change _ ↔ (if i.signA = true then _ else _) < (if i.signB = true then _ else _)
  cases ha : i.signA with
  | false =>
    cases hb : i.signB with
    | false =>
      rw [lt, ltT_eq i (by rw [ha, hb]), bothNeg, ha]
      simp
    | true =>
      simp [lt, bothNeg, ltT, signLt, expLt, mantLt, expEq, signEq, ha, hb]
  | true =>
    cases hb : i.signB with
    | false =>
      have hpos : mag i.a ≠ 0 := fun h => by simp [signA, aIsZero, hza.mpr h] at ha
      simp [lt, bothNeg, ltT, signLt, expLt, mantLt, expEq, signEq, ha, hb]
      omega
    | true =>
      rw [lt, gtT_eq i (by rw [ha, hb]), bothNeg, ha, hb]
      simp

theorem eq_iff : i.eq = true ↔ key i.a = key i.b := by
  have hza := isZero_iff i.a
  have hzb := isZero_iff i.b
  rw [eq, Bool.or_eq_true, Bool.and_eq_true, beq_iff_eq, aIsZero, bIsZero, hza, hzb]
  constructor
  · rintro (h | ⟨ha, hb⟩)
    · rw [h]
    · simp [key, ha, hb]
  · intro h
    by_cases hz : mag i.a = 0
    · refine Or.inr ⟨hz, ?_⟩
      unfold key at h
      split at h <;> split at h <;> omega
    · refine Or.inl ?_
      have hm : mag i.a = mag i.b ∧ sign i.a = sign i.b := by
        unfold key at h
        cases ha : sign i.a <;> cases hb : sign i.b <;>
          simp only [ha, hb, if_true, Bool.false_eq_true, if_false] at h
        · exact ⟨by omega, rfl⟩
        · omega
        · omega
        · exact ⟨by omega, rfl⟩
      obtain ⟨he, hf⟩ := mag_eq hm.1
      exact ext_fields hm.2 he hf

theorem le_iff : i.le = true ↔ key i.a ≤ key i.b := by
  rw [le, Bool.or_eq_true, lt_iff, eq_iff]
  omega

end FpCompareIn

/-- For two numbers that are no NaN, what leaves the comparator `D` cycles later is the comparison
of the extended reals that they denote. -/
theorem fpCompare_orders {f : BinaryFormat} {d : ℕ} (r : DelayLine.Line Bool d)
    (i : FpCompareIn f) (later : List (FpCompareIn f)) (hlater : later.length = d)
    (ha : ¬IsNaN i.a) (hb : ¬IsNaN i.b) :
    let y := DelayLine.out (run fpCompareStep r (i :: later))
    (i.cmpType = .CMP_LT → (y = true ↔ extValue i.a < extValue i.b)) ∧
      (i.cmpType = .CMP_LE → (y = true ↔ extValue i.a ≤ extValue i.b)) ∧
      (i.cmpType = .CMP_EQ → (y = true ↔ extValue i.a = extValue i.b)) := by
  intro y
  have hy : y = i.tY := DelayLine.out_run_map FpCompareIn.tY r i later hlater
  rw [hy]
  refine ⟨fun h => ?_, fun h => ?_, fun h => ?_⟩
  · simp only [FpCompareIn.tY, h]
    rw [i.lt_iff, extValue_lt_iff ha hb]
  · simp only [FpCompareIn.tY, h]
    rw [i.le_iff, extValue_le_iff ha hb]
  · simp only [FpCompareIn.tY, h]
    rw [i.eq_iff, extValue_eq_iff ha hb]

/-- -1 and the smallest single above zero, through four registers. -/
theorem fpCompare_orders_negOne :
    let i : FpCompareIn single := ⟨0xbf800000#32, 0x00000001#32, .CMP_LT⟩
    DelayLine.out (run fpCompareStep (fun _ => false : DelayLine.Line Bool 3) [i, i, i, i]) = true ∧
      extValue i.a < extValue i.b := by
  intro i
  have h := fpCompare_orders (fun _ => false : DelayLine.Line Bool 3) i [i, i, i] rfl
    (by decide) (by decide)
  exact ⟨by decide, (h.1 rfl).mp (by decide)⟩

end MipsCore
