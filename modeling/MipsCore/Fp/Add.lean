import Mathlib.Data.Nat.Log
import Mathlib.Data.Nat.ModEq
import Mathlib.Tactic.LinearCombination
import MipsCore.BitCount
import MipsCore.Fp.Div
import MipsCore.Lib.DelayLine

/-! # Addition of floating-point numbers

`fp_add.sv` without the simulation model: the significand of the smaller exponent is shifted right
with one bit for what is lost, the sum is normalised by the zero detector and rounded by its last
three bits.  The lost bits are looked up under the wrong distance.
-/
namespace MipsCore
open Clocked (run)
open BinaryFormat NearestEven
variable {f : BinaryFormat}

/-- The inputs of `fp_add`; `en` is used by the simulation model only. -/
structure FpAddIn (f : BinaryFormat) where
  a : BitVec f.W
  b : BitVec f.W
  sub : Bool

/-- `w_b`, the second operand under the sign that it is added with. -/
def FpAddIn.wB (i : FpAddIn f) : BitVec f.W :=
  pack (if i.sub then !sign i.b else sign i.b) (exp i.b) (frac i.b)

/-- What the source leaves open.  `init` is what `t_a_pad` of the zero detector was initialised with
where its declaration is taken for an initialisation, and `none` where it is taken for a net;
`undef` is what is read of `w_or_mant_a` and `w_or_mant_b` from `FW+3` on. -/
structure FpAddOpen (f : BinaryFormat) where
  init : Option (BitVec (2 ^ (lgFw f - 2 + 2)))
  undef : ℕ → Bool

namespace FpAdd

/-- `zero_detector #(LG_FW, FW)` -/
def zeroDetector (o : FpAddOpen f) (m : BitVec (f.F + 1)) : BitVec (lgFw f) :=
  let aPad := o.init.getD ((m ++ 0#(2 ^ lgFw f - f.F - 1)).setWidth _)
  let ffs := countLeadingZeros (lgFw f - 2) aPad
  if f.F ≤ ffs.toNat then BitVec.ofNat _ f.F else ffs.setWidth _

/-- `t_a_mant` -/
def mant (x : BitVec f.W) : BitVec (f.F + 4) := (1#1 ++ frac x ++ 0#3).cast (by omega)

/-- `w_or_mant_a[k]` -/
def orMant (o : FpAddOpen f) (x : BitVec f.W) (k : ℕ) : Bool :=
  if k < f.F + 3 then x.extractLsb' 0 (k + 1) != 0 else o.undef k

variable (o : FpAddOpen f) (a b : BitVec f.W)

def distA : BitVec f.E := exp a - exp b
def distB : BitVec f.E := exp b - exp a
/-- `t_dist_b[LG_FW-1:0]`, which selects the bit of either operand. -/
def orIdx : ℕ := ((distB a b).extractLsb' 0 (lgFw f)).toNat
def aShifted : Bool := orMant o a (orIdx a b)
def bShifted : Bool := orMant o b (orIdx a b)

def alignA : BitVec (f.F + 4) :=
  if exp a < exp b then
    mant a >>> (distB a b).toNat ||| (BitVec.ofBool (aShifted o a b)).setWidth _
  else mant a
def alignB : BitVec (f.F + 4) :=
  if exp b < exp a then
    mant b >>> (distA a b).toNat ||| (BitVec.ofBool (bShifted o a b)).setWidth _
  else mant b
def alignExp : BitVec (f.E + 1) :=
  if exp a < exp b then (exp b).setWidth _ else (exp a).setWidth _

/-- `t_align_sum` -/
def alignSum : BitVec (f.F + 5) :=
  let x := (alignA o a b).setWidth (f.F + 5)
  let y := (alignB o a b).setWidth (f.F + 5)
  if sign a ≠ sign b then if alignB o a b < alignA o a b then x - y else y - x else x + y
def alignSign : Bool :=
  if sign a ≠ sign b then if alignB o a b < alignA o a b then sign a else sign b else sign a

/-- A sum between the steps: `mant`, `exp`, `guard`, `round` and `sticky`. -/
structure Stage (f : BinaryFormat) where
  mant : BitVec (f.F + 1)
  exp : BitVec (f.E + 1)
  guard : Bool
  round : Bool
  sticky : Bool

/-- `t_add_mant` and the signals beside it. -/
def add (sum : BitVec (f.F + 5)) (e : BitVec (f.E + 1)) : Stage f :=
  if sum.getLsbD (f.F + 4) then
    ⟨sum.extractLsb' 4 (f.F + 1), e + 1, sum.getLsbD 3, sum.getLsbD 2,
      sum.getLsbD 1 || sum.getLsbD 0⟩
  else ⟨sum.extractLsb' 3 (f.F + 1), e, sum.getLsbD 2, sum.getLsbD 1, sum.getLsbD 0⟩

/-- `t_norm1_add_mant` and the signals beside it. -/
def norm1 (t : Stage f) : Stage f :=
  if t.mant.getLsbD f.F = false ∧ t.exp ≠ 0 then
    let dist : BitVec (f.E + 1) := (zeroDetector o t.mant).setWidth _
    if dist = 1 then
      ⟨(t.mant.extractLsb' 0 f.F ++ BitVec.ofBool t.guard), t.exp - dist, t.round, false, t.sticky⟩
    else
      ⟨((t.mant.extractLsb' 0 (f.F - 1) ++ BitVec.ofBool t.guard ++
          BitVec.ofBool t.round).setWidth _) <<< (dist - 2).toNat,
        t.exp - dist, false, false, t.sticky⟩
  else t

/-- `t_round_add_mant` and `t_round_add_exp` -/
def round (t : Stage f) : BitVec (f.F + 1) × BitVec (f.E + 1) :=
  if t.guard && (t.round || t.sticky || t.mant.getLsbD 0) then
    if t.mant = BitVec.allOnes _ then (1#1 ++ 0#f.F |>.cast (by omega), t.exp + 1)
    else (t.mant + 1, t.exp)
  else (t.mant, t.exp)

/-- The rounded sum. -/
def rounded : BitVec (f.F + 1) × BitVec (f.E + 1) :=
  round (norm1 o (add (alignSum o a b) (alignExp a b)))

/-- `w_a_is_zero` -/
def isZero (x : BitVec f.W) : Bool := exp x == 0 && frac x == 0

end FpAdd

open FpAdd in
/-- The word `w_y` for the operands `a` and `w_b`. -/
def fpAdd (o : FpAddOpen f) (a b : BitVec f.W) : BitVec f.W :=
  if (sign a ^^ sign b) && (rounded o a b).1 == 0 then 0
  else if isZero a then b
  else if isZero b then a
  else pack (alignSign o a b) ((rounded o a b).2.setWidth f.E) ((rounded o a b).1.extractLsb' 0 f.F)

/-- One cycle of `fp_add` with `ADD_LAT = d + 1`. -/
def fpAddStep {d : ℕ} (o : FpAddOpen f) (r : DelayLine.Line (BitVec f.W) d) (i : FpAddIn f) :
    DelayLine.Line (BitVec f.W) d := DelayLine.shift r (fpAdd o i.a i.wB)

/-! ## The sum of the significands -/

/-- The second operand has the larger magnitude. -/
def Swaps (a b : BitVec f.W) : Prop := exp a < exp b ∨ exp a = exp b ∧ frac a < frac b

instance (a b : BitVec f.W) : Decidable (Swaps a b) := inferInstanceAs (Decidable (_ ∨ _))

def larger (a b : BitVec f.W) : BitVec f.W := if Swaps a b then b else a
def smaller (a b : BitVec f.W) : BitVec f.W := if Swaps a b then a else b

/-- The distance of the exponents. -/
def addDist (a b : BitVec f.W) : ℕ := (exp (larger a b)).toNat - (exp (smaller a b)).toNat
/-- The smaller significand in eighths of the larger one's unit, cut off. -/
def addCut (a b : BitVec f.W) : ℕ := 8 * divSig (smaller a b) / 2 ^ addDist a b
/-- Whether something is cut off. -/
def addLost (a b : BitVec f.W) : Bool := decide (8 * divSig (smaller a b) % 2 ^ addDist a b ≠ 0)
/-- The bit that the source takes for it. -/
def addOr (o : FpAddOpen f) (a b : BitVec f.W) : Bool :=
  decide (exp a ≠ exp b) && FpAdd.orMant o (smaller a b) (FpAdd.orIdx a b)

/-- The exact sum or difference, in units that lose nothing. -/
def addExact (a b : BitVec f.W) : ℕ :=
  if sign a = sign b then 8 * divSig (larger a b) * 2 ^ addDist a b + 8 * divSig (smaller a b)
  else 8 * divSig (larger a b) * 2 ^ addDist a b - 8 * divSig (smaller a b)

/-- The sum or difference of the aligned significands with `s` in the last bit. -/
def addSum (a b : BitVec f.W) (s : Bool) : ℕ :=
  if sign a = sign b then 8 * divSig (larger a b) + stick (addCut a b) s
  else 8 * divSig (larger a b) - stick (addCut a b) s

/-- The unit that a sum is rounded to, on the scale of the sum. -/
def addUnit (f : BinaryFormat) (n : ℕ) : ℕ :=
  if 2 ^ (f.F + 4) ≤ n then 16 else if 2 ^ (f.F + 3) ≤ n then 8 else 4

/-- Without the last bit the sum is halfway above a significand of the parity `p`. -/
def AddTie (a b : BitVec f.W) (p : ℕ) : Prop :=
  2 * (addSum a b false % addUnit f (addSum a b false)) = addUnit f (addSum a b false) ∧
    addSum a b false / addUnit f (addSum a b false) % 2 = p

/-- The bit taken for what is cut off is right, or is not seen in the result. -/
def AddSticks (o : FpAddOpen f) (a b : BitVec f.W) : Prop :=
  addCut a b % 2 = 1 ∨ addOr o a b = addLost a b ∨
    if sign a = sign b then ¬AddTie a b 0
    else 2 ^ (f.F + 2) ≤ addSum a b false ∧ ¬AddTie a b 1

/-- The distance that a difference is shifted by is that of its leading one: the one that is found
stops short of a difference of half a unit and takes the last bit for part of it. -/
def AddShifts (o : FpAddOpen f) (a b : BitVec f.W) : Prop :=
  if o.init = none then
    addSum a b false ≠ 4 ∧ (addSum a b false = 2 ^ (f.F + 2) → addOr o a b = addLost a b)
  else addSum a b (addOr o a b) < 2 ^ (f.F + 3) →
    (FpAdd.zeroDetector o 0).toNat = max 1 (f.F + 3 - Nat.log2 (addSum a b false))

/-- The difference from a zero, which is taken for the smallest exponent's one, is not shifted
out. -/
def AddKeeps (o : FpAddOpen f) (a b : BitVec f.W) : Prop :=
  o.init = none ∨ (addSum a b (addOr o a b) ≠ 0 → addSum a b (addOr o a b) < 2 ^ (f.F + 3) →
    (FpAdd.zeroDetector o 0).toNat = 1 ∨ 2 ≤ (FpAdd.zeroDetector o 0).toNat ∧
      ¬2 ^ (f.F + 3) ∣ addSum a b (addOr o a b) / 2 * 2 ^ (FpAdd.zeroDetector o 0).toNat)

/-- When `fp_add` rounds as it should. -/
def AddRounds (o : FpAddOpen f) (a b : BitVec f.W) : Prop :=
  if IsZero a ∨ IsZero b then sign a ≠ sign b → AddKeeps o a b
  else AddSticks o a b ∧ (sign a ≠ sign b → addSum a b false ≠ 0 → AddShifts o a b)

instance (a b : BitVec f.W) (p : ℕ) : Decidable (AddTie a b p) :=
  inferInstanceAs (Decidable (_ ∧ _))

instance (o : FpAddOpen f) (a b : BitVec f.W) : Decidable (AddSticks o a b) :=
  inferInstanceAs (Decidable (_ ∨ _ ∨ if sign a = sign b then ¬AddTie a b 0
    else 2 ^ (f.F + 2) ≤ addSum a b false ∧ ¬AddTie a b 1))

instance (o : FpAddOpen f) (a b : BitVec f.W) : Decidable (AddShifts o a b) :=
  inferInstanceAs (Decidable (if o.init = none then _ ≠ _ ∧ (_ = _ → _ = _) else _ < _ → _ = _))

instance (o : FpAddOpen f) (a b : BitVec f.W) : Decidable (AddKeeps o a b) :=
  inferInstanceAs (Decidable (_ = none ∨ (_ ≠ _ → _ < _ → _ = _ ∨ _ ≤ _ ∧ ¬_ ∣ _)))

instance (o : FpAddOpen f) (a b : BitVec f.W) : Decidable (AddRounds o a b) :=
  inferInstanceAs (Decidable (if IsZero a ∨ IsZero b then _ ≠ _ → AddKeeps o a b
    else AddSticks o a b ∧ (_ ≠ _ → _ ≠ _ → AddShifts o a b)))

/-- The exact sum or difference. -/
noncomputable def FpAddIn.exact (i : FpAddIn f) : ℝ :=
  if i.sub then value i.a - value i.b else value i.a + value i.b

/-- The exact result rounded to nearest, ties to even; a zero is negative only as the sum of two
negative zeros. -/
structure FpAddIn.RoundsTo (i : FpAddIn f) (y : BitVec f.W) : Prop where
  nearest : BinaryFormat.RoundsTo i.exact y
  zero : i.exact = 0 → sign y = (sign i.a && (sign i.b ^^ i.sub))

namespace FpAdd

/-! ## Rounding a stage -/

/-- What a stage is rounded to, with the carry. -/
def Stage.kept (t : Stage f) : ℕ :=
  t.mant.toNat + if t.guard && (t.round || t.sticky || t.mant.getLsbD 0) then 1 else 0

theorem round_spec (t : Stage f) :
    (round t).1.extractLsb' 0 f.F = BitVec.ofNat f.F t.kept ∧
      (round t).2 = t.exp + BitVec.ofNat _ (t.kept / 2 ^ (f.F + 1)) ∧
      ((round t).1 = 0 ↔ t.kept = 0) := by
  have hlt := t.mant.isLt
  have hpos := Nat.two_pow_pos f.F
  have hpow : 2 ^ (f.F + 1) = 2 * 2 ^ f.F := pow_succ' _ _
  have hcut : ∀ m : BitVec (f.F + 1), m.extractLsb' 0 f.F = BitVec.ofNat f.F m.toNat := fun m =>
    BitVec.eq_of_toNat_eq (by simp [BitVec.extractLsb'_toNat])
  have hzero : ∀ m : BitVec (f.F + 1), m = 0 ↔ m.toNat = 0 := fun m =>
    ⟨fun h => by simp [h], fun h => BitVec.eq_of_toNat_eq (by simpa using h)⟩
  unfold round Stage.kept
  by_cases hup : (t.guard && (t.round || t.sticky || t.mant.getLsbD 0)) = true
  · rw [if_pos hup, if_pos hup]
    by_cases hones : t.mant = BitVec.allOnes _
    · have hm : t.mant.toNat + 1 = 2 ^ (f.F + 1) := by
        rw [hones, BitVec.toNat_allOnes]
        omega
      have hval : (1#1 ++ 0#f.F |>.cast (by omega) : BitVec (f.F + 1)).toNat = 2 ^ f.F := by
        simp [BitVec.toNat_append, Nat.shiftLeft_eq]
      rw [if_pos hones, hm, hcut, hval, Nat.div_self (by omega), hzero, hval]
      refine ⟨BitVec.eq_of_toNat_eq ?_, rfl, by omega⟩
      rw [BitVec.toNat_ofNat, BitVec.toNat_ofNat, hpow, Nat.mod_self, Nat.mul_mod_left]
    · have hne : t.mant.toNat + 1 < 2 ^ (f.F + 1) := by
        refine lt_of_le_of_ne hlt fun hc => hones (BitVec.eq_of_toNat_eq ?_)
        rw [BitVec.toNat_allOnes]
        omega
      have hval : (t.mant + 1).toNat = t.mant.toNat + 1 := by
        rw [BitVec.toNat_add, BitVec.ofNat_eq_ofNat, BitVec.toNat_ofNat,
          Nat.mod_eq_of_lt (a := 1) (by omega), Nat.mod_eq_of_lt hne]
      rw [if_neg hones, hcut, hzero, hval, Nat.div_eq_of_lt hne]
      exact ⟨rfl, (BitVec.add_zero _).symm, Iff.rfl⟩
  · rw [if_neg hup, if_neg hup, hcut, hzero]
    refine ⟨rfl, ?_, Iff.rfl⟩
    change t.exp = t.exp + BitVec.ofNat _ (t.mant.toNat / _)
    rw [Nat.div_eq_of_lt hlt]
    exact (BitVec.add_zero _).symm

/-- The word of a rounded stage. -/
theorem pack_round {s : Bool} {t : Stage f} {e : ℕ} (he : t.exp = BitVec.ofNat _ e) :
    pack s ((round t).2.setWidth f.E) ((round t).1.extractLsb' 0 f.F) =
      encode f s (e + t.kept / 2 ^ (f.F + 1)) t.kept := by
  obtain ⟨h1, h2, -⟩ := round_spec t
  rw [h1, h2, he, ← BitVec.ofNat_add, BitVec.setWidth_ofNat_of_le (Nat.le_succ _), encode]

/-! ## Normalising -/

section
variable {o : FpAddOpen f} {sum : BitVec (f.F + 5)} {e : BitVec (f.E + 1)}

theorem toNat_cut (sum : BitVec (f.F + 5)) (k : ℕ) :
    (sum.extractLsb' k (f.F + 1)).toNat = sum.toNat / 2 ^ k % 2 ^ (f.F + 1) := by
  rw [BitVec.extractLsb'_toNat, Nat.shiftRight_eq_div_pow]

/-- A sum that has carried. -/
theorem norm1_carry (h : 2 ^ (f.F + 4) ≤ sum.toNat) :
    (norm1 o (add sum e)).kept = nearestEven sum.toNat 16 ∧ (norm1 o (add sum e)).exp = e + 1 := by
  have hlt := sum.isLt
  have h4 : 2 ^ (f.F + 4) = 16 * 2 ^ f.F := by rw [pow_add, Nat.mul_comm]; rfl
  have h5 : 2 ^ (f.F + 5) = 32 * 2 ^ f.F := by rw [pow_add, Nat.mul_comm]; rfl
  have h1 : 2 ^ (f.F + 1) = 2 * 2 ^ f.F := pow_succ' _ _
  have htop : sum.getLsbD (f.F + 4) = true := by
    have hone : sum.toNat / 2 ^ (f.F + 4) = 1 := Nat.div_eq_of_lt_le (by omega) (by omega)
    rw [getLsbD_eq_decide, hone]
    rfl
  have hm : (sum.extractLsb' 4 (f.F + 1)).toNat = sum.toNat / 16 := by
    rw [toNat_cut]
    exact Nat.mod_eq_of_lt (by omega)
  have hlead : (sum.extractLsb' 4 (f.F + 1)).getLsbD f.F = true := by
    have hone : sum.toNat / 16 / 2 ^ f.F = 1 := Nat.div_eq_of_lt_le (by omega) (by omega)
    rw [getLsbD_eq_decide, hm, hone]
    rfl
  rw [add, if_pos htop, norm1, if_neg (by rw [hlead]; simp)]
  refine ⟨?_, rfl⟩
  simp only [Stage.kept, hm, getLsbD_eq_decide, Bool.and_eq_true, Bool.or_eq_true,
    decide_eq_true_iff]
  unfold nearestEven
  split_ifs <;> omega

/-- A sum in the binade of the larger operand. -/
theorem norm1_flat (h : 2 ^ (f.F + 3) ≤ sum.toNat) (h' : sum.toNat < 2 ^ (f.F + 4)) :
    (norm1 o (add sum e)).kept = nearestEven sum.toNat 8 ∧ (norm1 o (add sum e)).exp = e := by
  have h3 : 2 ^ (f.F + 3) = 8 * 2 ^ f.F := by rw [pow_add, Nat.mul_comm]; rfl
  have h4 : 2 ^ (f.F + 4) = 16 * 2 ^ f.F := by rw [pow_add, Nat.mul_comm]; rfl
  have h1 : 2 ^ (f.F + 1) = 2 * 2 ^ f.F := pow_succ' _ _
  have htop : sum.getLsbD (f.F + 4) = false := by
    rw [getLsbD_eq_decide, Nat.div_eq_of_lt h']
    rfl
  have hm : (sum.extractLsb' 3 (f.F + 1)).toNat = sum.toNat / 8 := by
    rw [toNat_cut]
    exact Nat.mod_eq_of_lt (by omega)
  have hlead : (sum.extractLsb' 3 (f.F + 1)).getLsbD f.F = true := by
    have hone : sum.toNat / 8 / 2 ^ f.F = 1 := Nat.div_eq_of_lt_le (by omega) (by omega)
    rw [getLsbD_eq_decide, hm, hone]
    rfl
  rw [add, if_neg (by rw [htop]; decide), norm1, if_neg (by rw [hlead]; simp)]
  refine ⟨?_, rfl⟩
  simp only [Stage.kept, hm, getLsbD_eq_decide, Bool.and_eq_true, Bool.or_eq_true,
    decide_eq_true_iff]
  unfold nearestEven
  split_ifs <;> omega

/-- A sum below the binade of the larger operand, before it is shifted. -/
theorem add_low (h : sum.toNat < 2 ^ (f.F + 3)) :
    add sum e = ⟨sum.extractLsb' 3 (f.F + 1), e, sum.getLsbD 2, sum.getLsbD 1, sum.getLsbD 0⟩ ∧
      (sum.extractLsb' 3 (f.F + 1)).toNat = sum.toNat / 8 ∧
      (sum.extractLsb' 3 (f.F + 1)).getLsbD f.F = false := by
  have h3 : 2 ^ (f.F + 3) = 8 * 2 ^ f.F := by rw [pow_add, Nat.mul_comm]; rfl
  have h4 : 2 ^ (f.F + 4) = 16 * 2 ^ f.F := by rw [pow_add, Nat.mul_comm]; rfl
  have h1 : 2 ^ (f.F + 1) = 2 * 2 ^ f.F := pow_succ' _ _
  have htop : sum.getLsbD (f.F + 4) = false := by
    rw [getLsbD_eq_decide, Nat.div_eq_of_lt (by omega)]
    rfl
  have hm : (sum.extractLsb' 3 (f.F + 1)).toNat = sum.toNat / 8 := by
    rw [toNat_cut]
    exact Nat.mod_eq_of_lt (by omega)
  refine ⟨by rw [add, if_neg (by rw [htop]; decide)], hm, ?_⟩
  rw [getLsbD_eq_decide, hm, Nat.div_eq_of_lt (by omega)]
  rfl

theorem toNat_bit {w : ℕ} (m : BitVec w) (i : ℕ) :
    (BitVec.ofBool (m.getLsbD i)).toNat = m.toNat / 2 ^ i % 2 := by
  rw [BitVec.toNat_ofBool, getLsbD_eq_decide]
  rcases Nat.mod_two_eq_zero_or_one (m.toNat / 2 ^ i) with h | h <;> simp [h]

/-- The distance that the zero detector answers for a sum. -/
def shift (o : FpAddOpen f) (sum : BitVec (f.F + 5)) : ℕ :=
  (zeroDetector o (sum.extractLsb' 3 (f.F + 1))).toNat

/-- A sum that loses one place. -/
theorem norm1_one (h : sum.toNat < 2 ^ (f.F + 3)) (he : e ≠ 0)
    (hd : shift o sum = 1) :
    (norm1 o (add sum e)).kept = nearestEven sum.toNat 4 ∧ (norm1 o (add sum e)).exp = e - 1 := by
  obtain ⟨hadd, hm, hlead⟩ := add_low (e := e) h
  have h3 : 2 ^ (f.F + 3) = 8 * 2 ^ f.F := by rw [pow_add, Nat.mul_comm]; rfl
  have hdist : (zeroDetector o (sum.extractLsb' 3 (f.F + 1))).setWidth (f.E + 1) = 1 := by
    refine BitVec.eq_of_toNat_eq ?_
    rw [BitVec.toNat_setWidth]
    change shift o sum % _ = _
    rw [hd]
    rfl
  rw [hadd, norm1, if_pos ⟨hlead, he⟩]
  simp only [hdist, if_true]
  refine ⟨?_, trivial⟩
  generalize hmant : ((sum.extractLsb' 3 (f.F + 1)).extractLsb' 0 f.F ++
    BitVec.ofBool (sum.getLsbD 2) : BitVec (f.F + 1)) = m
  have hval : m.toNat = sum.toNat / 4 := by
    rw [← hmant, BitVec.toNat_append, ← Nat.shiftLeft_add_eq_or_of_lt (BitVec.isLt _),
      Nat.shiftLeft_eq, BitVec.extractLsb'_toNat, hm, Nat.shiftRight_zero,
      Nat.mod_eq_of_lt (by omega), toNat_bit]
    omega
  simp only [Stage.kept, getLsbD_eq_decide, hval, Bool.and_eq_true, Bool.or_eq_true,
    Bool.false_eq_true, false_or, decide_eq_true_iff]
  unfold nearestEven
  split_ifs <;> omega

/-- The distance as a word of the exponent's width. -/
theorem toNat_dist (hE : f.F < 2 ^ f.E) {D : ℕ} (hD : D ≤ f.F) :
    (BitVec.ofNat (f.E + 1) D).toNat = D := by
  have hE1 : 2 ^ (f.E + 1) = 2 * 2 ^ f.E := pow_succ' _ _
  rw [BitVec.toNat_ofNat, Nat.mod_eq_of_lt (by omega)]

/-- A sum that is shifted by another distance than one is not rounded. -/
theorem norm1_other (hE : f.F < 2 ^ f.E) {D : ℕ} (hD : D ≤ f.F) (h1 : D ≠ 1)
    (h : sum.toNat < 2 ^ (f.F + 3)) (he : e ≠ 0) (hd : shift o sum = D) :
    (norm1 o (add sum e)).kept = (sum.toNat / 2 % 2 ^ (f.F + 1)) <<<
        (BitVec.ofNat (f.E + 1) D - 2).toNat % 2 ^ (f.F + 1) ∧
      (norm1 o (add sum e)).exp = e - BitVec.ofNat _ D := by
  have h4 : 2 ^ (f.F + 1) = 4 * 2 ^ (f.F - 1) := by
    have hF := f.four_le_F
    rw [show f.F + 1 = f.F - 1 + 2 by omega, pow_add, Nat.mul_comm]
    rfl
  obtain ⟨hadd, hm, hlead⟩ := add_low (e := e) h
  have hdist : (zeroDetector o (sum.extractLsb' 3 (f.F + 1))).setWidth (f.E + 1) =
      BitVec.ofNat _ D := by
    refine BitVec.eq_of_toNat_eq ?_
    rw [BitVec.toNat_setWidth, BitVec.toNat_ofNat]
    exact congrArg (· % _) hd
  have hne : BitVec.ofNat (f.E + 1) D ≠ 1 := by
    intro hc
    have hc := congrArg BitVec.toNat hc
    rw [toNat_dist hE hD, BitVec.ofNat_eq_ofNat, BitVec.toNat_ofNat,
      Nat.mod_eq_of_lt (Nat.one_lt_two_pow (Nat.succ_ne_zero _))] at hc
    exact h1 hc
  rw [hadd, norm1, if_pos ⟨hlead, he⟩]
  simp only [hdist, hne, if_false]
  refine ⟨?_, trivial⟩
  have hcut : (((sum.extractLsb' 3 (f.F + 1)).extractLsb' 0 (f.F - 1) ++
      BitVec.ofBool (sum.getLsbD 2) ++ BitVec.ofBool (sum.getLsbD 1)).setWidth (f.F + 1)).toNat =
        sum.toNat / 2 % 2 ^ (f.F + 1) := by
    have hdm := Nat.div_add_mod (sum.toNat / 8) (2 ^ (f.F - 1))
    have hlt := Nat.mod_lt (sum.toNat / 8) (Nat.two_pow_pos (f.F - 1))
    rw [BitVec.toNat_setWidth, BitVec.toNat_append, BitVec.toNat_append,
      ← Nat.shiftLeft_add_eq_or_of_lt (BitVec.isLt _),
      ← Nat.shiftLeft_add_eq_or_of_lt (BitVec.isLt _), Nat.shiftLeft_eq, Nat.shiftLeft_eq,
      BitVec.extractLsb'_toNat, hm, Nat.shiftRight_zero, toNat_bit, toNat_bit]
    simp only [pow_one]
    generalize sum.toNat / 8 % 2 ^ (f.F - 1) = r at hdm hlt ⊢
    have hsplit : sum.toNat / 2 = (r * 2 + sum.toNat / 2 ^ 2 % 2) * 2 + sum.toNat / 2 % 2 +
        2 ^ (f.F + 1) * (sum.toNat / 8 / 2 ^ (f.F - 1)) := by
      rw [h4, Nat.mul_assoc]
      omega
    conv_rhs => rw [hsplit, Nat.add_mul_mod_self_left]
  simp only [Stage.kept, Bool.false_and, Bool.false_eq_true, if_false, Nat.add_zero]
  rw [BitVec.toNat_shiftLeft, hcut]

/-- A sum that loses more places is shifted. -/
theorem norm1_more (hE : f.F < 2 ^ f.E) {D : ℕ} (h2 : 2 ≤ D) (hD : D ≤ f.F)
    (h : sum.toNat < 2 ^ (f.F + 3)) (he : e ≠ 0) (hd : shift o sum = D) :
    (norm1 o (add sum e)).kept = sum.toNat / 2 * 2 ^ (D - 2) % 2 ^ (f.F + 1) ∧
      (norm1 o (add sum e)).exp = e - BitVec.ofNat _ D := by
  obtain ⟨hk, hexp⟩ := norm1_other (e := e) hE hD (by omega) h he hd
  have hsub : (BitVec.ofNat (f.E + 1) D - 2).toNat = D - 2 := by
    have h2D : BitVec.ofNat (f.E + 1) D - 2 = BitVec.ofNat _ (D - 2) := by
      rw [sub_eq_iff_eq_add]
      change _ = _ + BitVec.ofNat _ 2
      rw [← BitVec.ofNat_add]
      congr 1
      omega
    rw [h2D, toNat_dist hE (by omega)]
  rw [hk, hsub, Nat.shiftLeft_eq, Nat.mod_mul_mod]
  exact ⟨rfl, hexp⟩

/-- A distance of zero, where a shift is needed, shifts everything out. -/
theorem norm1_none (hE : f.F < 2 ^ f.E) (h : sum.toNat < 2 ^ (f.F + 3)) (he : e ≠ 0)
    (hd : shift o sum = 0) : (norm1 o (add sum e)).kept = 0 := by
  obtain ⟨hk, -⟩ := norm1_other (e := e) hE (Nat.zero_le _) (by decide) h he hd
  have hge : f.F + 1 ≤ (BitVec.ofNat (f.E + 1) 0 - 2).toNat := by
    have hE1 : 2 ^ (f.E + 1) = 2 * 2 ^ f.E := pow_succ' _ _
    have hF := f.four_le_F
    rw [BitVec.toNat_sub, BitVec.ofNat_eq_ofNat, BitVec.toNat_ofNat, BitVec.toNat_ofNat,
      Nat.mod_eq_of_lt (a := 2) (by omega), Nat.zero_mod, Nat.add_zero,
      Nat.mod_eq_of_lt (by omega)]
    omega
  rw [hk, Nat.shiftLeft_eq]
  exact Nat.mod_eq_zero_of_dvd ((pow_dvd_pow 2 hge).mul_left _)

end
/-! ## Aligning -/

section
variable {o : FpAddOpen f} {a b : BitVec f.W}

theorem toNat_mant (x : BitVec f.W) : (mant x).toNat = 8 * divSig x := by
  rw [mant, BitVec.toNat_cast, BitVec.toNat_append, BitVec.toNat_append,
    ← Nat.shiftLeft_add_eq_or_of_lt (frac x).isLt, Nat.shiftLeft_eq, Nat.shiftLeft_eq, divSig]
  simp
  omega

theorem or_toNat (c : ℕ) (s : Bool) : c ||| s.toNat = stick c s := by
  cases s with
  | false => simp [stick]
  | true =>
    have h := Nat.div_add_mod c 2
    refine Nat.eq_of_testBit_eq fun i => ?_
    cases i with
    | zero =>
      rcases Nat.mod_two_eq_zero_or_one c with hc | hc <;> simp [stick, hc, Nat.testBit_zero]
      omega
    | succ i =>
      have hd : stick c true / 2 = c / 2 := by
        unfold stick
        split_ifs <;> omega
      rw [Nat.testBit_succ, Nat.testBit_succ, hd, Nat.or_div_two]
      simp

theorem toNat_shifted (x : BitVec f.W) (n : ℕ) (s : Bool) :
    (mant x >>> n ||| (BitVec.ofBool s).setWidth (f.F + 4)).toNat =
      stick (8 * divSig x / 2 ^ n) s := by
  have hs : ((BitVec.ofBool s).setWidth (f.F + 4)).toNat = s.toNat := by
    rw [BitVec.toNat_setWidth, BitVec.toNat_ofBool, Nat.mod_eq_of_lt]
    exact (Bool.toNat_lt s).trans_le (Nat.pow_le_pow_right two_pos (by omega : 1 ≤ f.F + 4))
  rw [BitVec.toNat_or, BitVec.toNat_ushiftRight, toNat_mant, hs, Nat.shiftRight_eq_div_pow,
    or_toNat]

/-- The sum of what has been aligned. -/
theorem toNat_alignSum_eq : (alignSum o a b).toNat =
    if sign a ≠ sign b then
      if (alignB o a b).toNat < (alignA o a b).toNat then
        (alignA o a b).toNat - (alignB o a b).toNat
      else (alignB o a b).toNat - (alignA o a b).toNat
    else (alignA o a b).toNat + (alignB o a b).toNat := by
  have hA := (alignA o a b).isLt
  have hB := (alignB o a b).isLt
  have h5 : 2 ^ (f.F + 5) = 2 * 2 ^ (f.F + 4) := pow_succ' _ _
  have hw : ∀ x : BitVec (f.F + 4), (x.setWidth (f.F + 5)).toNat = x.toNat := fun x => by
    rw [BitVec.toNat_setWidth, Nat.mod_eq_of_lt]
    omega
  unfold alignSum
  simp only [BitVec.lt_def]
  split_ifs with h1 h2
  · rw [BitVec.toNat_sub_of_le (by rw [BitVec.le_def, hw, hw]; omega), hw, hw]
  · rw [BitVec.toNat_sub_of_le (by rw [BitVec.le_def, hw, hw]; omega), hw, hw]
  · rw [BitVec.toNat_add, hw, hw, Nat.mod_eq_of_lt (by omega)]

theorem larger_of_lt (h : exp a < exp b) : larger a b = b ∧ smaller a b = a := by
  have hs : Swaps a b := Or.inl h
  exact ⟨if_pos hs, if_pos hs⟩

theorem larger_of_gt (h : exp b < exp a) : larger a b = a ∧ smaller a b = b := by
  have hs : ¬Swaps a b := by
    rintro (hlt | ⟨heq, -⟩)
    · exact absurd (BitVec.lt_asymm h hlt) not_false
    · rw [heq] at h
      exact absurd h (BitVec.lt_irrefl _)
  exact ⟨if_neg hs, if_neg hs⟩

theorem exp_smaller_le (a b : BitVec f.W) :
    (exp (smaller a b)).toNat ≤ (exp (larger a b)).toNat := by
  rcases BitVec.lt_trichotomy (exp a) (exp b) with h | h | h
  · rw [(larger_of_lt h).1, (larger_of_lt h).2]
    exact (BitVec.lt_def.mp h).le
  · unfold larger smaller
    split <;> simp [h]
  · rw [(larger_of_gt h).1, (larger_of_gt h).2]
    exact (BitVec.lt_def.mp h).le

theorem addDist_pos (h : exp a ≠ exp b) : 0 < addDist a b := by
  unfold addDist
  rcases BitVec.lt_trichotomy (exp a) (exp b) with hlt | heq | hgt
  · rw [(larger_of_lt hlt).1, (larger_of_lt hlt).2]
    have := BitVec.lt_def.mp hlt
    omega
  · exact absurd heq h
  · rw [(larger_of_gt hgt).1, (larger_of_gt hgt).2]
    have := BitVec.lt_def.mp hgt
    omega

theorem addDist_eq_zero (h : exp a = exp b) : addDist a b = 0 := by
  unfold addDist larger smaller
  split <;> simp [h]

theorem swaps_iff (h : exp a = exp b) : Swaps a b ↔ divSig a < divSig b := by
  rw [Swaps, h, or_iff_right (BitVec.lt_irrefl _), and_iff_right rfl, BitVec.lt_def, divSig,
    divSig]
  omega

theorem stick_le (c : ℕ) (s : Bool) : stick c s ≤ c + 1 := by
  unfold stick
  split <;> omega

/-- What has been shifted is below the larger significand. -/
theorem addCut_lt (h : exp a ≠ exp b) : addCut a b + 4 ≤ 2 ^ (f.F + 3) := by
  have hd := addDist_pos h
  have hS := FpDivider.divSig_lt (smaller a b)
  have h3 : 2 ^ (f.F + 3) = 4 * 2 ^ (f.F + 1) := by rw [pow_add 2 (f.F + 1) 2, Nat.mul_comm]; rfl
  have h2 : 2 ^ 1 ≤ 2 ^ addDist a b := Nat.pow_le_pow_right two_pos hd
  have hle : addCut a b ≤ 8 * divSig (smaller a b) / 2 := Nat.div_le_div_left h2 two_pos
  omega

/-- The aligned significands, the exponent and the sign of the sum. -/
theorem align_spec : (alignSum o a b).toNat = addSum a b (addOr o a b) ∧
    alignExp a b = (exp (larger a b)).setWidth _ ∧
    ((alignSum o a b).toNat ≠ 0 → alignSign o a b = sign (larger a b)) := by
  have hSa := FpDivider.two_pow_le_divSig a
  have hSb := FpDivider.two_pow_le_divSig b
  have h3 : 2 ^ (f.F + 3) = 8 * 2 ^ f.F := by rw [pow_add, Nat.mul_comm]; rfl
  have hsum := toNat_alignSum_eq (o := o) (a := a) (b := b)
  rcases BitVec.lt_trichotomy (exp a) (exp b) with h | h | h
  · obtain ⟨hl, hs⟩ := larger_of_lt h
    have hne : exp a ≠ exp b := BitVec.ne_of_lt h
    have hdist : (distB a b).toNat = addDist a b := by
      rw [distB, BitVec.toNat_sub_of_le (BitVec.le_of_lt h), addDist, hl, hs]
    have hA : (alignA o a b).toNat = stick (addCut a b) (addOr o a b) := by
      rw [alignA, if_pos h, toNat_shifted, hdist, addCut, addOr, hs, decide_eq_true hne]
      rfl
    have hB : (alignB o a b).toNat = 8 * divSig b := by
      rw [alignB, if_neg (BitVec.lt_asymm h), toNat_mant]
    have hlt := addCut_lt hne
    have hle := stick_le (addCut a b) (addOr o a b)
    have hcmp : ¬alignB o a b < alignA o a b := by rw [BitVec.lt_def, hA, hB]; omega
    rw [hA, hB] at hsum
    rw [hsum, addSum, alignExp, if_pos h, alignSign, hl]
    refine ⟨?_, rfl, fun _ => ?_⟩
    · by_cases hsgn : sign a = sign b
      · rw [if_neg (not_not.mpr hsgn), if_pos hsgn, Nat.add_comm]
      · rw [if_pos hsgn, if_neg (by omega), if_neg hsgn]
    · by_cases hsgn : sign a = sign b
      · rw [if_neg (not_not.mpr hsgn), hsgn]
      · rw [if_pos hsgn, if_neg hcmp]
  · have hA : (alignA o a b).toNat = 8 * divSig a := by
      rw [alignA, if_neg (by rw [h]; exact BitVec.lt_irrefl _), toNat_mant]
    have hB : (alignB o a b).toNat = 8 * divSig b := by
      rw [alignB, if_neg (by rw [h]; exact BitVec.lt_irrefl _), toNat_mant]
    have hcut : stick (addCut a b) (addOr o a b) = 8 * divSig (smaller a b) := by
      simp [addOr, h, addCut, addDist_eq_zero h, stick]
    have hswap := swaps_iff h
    have hexp : alignExp a b = (exp (larger a b)).setWidth _ := by
      unfold alignExp larger
      split_ifs <;> simp [h]
    have hcmp : alignB o a b < alignA o a b ↔ divSig b < divSig a := by
      rw [BitVec.lt_def, hA, hB]
      omega
    rw [hA, hB] at hsum
    rw [hsum, addSum, hcut, alignSign]
    by_cases hs : Swaps a b
    · have hl : larger a b = b := if_pos hs
      have hsm : smaller a b = a := if_pos hs
      have hlt := hswap.mp hs
      rw [hl, hsm]
      refine ⟨?_, hexp.trans (by rw [hl]), fun _ => ?_⟩ <;> by_cases hsgn : sign a = sign b
      · rw [if_neg (not_not.mpr hsgn), if_pos hsgn, Nat.add_comm]
      · rw [if_pos hsgn, if_neg (by omega), if_neg hsgn]
      · rw [if_neg (not_not.mpr hsgn), hsgn]
      · rw [if_pos hsgn, if_neg (mt hcmp.mp (by omega))]
    · have hl : larger a b = a := if_neg hs
      have hsm : smaller a b = b := if_neg hs
      have hge := not_lt.mp (mt hswap.mpr hs)
      rw [hl, hsm]
      refine ⟨?_, hexp.trans (by rw [hl]), fun hne => ?_⟩ <;> by_cases hsgn : sign a = sign b
      · rw [if_neg (not_not.mpr hsgn), if_pos hsgn]
      · rw [if_pos hsgn, if_neg hsgn]
        split_ifs <;> omega
      · rw [if_neg (not_not.mpr hsgn)]
      · rw [if_pos hsgn] at hne ⊢
        rw [if_pos (hcmp.mpr (by split_ifs at hne <;> omega))]
  · obtain ⟨hl, hs⟩ := larger_of_gt h
    have hne : exp a ≠ exp b := (BitVec.ne_of_lt h).symm
    have hdist : (distA a b).toNat = addDist a b := by
      rw [distA, BitVec.toNat_sub_of_le (BitVec.le_of_lt h), addDist, hl, hs]
    have hB : (alignB o a b).toNat = stick (addCut a b) (addOr o a b) := by
      rw [alignB, if_pos h, toNat_shifted, hdist, addCut, addOr, hs, decide_eq_true hne]
      rfl
    have hA : (alignA o a b).toNat = 8 * divSig a := by
      rw [alignA, if_neg (BitVec.lt_asymm h), toNat_mant]
    have hlt := addCut_lt hne
    have hle := stick_le (addCut a b) (addOr o a b)
    have hcmp : alignB o a b < alignA o a b := by rw [BitVec.lt_def, hA, hB]; omega
    rw [hA, hB] at hsum
    rw [hsum, addSum, alignExp, if_neg (BitVec.lt_asymm h), alignSign, hl]
    refine ⟨?_, rfl, fun _ => ?_⟩
    · by_cases hsgn : sign a = sign b
      · rw [if_neg (not_not.mpr hsgn), if_pos hsgn]
      · rw [if_pos hsgn, if_pos (by omega), if_neg hsgn]
    · by_cases hsgn : sign a = sign b
      · rw [if_neg (not_not.mpr hsgn)]
      · rw [if_pos hsgn, if_pos hcmp]

/-! ## The exact sum -/

theorem divSig_smaller_le (a b : BitVec f.W) :
    divSig (smaller a b) ≤ divSig (larger a b) * 2 ^ addDist a b := by
  by_cases h : exp a = exp b
  · rw [addDist_eq_zero h, pow_zero, Nat.mul_one]
    unfold larger smaller
    split_ifs with hs
    · exact ((swaps_iff h).mp hs).le
    · exact not_lt.mp (mt (swaps_iff h).mpr hs)
  · have hd := addDist_pos h
    have h1 := FpDivider.divSig_lt (smaller a b)
    have h2 := FpDivider.two_pow_le_divSig (larger a b)
    rw [pow_succ] at h1
    exact h1.le.trans (Nat.mul_le_mul h2 (Nat.pow_le_pow_right two_pos hd))

/-- The sum with the right last bit stands for the exact one. -/
theorem jams_addSum (a b : BitVec f.W) :
    Jams (addExact a b) (2 ^ addDist a b) (addSum a b (addLost a b)) := by
  have hP := Nat.two_pow_pos (addDist a b)
  have hj := jams_stick (8 * divSig (smaller a b)) hP
  unfold addExact addSum
  split
  · exact hj.add (by omega)
  · refine hj.sub hP (by omega) ?_
    rw [Nat.mul_assoc]
    exact Nat.mul_le_mul_left 8 (divSig_smaller_le a b)

/-- The exact sum on the scale of the larger operand. -/
theorem value_add (ha : IsNormal a) (hb : IsNormal b) :
    value a + value b = signed (sign (larger a b)) (addExact a b / 2 ^ (addDist a b + 3) *
      2 ^ (((exp (larger a b)).toNat : ℤ) - f.bias - f.F)) := by
  have hnl : IsNormal (larger a b) := by unfold larger; split <;> assumption
  have hns : IsNormal (smaller a b) := by unfold smaller; split <;> assumption
  have hcomm : value a + value b = value (larger a b) + value (smaller a b) := by
    unfold larger smaller
    split
    · exact add_comm _ _
    · rfl
  have hsame : sign a = sign b ↔ sign (smaller a b) = sign (larger a b) := by
    unfold larger smaller
    split
    · rfl
    · exact eq_comm
  have hexp : ((exp (smaller a b)).toNat : ℤ) = (exp (larger a b)).toNat - addDist a b := by
    have := exp_smaller_le a b
    unfold addDist
    omega
  have hle : 8 * divSig (smaller a b) ≤ 8 * divSig (larger a b) * 2 ^ addDist a b := by
    rw [Nat.mul_assoc]
    exact Nat.mul_le_mul_left 8 (divSig_smaller_le a b)
  have hsl : sig (larger a b) = divSig (larger a b) := sig_of_normal hnl
  have hss : sig (smaller a b) = divSig (smaller a b) := sig_of_normal hns
  have hpow : (2 : ℝ) ^ (((exp (larger a b)).toNat : ℤ) - f.bias - f.F) =
      2 ^ addDist a b * 2 ^ (((exp (larger a b)).toNat : ℤ) - addDist a b - f.bias - f.F) := by
    rw [← zpow_natCast, ← zpow_add₀ two_ne_zero]
    congr 1
    ring
  rw [hcomm, value_of_normal hnl, value_of_normal hns, hsl, hss, hexp, hpow, addExact]
  split_ifs with h
  · rw [hsame.mp h]
    cases sign (larger a b) with
    | false =>
      simp only [signed_false]
      push_cast
      field_simp
      ring
    | true =>
      simp only [signed_true]
      push_cast
      field_simp
      ring
  · have hne : sign (smaller a b) = !sign (larger a b) :=
      Bool.eq_not_of_ne fun hc => h (hsame.mpr hc)
    rw [hne, Nat.cast_sub hle]
    cases sign (larger a b) with
    | false =>
      simp only [Bool.not_false, signed_false, signed_true]
      push_cast
      field_simp
      ring
    | true =>
      simp only [Bool.not_true, signed_false, signed_true]
      push_cast
      field_simp
      ring

/-- The exact sum as a normalised significand in the unit `2 ^ k` of its binade. -/
theorem normalised_sum {k : ℕ} (h2 : 2 ≤ k) (hlo : 2 ^ (f.F + k) ≤ addSum a b (addLost a b))
    (hhi : addSum a b (addLost a b) < 2 ^ (f.F + k + 1)) :
    f.Normalised (addExact a b) (2 ^ k * 2 ^ addDist a b) ∧
      nearestEven (addExact a b) (2 ^ k * 2 ^ addDist a b) =
        nearestEven (addSum a b (addLost a b)) (2 ^ k) := by
  have hj := jams_addSum a b
  have hP := Nat.two_pow_pos (addDist a b)
  have heven : ∀ n, 2 ≤ n → 2 ^ n % 2 = 0 := fun n hn => by
    rw [show n = n - 1 + 1 by omega, pow_succ, Nat.mul_mod_left]
  have h4 : 4 ∣ 2 ^ k := by
    rw [show k = 2 + (k - 2) by omega, pow_add]
    exact Dvd.intro _ rfl
  refine ⟨⟨Nat.mul_pos (Nat.two_pow_pos k) hP, ?_, ?_⟩,
    hj.nearestEven_mul hP (Nat.two_pow_pos k) h4⟩
  · rw [← Nat.mul_assoc, ← pow_add, hj.le_iff hP (heven _ (by omega))]
    exact hlo
  · rw [← Nat.mul_assoc, ← pow_add, show f.F + 1 + k = f.F + k + 1 by omega, ← not_le,
      hj.le_iff hP (heven _ (by omega)), not_le]
    exact hhi

/-- The exact sum in the unit `2 ^ k` of its binade. -/
theorem value_unit (ha : IsNormal a) (hb : IsNormal b)
    (hx : f.RoundsToNormal (value a + value b)) {k : ℕ} (h2 : 2 ≤ k)
    (hlo : 2 ^ (f.F + k) ≤ addSum a b (addLost a b))
    (hhi : addSum a b (addLost a b) < 2 ^ (f.F + k + 1)) :
    1 ≤ (exp (larger a b)).toNat + k - 3 ∧
      value a + value b = signed (sign (larger a b)) (addExact a b /
        (2 ^ k * 2 ^ addDist a b : ℕ) *
          2 ^ (((exp (larger a b)).toNat + k - 3 : ℕ) - (f.bias : ℤ) - f.F)) := by
  obtain ⟨hn, -⟩ := normalised_sum h2 hlo hhi
  have hnl : IsNormal (larger a b) := by unfold larger; split <;> assumption
  have hns : IsNormal (smaller a b) := by unfold smaller; split <;> assumption
  have hpl := exp_pos_of_normal hnl
  have hps := exp_pos_of_normal hns
  generalize he : (exp (larger a b)).toNat + k - 3 = e
  have hval : value a + value b = signed (sign (larger a b)) (addExact a b /
      (2 ^ k * 2 ^ addDist a b : ℕ) * 2 ^ ((e : ℤ) - f.bias - f.F)) := by
    have hpow : (2 : ℝ) ^ ((e : ℤ) - f.bias - f.F) * 2 ^ 3 =
        2 ^ k * 2 ^ (((exp (larger a b)).toNat : ℤ) - f.bias - f.F) := by
      rw [← zpow_natCast, ← zpow_natCast, ← zpow_add₀ two_ne_zero, ← zpow_add₀ two_ne_zero]
      congr 1
      push_cast
      omega
    rw [value_add ha hb]
    congr 1
    push_cast
    rw [div_mul_eq_mul_div, div_mul_eq_mul_div, div_eq_div_iff (by positivity) (by positivity)]
    linear_combination (-(addExact a b : ℝ) * 2 ^ addDist a b) * hpow
  refine ⟨Nat.pos_of_ne_zero fun h0 => ?_, hval⟩
  -- an exponent of zero needs one cancelled place between numbers of the smallest exponent
  have hd : addDist a b = 0 := by unfold addDist; omega
  have hk : k = 2 := by omega
  rw [hval, roundsToNormal_signed] at hx
  obtain ⟨-, -, htop, -⟩ := hn.range hx
  have htop := htop (by rw [h0]; rfl)
  have hlt := hn.lt
  have h8 : addExact a b % 8 = 0 := by
    unfold addExact
    rw [hd, pow_zero, Nat.mul_one]
    split_ifs <;> omega
  rw [hd, hk] at htop hlt
  omega

/-- Only one word is the rounded sum. -/
theorem sum_inj (ha : IsNormal a) (hb : IsNormal b) (hx : f.RoundsToNormal (value a + value b))
    {k : ℕ} (h2 : 2 ≤ k) (hlo : 2 ^ (f.F + k) ≤ addSum a b (addLost a b))
    (hhi : addSum a b (addLost a b) < 2 ^ (f.F + k + 1)) {y z : BitVec f.W}
    (hy : RoundsTo (value a + value b) y) (hz : RoundsTo (value a + value b) z) :
    IsNormal y ∧ y = z := by
  obtain ⟨hn, -⟩ := normalised_sum h2 hlo hhi
  obtain ⟨hpos, hval⟩ := value_unit ha hb hx h2 hlo hhi
  obtain ⟨w, hw, hrw⟩ := hx
  rw [hval] at hy hz hrw
  obtain rfl := hn.roundsTo_inj hpos hw hrw hy
  exact ⟨hw, (hn.roundsTo_inj hpos hw hrw hz).symm⟩

/-- A word with the exponent of the exact sum's binade is the rounded sum just when its significand
is the rounded one. -/
theorem roundsTo_binade (ha : IsNormal a) (hb : IsNormal b)
    (hx : f.RoundsToNormal (value a + value b)) {k c : ℕ} (h2 : 2 ≤ k)
    (hlo : 2 ^ (f.F + k) ≤ addSum a b (addLost a b))
    (hhi : addSum a b (addLost a b) < 2 ^ (f.F + k + 1)) (hclo : 2 ^ f.F ≤ c)
    (hchi : c ≤ 2 ^ (f.F + 1)) :
    RoundsTo (value a + value b) (encode f (sign (larger a b))
        ((exp (larger a b)).toNat + k - 3 + c / 2 ^ (f.F + 1)) c) ↔
      c = nearestEven (addSum a b (addLost a b)) (2 ^ k) := by
  obtain ⟨hn, hnear⟩ := normalised_sum h2 hlo hhi
  obtain ⟨hpos, hval⟩ := value_unit ha hb hx h2 hlo hhi
  rw [hval] at hx ⊢
  rw [hn.roundsTo_encode hx hclo hchi, ← hnear, if_neg (by omega)]

/-- The same for a sum that may have reached the next binade. -/
theorem roundsTo_unit (ha : IsNormal a) (hb : IsNormal b)
    (hx : f.RoundsToNormal (value a + value b)) {k c : ℕ} (h2 : 2 ≤ k)
    (hlo : 2 ^ (f.F + k) ≤ addSum a b (addLost a b))
    (hhi : addSum a b (addLost a b) ≤ 2 ^ (f.F + k + 1)) (hclo : 2 ^ f.F ≤ c)
    (hchi : c ≤ 2 ^ (f.F + 1)) :
    RoundsTo (value a + value b) (encode f (sign (larger a b))
        ((exp (larger a b)).toNat + k - 3 + c / 2 ^ (f.F + 1)) c) ↔
      c = nearestEven (addSum a b (addLost a b)) (2 ^ k) := by
  rcases Nat.lt_or_eq_of_le hhi with hlt | heq
  · exact roundsTo_binade ha hb hx h2 hlo hlt hclo hchi
  · have hnl : IsNormal (larger a b) := by unfold larger; split <;> assumption
    have hpl := exp_pos_of_normal hnl
    have hpow : 2 ^ f.F < 2 ^ (f.F + 1) := Nat.pow_lt_pow_right (by decide) (Nat.lt_succ_self _)
    have hlo' : 2 ^ (f.F + (k + 1)) ≤ addSum a b (addLost a b) := heq.ge
    have hhi' : addSum a b (addLost a b) < 2 ^ (f.F + (k + 1) + 1) := by
      rw [heq]
      exact Nat.pow_lt_pow_right (by decide) (by omega)
    have hne : nearestEven (addSum a b (addLost a b)) (2 ^ k) = 2 ^ (f.F + 1) := by
      rw [heq, show f.F + k + 1 = f.F + 1 + k by omega, pow_add]
      exact nearestEven_mul _ (Nat.two_pow_pos k)
    have hne' : nearestEven (addSum a b (addLost a b)) (2 ^ (k + 1)) = 2 ^ f.F := by
      rw [heq, show f.F + k + 1 = f.F + (k + 1) by omega, pow_add]
      exact nearestEven_mul _ (Nat.two_pow_pos _)
    have htop := (roundsTo_binade ha hb hx (by omega) hlo' hhi' le_rfl hpow.le).mpr hne'.symm
    rw [Nat.div_eq_of_lt hpow, Nat.add_zero] at htop
    rw [hne]
    constructor
    · intro hr
      by_contra hc
      have hlt : c < 2 ^ (f.F + 1) := lt_of_le_of_ne hchi hc
      obtain ⟨-, hword⟩ := sum_inj ha hb hx (by omega) hlo' hhi' hr htop
      rw [Nat.div_eq_of_lt hlt, Nat.add_zero] at hword
      have he := congrArg (fun x => (exp x).toNat) hword
      simp only [encode, exp_pack, BitVec.toNat_ofNat] at he
      have h4 : 2 ^ 2 ≤ 2 ^ f.E := Nat.pow_le_pow_right (by decide) f.two_le_E
      have hsucc : (exp (larger a b)).toNat + (k + 1) - 3 =
        (exp (larger a b)).toNat + k - 3 + 1 := by omega
      rw [hsucc] at he
      have hdvd := (Nat.modEq_iff_dvd' (Nat.le_succ _)).mp he
      rw [Nat.succ_sub le_rfl, Nat.sub_self] at hdvd
      have := Nat.le_of_dvd Nat.one_pos hdvd
      omega
    · rintro rfl
      rw [Nat.div_self (Nat.two_pow_pos _), encode_two_pow]
      exact (show (exp (larger a b)).toNat + k - 3 + 1 =
        (exp (larger a b)).toNat + (k + 1) - 3 by omega) ▸ htop

/-! ## The word -/

/-- The rounded significand of the sum, with the carry. -/
def sumKept (o : FpAddOpen f) (a b : BitVec f.W) : ℕ :=
  (norm1 o (add (alignSum o a b) (alignExp a b))).kept

/-- The distance that the sum is shifted by. -/
def sumShift (o : FpAddOpen f) (a b : BitVec f.W) : ℕ := shift o (alignSum o a b)

/-- The word of a sum that is not zero. -/
def sumWord (o : FpAddOpen f) (a b : BitVec f.W) : BitVec f.W :=
  pack (alignSign o a b) ((rounded o a b).2.setWidth f.E) ((rounded o a b).1.extractLsb' 0 f.F)

theorem isZero_iff {x : BitVec f.W} : isZero x = true ↔ IsZero x := by
  rw [isZero, Bool.and_eq_true, beq_iff_eq, beq_iff_eq, IsZero]

/-- The result by cases. -/
theorem fpAdd_cases (o : FpAddOpen f) (a b : BitVec f.W) : fpAdd o a b =
    if sign a ≠ sign b ∧ sumKept o a b = 0 then 0
    else if IsZero a then b else if IsZero b then a else sumWord o a b := by
  obtain ⟨-, -, hzero⟩ := round_spec (norm1 o (add (alignSum o a b) (alignExp a b)))
  have hcond : ((sign a ^^ sign b) && (rounded o a b).1 == 0) = true ↔
      sign a ≠ sign b ∧ sumKept o a b = 0 := by
    rw [Bool.and_eq_true, bne_iff_ne.symm, beq_iff_eq, rounded, hzero]
    rfl
  rw [fpAdd]
  simp only [hcond, isZero_iff]
  rfl

/-- The result for operands other than zero. -/
theorem fpAdd_eq (ha : IsNormal a) (hb : IsNormal b) : fpAdd o a b =
    if sign a ≠ sign b ∧ sumKept o a b = 0 then 0 else sumWord o a b := by
  rw [fpAdd_cases, if_neg fun h => not_isNormal_of_zero h ha,
    if_neg fun h => not_isNormal_of_zero h hb]

theorem ofNat_sub {w m n : ℕ} (h : n ≤ m) :
    BitVec.ofNat w m - BitVec.ofNat w n = BitVec.ofNat w (m - n) := by
  rw [sub_eq_iff_eq_add, ← BitVec.ofNat_add, Nat.sub_add_cancel h]

/-- A stage that has been rounded, as a word with the sign of the larger operand. -/
theorem sumWord_eq {e : ℕ} (hX : addSum a b (addOr o a b) ≠ 0)
    (he : (norm1 o (add (alignSum o a b) (alignExp a b))).exp = BitVec.ofNat _ e) :
    sumWord o a b = encode f (sign (larger a b))
      (e + sumKept o a b / 2 ^ (f.F + 1)) (sumKept o a b) := by
  obtain ⟨hsum, -, hsign⟩ := align_spec (o := o) (a := a) (b := b)
  rw [sumWord, hsign (by rwa [hsum]), rounded, pack_round he, sumKept]

theorem alignExp_eq (a b : BitVec f.W) :
    alignExp a b = BitVec.ofNat _ (exp (larger a b)).toNat := by
  rw [(align_spec (o := ⟨none, fun _ => false⟩)).2.1]
  exact BitVec.eq_of_toNat_eq (by simp)

theorem alignExp_ne_zero (hpos : 0 < (exp (larger a b)).toNat) : alignExp a b ≠ 0 := by
  rw [alignExp_eq]
  intro hc
  have hc := congrArg BitVec.toNat hc
  have hlt := (exp (larger a b)).isLt
  have hE : 2 ^ (f.E + 1) = 2 * 2 ^ f.E := pow_succ' _ _
  rw [BitVec.toNat_ofNat, Nat.mod_eq_of_lt (by omega)] at hc
  simp at hc
  omega

/-- The word of a sum in the unit `2 ^ k`. -/
theorem sumWord_unit (hpos : 0 < (exp (larger a b)).toNat) {k : ℕ} (h2 : 2 ≤ k) (h4 : k ≤ 4)
    (hd : k = 2 → sumShift o a b = 1)
    (hlo : k ≠ 2 → 2 ^ (f.F + k) ≤ addSum a b (addOr o a b))
    (hhi : addSum a b (addOr o a b) < 2 ^ (f.F + k + 1)) (hX : addSum a b (addOr o a b) ≠ 0) :
    sumKept o a b = nearestEven (addSum a b (addOr o a b)) (2 ^ k) ∧
      sumWord o a b = encode f (sign (larger a b)) ((exp (larger a b)).toNat + k - 3 +
        nearestEven (addSum a b (addOr o a b)) (2 ^ k) / 2 ^ (f.F + 1))
          (nearestEven (addSum a b (addOr o a b)) (2 ^ k)) := by
  have hsum : (alignSum o a b).toNat = addSum a b (addOr o a b) := align_spec.1
  have hexp := alignExp_eq a b
  have key : sumKept o a b = nearestEven (addSum a b (addOr o a b)) (2 ^ k) ∧
      (norm1 o (add (alignSum o a b) (alignExp a b))).exp =
        BitVec.ofNat _ ((exp (larger a b)).toNat + k - 3) := by
    rw [← hsum] at hlo hhi ⊢
    obtain rfl | rfl | rfl : k = 4 ∨ k = 3 ∨ k = 2 := by omega
    · obtain ⟨hk, he⟩ := norm1_carry (o := o) (e := alignExp a b) (hlo (by decide))
      refine ⟨hk, ?_⟩
      rw [he, hexp]
      exact (BitVec.ofNat_add _ _).symm
    · obtain ⟨hk, he⟩ := norm1_flat (o := o) (e := alignExp a b) (hlo (by decide)) hhi
      exact ⟨hk, by rw [he, hexp]; rfl⟩
    · obtain ⟨hk, he⟩ := norm1_one (o := o) hhi (alignExp_ne_zero hpos) (hd rfl)
      refine ⟨hk, ?_⟩
      rw [he, hexp]
      exact ofNat_sub hpos
  refine ⟨key.1, ?_⟩
  rw [sumWord_eq hX key.2, key.1]

theorem shift_le (o : FpAddOpen f) (sum : BitVec (f.F + 5)) : shift o sum ≤ f.F := by
  unfold shift zeroDetector
  simp only
  split_ifs with h
  · exact (BitVec.toNat_ofNat _ _).le.trans (Nat.mod_le _ _)
  · exact (BitVec.toNat_setWidth _ _).le.trans ((Nat.mod_le _ _).trans (not_le.mp h).le)

/-- The significand of a sum that is shifted, by the distance. -/
theorem sumKept_low (hE : f.F < 2 ^ f.E) (hpos : 0 < (exp (larger a b)).toNat)
    (hlow : addSum a b (addOr o a b) < 2 ^ (f.F + 3)) :
    (sumShift o a b = 0 → sumKept o a b = 0) ∧
      (sumShift o a b = 1 → sumKept o a b = nearestEven (addSum a b (addOr o a b)) 4) ∧
      (2 ≤ sumShift o a b → sumKept o a b =
        addSum a b (addOr o a b) / 2 * 2 ^ (sumShift o a b - 2) % 2 ^ (f.F + 1)) := by
  have hsum : (alignSum o a b).toNat = addSum a b (addOr o a b) := align_spec.1
  have he := alignExp_ne_zero hpos
  rw [← hsum] at hlow ⊢
  exact ⟨norm1_none hE hlow he, fun hd => (norm1_one hlow he hd).1,
    fun h2 => (norm1_more hE h2 (shift_le o _) hlow he rfl).1⟩

/-- The word of a sum that is shifted without a carry, and its exponent. -/
theorem sumWord_low (hE : f.F < 2 ^ f.E) (hpos : 0 < (exp (larger a b)).toNat)
    (hX : addSum a b (addOr o a b) ≠ 0) (hlow : addSum a b (addOr o a b) < 2 ^ (f.F + 3))
    (h1 : 1 ≤ sumShift o a b) (hk : sumKept o a b < 2 ^ (f.F + 1)) :
    sumWord o a b = encode f (sign (larger a b))
      ((exp (larger a b)).toNat + 2 ^ (f.E + 1) - sumShift o a b) (sumKept o a b) := by
  have hsum : (alignSum o a b).toNat = addSum a b (addOr o a b) := align_spec.1
  have hle := shift_le o (alignSum o a b)
  have hE1 : 2 ^ (f.E + 1) = 2 * 2 ^ f.E := pow_succ' _ _
  have he : (norm1 o (add (alignSum o a b) (alignExp a b))).exp =
      BitVec.ofNat _ ((exp (larger a b)).toNat + 2 ^ (f.E + 1) - sumShift o a b) := by
    have hexp : (norm1 o (add (alignSum o a b) (alignExp a b))).exp =
        alignExp a b - BitVec.ofNat _ (sumShift o a b) := by
      rw [← hsum] at hlow
      rcases Nat.lt_or_eq_of_le h1 with h2 | h1
      · exact (norm1_more hE h2 hle hlow (alignExp_ne_zero hpos) rfl).2
      · rw [← h1]
        exact (norm1_one hlow (alignExp_ne_zero hpos) h1.symm).2
    have hle' : sumShift o a b ≤ f.F := hle
    rw [hexp, alignExp_eq, sub_eq_iff_eq_add, ← BitVec.ofNat_add,
      Nat.sub_add_cancel (by omega)]
    refine BitVec.eq_of_toNat_eq ?_
    rw [BitVec.toNat_ofNat, BitVec.toNat_ofNat, Nat.add_mod_right]
  rw [sumWord_eq hX he, Nat.div_eq_of_lt hk, Nat.add_zero]

/-- A word that is shifted by another distance has another exponent. -/
theorem sumWord_ne (hE : f.F < 2 ^ f.E) (hpos : 0 < (exp (larger a b)).toNat)
    (hX : addSum a b (addOr o a b) ≠ 0) (hlow : addSum a b (addOr o a b) < 2 ^ (f.F + 3))
    (h1 : 1 ≤ sumShift o a b) (hk : sumKept o a b < 2 ^ (f.F + 1)) {t S : ℕ}
    (ht : t ≤ (exp (larger a b)).toNat) (hne : sumShift o a b ≠ t) :
    sumWord o a b ≠ encode f (sign (larger a b)) ((exp (larger a b)).toNat - t) S := by
  intro hc
  have hlt := (exp (larger a b)).isLt
  have hle : sumShift o a b ≤ f.F := shift_le o (alignSum o a b)
  have hE1 : 2 ^ (f.E + 1) = 2 * 2 ^ f.E := pow_succ' _ _
  rw [sumWord_low hE hpos hX hlow h1 hk] at hc
  have hc := congrArg (fun x => (exp x).toNat) hc
  simp only [encode, exp_pack, BitVec.toNat_ofNat] at hc
  rw [Nat.mod_eq_of_lt (a := (exp (larger a b)).toNat - t) (by omega)] at hc
  generalize 2 ^ f.E = p at *
  rw [hE1] at hc
  by_cases hge : sumShift o a b ≤ (exp (larger a b)).toNat
  · rw [show (exp (larger a b)).toNat + 2 * p - sumShift o a b =
      (exp (larger a b)).toNat - sumShift o a b + p * 2 by omega, Nat.add_mul_mod_self_left,
      Nat.mod_eq_of_lt (by omega)] at hc
    omega
  · rw [show (exp (larger a b)).toNat + 2 * p - sumShift o a b =
      (exp (larger a b)).toNat + p - sumShift o a b + p * 1 by omega, Nat.add_mul_mod_self_left,
      Nat.mod_eq_of_lt (by omega)] at hc
    omega

/-- The same for a distance that the exponent has. -/
theorem sumWord_low_of_le (hE : f.F < 2 ^ f.E) (hpos : 0 < (exp (larger a b)).toNat)
    (hX : addSum a b (addOr o a b) ≠ 0) (hlow : addSum a b (addOr o a b) < 2 ^ (f.F + 3))
    (h1 : 1 ≤ sumShift o a b) (hk : sumKept o a b < 2 ^ (f.F + 1))
    (hle : sumShift o a b ≤ (exp (larger a b)).toNat) :
    sumWord o a b = encode f (sign (larger a b))
      ((exp (larger a b)).toNat - sumShift o a b) (sumKept o a b) := by
  rw [sumWord_low hE hpos hX hlow h1 hk]
  refine ext_fields (by simp [encode]) (BitVec.eq_of_toNat_eq ?_) (by simp [encode])
  simp only [encode, exp_pack, BitVec.toNat_ofNat]
  rw [show (exp (larger a b)).toNat + 2 ^ (f.E + 1) - sumShift o a b =
    (exp (larger a b)).toNat - sumShift o a b + 2 ^ (f.E + 1) by omega, pow_succ,
    Nat.add_mul_mod_self_left]

/-! ## Differences that lose two places or more -/

theorem log2_div_eight (n : ℕ) : Nat.log2 (n / 8) = Nat.log2 n - 3 := by
  rw [Nat.log2_eq_log_two, Nat.log2_eq_log_two]
  exact Nat.log_div_base_pow 2 n 3

/-- A small difference is the value of a normal word. -/
theorem value_small (ha : IsNormal a) (hb : IsNormal b)
    (hx : f.RoundsToNormal (value a + value b)) {Y D : ℕ}
    (hN : addExact a b = Y * 2 ^ addDist a b) (h4 : Y % 4 = 0) (hpos : 0 < Y)
    (hle : Y ≤ 2 ^ (f.F + 2)) (hD : D + Nat.log2 Y = f.F + 3) :
    1 ≤ D ∧ D < (exp (larger a b)).toNat ∧ Y / 4 * 2 ^ (D - 1) < 2 ^ (f.F + 1) ∧
      IsNormal (encode f (sign (larger a b)) ((exp (larger a b)).toNat - D)
        (Y / 4 * 2 ^ (D - 1))) ∧
      value a + value b = value (encode f (sign (larger a b)) ((exp (larger a b)).toNat - D)
        (Y / 4 * 2 ^ (D - 1))) := by
  have hF := f.four_le_F
  have hlo := Nat.log2_self_le hpos.ne'
  have hhi := Nat.lt_log2_self (n := Y)
  have hlogle : Nat.log2 Y ≤ f.F + 2 := by
    have := (Nat.log2_lt hpos.ne').mpr (hle.trans_lt (Nat.pow_lt_pow_right (by decide)
      (Nat.lt_succ_self (f.F + 2))))
    omega
  have h1 : 1 ≤ D := by omega
  have hlogge : 2 ≤ Nat.log2 Y := (Nat.le_log2 hpos.ne').mpr (by omega)
  have hc : ∀ j, 2 ≤ j → 2 ^ j = 4 * 2 ^ (j - 2) := fun j hj => by
    rw [show j = j - 2 + 2 by omega, pow_add, Nat.mul_comm]
    rfl
  rw [hc _ hlogge] at hlo
  rw [hc _ (by omega), show Nat.log2 Y + 1 - 2 = Nat.log2 Y - 2 + 1 by omega] at hhi
  have hclo : 2 ^ f.F ≤ Y / 4 * 2 ^ (D - 1) := by
    rw [show f.F = Nat.log2 Y - 2 + (D - 1) by omega, pow_add]
    exact Nat.mul_le_mul_right _ (by omega)
  have hchi : Y / 4 * 2 ^ (D - 1) < 2 ^ (f.F + 1) := by
    rw [show f.F + 1 = Nat.log2 Y - 2 + 1 + (D - 1) by omega, pow_add]
    exact Nat.mul_lt_mul_of_pos_right (by omega) (Nat.two_pow_pos _)
  generalize hcdef : Y / 4 * 2 ^ (D - 1) = c at *
  have hval : value a + value b = signed (sign (larger a b)) ((c : ℝ) / (1 : ℕ) *
      2 ^ ((((exp (larger a b)).toNat : ℤ) - D) - f.bias - f.F)) := by
    have hpow : (2 : ℝ) ^ (((exp (larger a b)).toNat : ℤ) - f.bias - f.F) =
        2 * 2 ^ (D - 1) * 2 ^ ((((exp (larger a b)).toNat : ℤ) - D) - f.bias - f.F) := by
      rw [← pow_succ', Nat.sub_add_cancel h1, ← zpow_natCast, ← zpow_add₀ two_ne_zero]
      congr 1
      ring
    have hY : (Y : ℝ) = 4 * (Y / 4 : ℕ) := by exact_mod_cast (by omega : Y = 4 * (Y / 4))
    rw [value_add ha hb, hN, hpow, ← hcdef]
    congr 1
    push_cast [hY]
    rw [pow_add]
    field_simp
    ring
  have hn : f.Normalised c 1 := ⟨by decide, by omega, by omega⟩
  rw [hval, roundsToNormal_signed] at hx
  obtain ⟨hge, hub, htop, -⟩ := hn.range hx
  have hne : ((exp (larger a b)).toNat : ℤ) - D ≠ 0 := by
    intro h0
    have htop := htop h0
    have hpow : 2 ^ (f.F + 1) = 2 * 2 ^ f.F := pow_succ' _ _
    have h16 := f.sixteen_le
    rcases Nat.lt_or_eq_of_le h1 with h | rfl
    · have heven : c % 2 = 0 := by
        rw [← hcdef, show D - 1 = D - 2 + 1 by omega, pow_succ, ← Nat.mul_assoc, Nat.mul_mod_left]
      omega
    · rw [Nat.sub_self, pow_zero, Nat.mul_one] at hcdef
      have h2 : 2 ^ (f.F + 2) = 4 * 2 ^ f.F := hc _ (by omega)
      omega
  have hlt : D < (exp (larger a b)).toNat := by omega
  have hnorm := isNormal_encode (f := f) (s := sign (larger a b)) (S := c)
    (by omega : 1 ≤ (exp (larger a b)).toNat - D) (by omega)
  refine ⟨h1, hlt, hchi, hnorm, ?_⟩
  rw [hval, value_encode (by omega) (by omega) hclo hchi, Nat.cast_one, div_one,
    Nat.cast_sub hlt.le]

theorem sumKept_lt (hE : f.F < 2 ^ f.E) (hpos : 0 < (exp (larger a b)).toNat)
    (hlow : addSum a b (addOr o a b) < 2 ^ (f.F + 2)) : sumKept o a b < 2 ^ (f.F + 1) := by
  have h2 : 2 ^ (f.F + 2) = 4 * 2 ^ f.F := by rw [pow_add, Nat.mul_comm]; rfl
  have h1 : 2 ^ (f.F + 1) = 2 * 2 ^ f.F := pow_succ' _ _
  have h3 : 2 ^ (f.F + 3) = 2 * 2 ^ (f.F + 2) := pow_succ' _ _
  have hp := Nat.two_pow_pos f.F
  obtain ⟨hzero, hone, hmore⟩ := sumKept_low (o := o) hE hpos (by omega)
  obtain h | h | h : sumShift o a b = 0 ∨ sumShift o a b = 1 ∨ 2 ≤ sumShift o a b := by omega
  · rw [hzero h]
    omega
  · have := nearestEven_le (addSum a b (addOr o a b)) 4
    rw [hone h]
    omega
  · rw [hmore h]
    exact Nat.mod_lt _ (Nat.two_pow_pos _)

/-- A small difference is right when its last bit is and it is shifted to the top. -/
theorem roundsTo_small (hE : f.F < 2 ^ f.E) (ha : IsNormal a) (hb : IsNormal b)
    (hx : f.RoundsToNormal (value a + value b)) (hs : sign a ≠ sign b) {Y D : ℕ}
    (hN : addExact a b = Y * 2 ^ addDist a b) (h4 : Y % 4 = 0) (hpos : 0 < Y)
    (hY : Y < 2 ^ (f.F + 2)) (hX : addSum a b (addOr o a b) = Y ∨ addSum a b (addOr o a b) + 1 = Y)
    (hD : D + Nat.log2 Y = f.F + 3) :
    RoundsTo (value a + value b) (fpAdd o a b) ↔
      addSum a b (addOr o a b) = Y ∧ sumShift o a b = D := by
  obtain ⟨h1, hlt, hchi, hnorm, hval⟩ := value_small ha hb hx hN h4 hpos hY.le hD
  have hF := f.four_le_F
  have h3 : 2 ^ (f.F + 3) = 2 * 2 ^ (f.F + 2) := pow_succ' _ _
  have hlog : Nat.log2 Y < f.F + 2 := (Nat.log2_lt hpos.ne').mpr hY
  have hepos : 0 < (exp (larger a b)).toNat := by omega
  have hlow : addSum a b (addOr o a b) < 2 ^ (f.F + 3) := by omega
  have hX0 : addSum a b (addOr o a b) ≠ 0 := by omega
  have hk := sumKept_lt (o := o) hE hepos (by omega : addSum a b (addOr o a b) < 2 ^ (f.F + 2))
  obtain ⟨hkzero, -, hkmore⟩ := sumKept_low (o := o) hE hepos hlow
  have hpow : 2 ^ (D - 1) = 2 * 2 ^ (D - 2) := by
    rw [← pow_succ']
    congr 1
    omega
  have hc : Y / 4 * 2 ^ (D - 1) = Y / 2 * 2 ^ (D - 2) := by
    rw [hpow, ← Nat.mul_assoc]
    congr 1
    omega
  rw [hval, roundsTo_value_iff hnorm, fpAdd_eq ha hb]
  by_cases hδ : sumShift o a b = D
  · have hle : sumShift o a b ≤ f.F := shift_le o (alignSum o a b)
    have hp := Nat.two_pow_pos (D - 2)
    have hkept : sumKept o a b = addSum a b (addOr o a b) / 2 * 2 ^ (D - 2) := by
      have hmul := Nat.mul_le_mul_right (2 ^ (D - 2)) (by omega :
        addSum a b (addOr o a b) / 2 ≤ Y / 2)
      rw [hkmore (by omega), hδ, Nat.mod_eq_of_lt (by omega)]
    have hk0 : ¬(sign a ≠ sign b ∧ sumKept o a b = 0) := fun h => by
      have := Nat.mul_pos (by omega : 0 < addSum a b (addOr o a b) / 2) hp
      omega
    rw [if_neg hk0, sumWord_low_of_le hE hepos hX0 hlow (by omega) hk (by omega), hδ,
      and_iff_left rfl]
    refine ⟨fun hw => hX.resolve_right fun hX => ?_, fun hX => by rw [hkept, hX, hc]⟩
    -- a last bit that is wrong leaves a fraction that differs by less than its width
    have hm := congrArg frac hw
    have hm := congrArg BitVec.toNat hm
    simp only [encode, frac_pack, BitVec.toNat_ofNat] at hm
    have hlo : sumKept o a b + 2 ^ (D - 2) = Y / 4 * 2 ^ (D - 1) := by
      rw [hkept, hc, ← Nat.succ_mul]
      congr 1
      omega
    have hdvd := (Nat.modEq_iff_dvd' (by omega)).mp hm
    rw [← hlo, Nat.add_sub_cancel_left] at hdvd
    have hge := Nat.le_of_dvd hp hdvd
    have hlt := Nat.pow_lt_pow_right (a := 2) (by decide) (by omega : D - 2 < f.F)
    omega
  · refine iff_of_false ?_ fun h => hδ h.2
    split_ifs with h0
    · exact fun hw => not_isNormal_of_zero isZero_zero (hw ▸ hnorm)
    · have hδ1 : 1 ≤ sumShift o a b := Nat.pos_of_ne_zero fun h => h0 ⟨hs, hkzero h⟩
      exact sumWord_ne hE hepos hX0 hlow hδ1 hk hlt.le hδ

/-! ## Sums that lose at most one place -/

/-- The result in the unit `2 ^ k`. -/
theorem fpAdd_binade (ha : IsNormal a) (hb : IsNormal b) {k : ℕ} (h2 : 2 ≤ k) (h4 : k ≤ 4)
    (hd : k = 2 → sumShift o a b = 1) (hlo : 2 ^ (f.F + k) ≤ addSum a b (addOr o a b) + 1)
    (hlo' : k ≠ 2 → 2 ^ (f.F + k) ≤ addSum a b (addOr o a b))
    (hhi : addSum a b (addOr o a b) < 2 ^ (f.F + k + 1)) :
    2 ^ f.F ≤ nearestEven (addSum a b (addOr o a b)) (2 ^ k) ∧
      fpAdd o a b = encode f (sign (larger a b)) ((exp (larger a b)).toNat + k - 3 +
        nearestEven (addSum a b (addOr o a b)) (2 ^ k) / 2 ^ (f.F + 1))
          (nearestEven (addSum a b (addOr o a b)) (2 ^ k)) := by
  have hnl : IsNormal (larger a b) := by unfold larger; split <;> assumption
  have h16 := f.sixteen_le
  have hF2 : 2 ^ (f.F + 2) = 4 * 2 ^ f.F := by rw [pow_add, Nat.mul_comm]; rfl
  have hmono := Nat.pow_le_pow_right (n := 2) (by decide) (by omega : f.F + 2 ≤ f.F + k)
  obtain ⟨hkept, hword⟩ :=
    sumWord_unit (o := o) (exp_pos_of_normal hnl) h2 h4 hd hlo' hhi (by omega)
  have hge : 2 ^ f.F ≤ nearestEven (addSum a b (addOr o a b)) (2 ^ k) := by
    by_cases hk : k = 2
    · subst hk
      unfold nearestEven
      split_ifs <;> omega
    · exact le_nearestEven_of_mul_le (Nat.two_pow_pos k) (by rw [← pow_add]; exact hlo' hk)
  exact ⟨hge, by rw [fpAdd_eq ha hb, if_neg (by omega), hword]⟩

/-- The same for a difference that may have kept its place. -/
theorem fpAdd_unit (ha : IsNormal a) (hb : IsNormal b) {k : ℕ} (h2 : 2 ≤ k) (h4 : k ≤ 4)
    (hd : k = 2 → addSum a b (addOr o a b) < 2 ^ (f.F + 3) → sumShift o a b = 1)
    (hlo : 2 ^ (f.F + k) ≤ addSum a b (addOr o a b) + 1)
    (hlo' : k ≠ 2 → 2 ^ (f.F + k) ≤ addSum a b (addOr o a b))
    (hhi : addSum a b (addOr o a b) < 2 ^ (f.F + k + 1) ∨
      k = 2 ∧ addSum a b (addOr o a b) = 2 ^ (f.F + 3)) :
    2 ^ f.F ≤ nearestEven (addSum a b (addOr o a b)) (2 ^ k) ∧
      nearestEven (addSum a b (addOr o a b)) (2 ^ k) ≤ 2 ^ (f.F + 1) ∧
      fpAdd o a b = encode f (sign (larger a b)) ((exp (larger a b)).toNat + k - 3 +
        nearestEven (addSum a b (addOr o a b)) (2 ^ k) / 2 ^ (f.F + 1))
          (nearestEven (addSum a b (addOr o a b)) (2 ^ k)) := by
  obtain hhi | ⟨rfl, heq⟩ := hhi
  · obtain ⟨hge, hword⟩ := fpAdd_binade ha hb h2 h4 (fun hk => hd hk (by
      subst hk
      exact hhi)) hlo hlo' hhi
    refine ⟨hge, nearestEven_le_of_lt_mul (Nat.two_pow_pos k) ?_, hword⟩
    rwa [← pow_add, show f.F + 1 + k = f.F + k + 1 by omega]
  · have hnl : IsNormal (larger a b) := by unfold larger; split <;> assumption
    have hpl := exp_pos_of_normal hnl
    have hpow : 2 ^ f.F < 2 ^ (f.F + 1) := Nat.pow_lt_pow_right (by decide) (Nat.lt_succ_self _)
    have h34 : 2 ^ (f.F + 3) < 2 ^ (f.F + 3 + 1) := Nat.pow_lt_pow_right (by decide) (by omega)
    obtain ⟨-, hword⟩ := fpAdd_binade (o := o) ha hb (k := 3) (by decide) (by decide)
      (fun h => absurd h (by decide)) (by omega) (fun _ => heq.ge) (by omega)
    have h8 : nearestEven (2 ^ (f.F + 3)) (2 ^ 3) = 2 ^ f.F := by
      rw [pow_add]
      exact nearestEven_mul _ (by decide)
    have h4 : nearestEven (2 ^ (f.F + 3)) (2 ^ 2) = 2 ^ (f.F + 1) := by
      rw [show f.F + 3 = f.F + 1 + 2 by omega, pow_add]
      exact nearestEven_mul _ (by decide)
    rw [heq, h8, Nat.div_eq_of_lt hpow] at hword
    rw [heq, h4, Nat.div_self (Nat.two_pow_pos _), encode_two_pow, hword]
    refine ⟨hpow.le, le_rfl, ?_⟩
    congr 1
    omega

/-- It is right when the last bit does not change the rounding. -/
theorem roundsTo_near (ha : IsNormal a) (hb : IsNormal b)
    (hx : f.RoundsToNormal (value a + value b)) {k : ℕ} (h2 : 2 ≤ k) (h4 : k ≤ 4)
    (hd : k = 2 → addSum a b (addOr o a b) < 2 ^ (f.F + 3) → sumShift o a b = 1)
    (hlo : 2 ^ (f.F + k) ≤ addSum a b (addOr o a b) + 1)
    (hlo' : k ≠ 2 → 2 ^ (f.F + k) ≤ addSum a b (addOr o a b))
    (hhi : addSum a b (addOr o a b) < 2 ^ (f.F + k + 1) ∨
      k = 2 ∧ addSum a b (addOr o a b) = 2 ^ (f.F + 3))
    (hlo'' : 2 ^ (f.F + k) ≤ addSum a b (addLost a b))
    (hhi' : addSum a b (addLost a b) ≤ 2 ^ (f.F + k + 1)) :
    RoundsTo (value a + value b) (fpAdd o a b) ↔
      nearestEven (addSum a b (addOr o a b)) (2 ^ k) =
        nearestEven (addSum a b (addLost a b)) (2 ^ k) := by
  obtain ⟨hge, hle, hword⟩ := fpAdd_unit ha hb h2 h4 hd hlo hlo' hhi
  rw [hword]
  exact roundsTo_unit ha hb hx h2 hlo'' hhi' hge hle

/-- A difference that loses one place is wrong when it is shifted by another distance. -/
theorem not_roundsTo_of_shift (hE : f.F < 2 ^ f.E) (ha : IsNormal a) (hb : IsNormal b)
    (hx : f.RoundsToNormal (value a + value b)) (hs : sign a ≠ sign b)
    (h0 : addSum a b (addOr o a b) ≠ 0) (hlow : addSum a b (addOr o a b) < 2 ^ (f.F + 3))
    (hd : sumShift o a b ≠ 1) (hlo : 2 ^ (f.F + 2) ≤ addSum a b (addLost a b))
    (hhi : addSum a b (addLost a b) ≤ 2 ^ (f.F + 3)) :
    ¬RoundsTo (value a + value b) (fpAdd o a b) := by
  intro hr
  have hnl : IsNormal (larger a b) := by unfold larger; split <;> assumption
  have hpl := exp_pos_of_normal hnl
  have h34 : 2 ^ (f.F + 3) < 2 ^ (f.F + 3 + 1) := Nat.pow_lt_pow_right (by decide) (by omega)
  have hge : 2 ^ f.F ≤ nearestEven (addSum a b (addLost a b)) (2 ^ 2) :=
    le_nearestEven_of_mul_le (by decide) (by rwa [← pow_add])
  have hle : nearestEven (addSum a b (addLost a b)) (2 ^ 2) ≤ 2 ^ (f.F + 1) := by
    rcases Nat.lt_or_eq_of_le hhi with hlt | heq
    · exact nearestEven_le_of_lt_mul (by decide) (by rwa [← pow_add])
    · rw [heq, show f.F + 3 = f.F + 1 + 2 by omega, pow_add]
      exact (nearestEven_mul _ (by decide)).le
  have hword := (roundsTo_unit ha hb hx (k := 2) le_rfl hlo hhi hge hle).mpr rfl
  obtain ⟨hnorm, heq⟩ : IsNormal (fpAdd o a b) ∧ fpAdd o a b = _ := by
    rcases Nat.lt_or_eq_of_le hhi with hlt | heq
    · exact sum_inj ha hb hx (k := 2) le_rfl hlo hlt hr hword
    · exact sum_inj ha hb hx (k := 3) (by decide) heq.ge (by omega) hr hword
  obtain ⟨hkzero, -, hkmore⟩ := sumKept_low (o := o) hE hpl hlow
  rw [fpAdd_eq ha hb] at hnorm heq
  split_ifs at hnorm heq with hk0
  · exact not_isNormal_of_zero isZero_zero hnorm
  · have h2 : 2 ≤ sumShift o a b := by
      have : sumShift o a b ≠ 0 := fun h => hk0 ⟨hs, hkzero h⟩
      omega
    have hklt : sumKept o a b < 2 ^ (f.F + 1) := by
      rw [hkmore h2]
      exact Nat.mod_lt _ (Nat.two_pow_pos _)
    generalize nearestEven (addSum a b (addLost a b)) (2 ^ 2) = c at heq hle
    have hc : c / 2 ^ (f.F + 1) ≤ 1 := Nat.div_le_of_le_mul (by omega)
    generalize c / 2 ^ (f.F + 1) = q at heq hc
    refine sumWord_ne hE hpl h0 hlow (by omega) hklt (t := 1 - q) (S := c) (by omega) (by omega)
      (heq.trans ?_)
    congr 1
    omega

/-! ## The last bit -/

/-- A last bit in a sum. -/
theorem addSum_same (hs : sign a = sign b) (s : Bool) : addSum a b s =
    addSum a b false + if s = true ∧ addCut a b % 2 = 0 then 1 else 0 := by
  simp only [addSum, if_pos hs, stick, Bool.false_eq_true, false_and, if_false]
  omega

/-- A last bit in a difference. -/
theorem addSum_diff (hs : sign a ≠ sign b) (s : Bool) : addSum a b s =
    addSum a b false - if s = true ∧ addCut a b % 2 = 0 then 1 else 0 := by
  simp only [addSum, if_neg hs, stick, Bool.false_eq_true, false_and, if_false]
  omega

theorem addCut_le (a b : BitVec f.W) : addCut a b ≤ 8 * divSig (larger a b) := by
  refine Nat.div_le_of_le_mul ?_
  rw [Nat.mul_left_comm, Nat.mul_comm (2 ^ addDist a b)]
  exact Nat.mul_le_mul_left 8 (divSig_smaller_le a b)

theorem addSum_mod_two (a b : BitVec f.W) : addSum a b false % 2 = addCut a b % 2 := by
  have hle := addCut_le a b
  simp only [addSum, stick, Bool.false_eq_true, false_and, if_false]
  split_ifs <;> omega

/-- A sum rounds alike with either last bit. -/
theorem nearestEven_same {k : ℕ} (h2 : 2 ≤ k) (hs : sign a = sign b)
    (hu : addUnit f (addSum a b false) = 2 ^ k) :
    nearestEven (addSum a b (addOr o a b)) (2 ^ k) =
      nearestEven (addSum a b (addLost a b)) (2 ^ k) ↔ AddSticks o a b := by
  have h4 : 4 ∣ 2 ^ k := pow_dvd_pow 2 h2
  have hmod := addSum_mod_two a b
  rw [addSum_same hs, addSum_same hs (addLost a b), AddSticks, if_pos hs, AddTie, hu]
  by_cases hc : addCut a b % 2 = 0
  · have hsucc := nearestEven_succ h4 (Nat.two_pow_pos k) (hmod.trans hc)
    cases addOr o a b <;> cases addLost a b <;> simp [hc, hsucc]
    rw [eq_comm, hsucc, not_and, Nat.mod_two_not_eq_zero]
  · simp [hc]
    omega

/-- A difference rounds alike with either last bit. -/
theorem nearestEven_diff {k : ℕ} (h2 : 2 ≤ k) (hs : sign a ≠ sign b)
    (hY : 2 ^ (f.F + 2) ≤ addSum a b false) (hu : addUnit f (addSum a b false) = 2 ^ k) :
    nearestEven (addSum a b (addOr o a b)) (2 ^ k) =
      nearestEven (addSum a b (addLost a b)) (2 ^ k) ↔ AddSticks o a b := by
  have h4 : 4 ∣ 2 ^ k := pow_dvd_pow 2 h2
  have hmod := addSum_mod_two a b
  have hpos : 0 < addSum a b false := (Nat.two_pow_pos _).trans_le hY
  rw [addSum_diff hs, addSum_diff hs (addLost a b), AddSticks, if_neg hs, AddTie, hu]
  by_cases hc : addCut a b % 2 = 0
  · have hpred := nearestEven_pred h4 (Nat.two_pow_pos k) (hmod.trans hc) hpos
    cases addOr o a b <;> cases addLost a b <;> simp [hc, hpred, hY]
    rw [eq_comm, hpred, not_and, Nat.mod_two_not_eq_one]
  · simp [hc]
    omega

/-! ## Sums and differences of normal numbers -/

theorem divSig_range (x : BitVec f.W) :
    2 ^ (f.F + 3) ≤ 8 * divSig x ∧ 8 * divSig x < 2 ^ (f.F + 4) := by
  have h1 := FpDivider.two_pow_le_divSig x
  have h2 := FpDivider.divSig_lt x
  have hpow : 2 ^ (f.F + 4) = 2 * 2 ^ (f.F + 3) := pow_succ' _ _
  have h3 : 2 ^ (f.F + 3) = 8 * 2 ^ f.F := by rw [pow_add, Nat.mul_comm]; rfl
  have h4 : 2 ^ (f.F + 1) = 2 * 2 ^ f.F := pow_succ' _ _
  omega

/-- A sum of operands of one sign is right just when the last bit does not change the rounding. -/
theorem roundsTo_same (ha : IsNormal a) (hb : IsNormal b)
    (hx : f.RoundsToNormal (value a + value b)) (hs : sign a = sign b) :
    RoundsTo (value a + value b) (fpAdd o a b) ↔ AddSticks o a b := by
  have hL := divSig_range (larger a b)
  have hcut := addCut_le a b
  have hmod := addSum_mod_two a b
  have hY : addSum a b false = 8 * divSig (larger a b) + addCut a b := by
    simp only [addSum, if_pos hs, stick, Bool.false_eq_true, false_and, if_false, Nat.add_zero]
  have hbit : ∀ s, addSum a b false ≤ addSum a b s ∧ addSum a b s ≤ addSum a b false + 1 ∧
      (addSum a b s ≠ addSum a b false → addSum a b false % 2 = 0) := by
    intro s
    rw [addSum_same hs s]
    split_ifs <;> omega
  have hX := hbit (addOr o a b)
  have hI := hbit (addLost a b)
  have h45 : 2 ^ (f.F + 4 + 1) = 2 * 2 ^ (f.F + 4) := pow_succ' _ _
  have h34 : 2 ^ (f.F + 4) = 2 * 2 ^ (f.F + 3) := pow_succ' _ _
  have heven : 2 ^ (f.F + 3) % 2 = 0 := by rw [pow_succ, Nat.mul_mod_left]
  obtain ⟨k, hk, hlo, hhi, hu⟩ : ∃ k, (k = 3 ∨ k = 4) ∧ 2 ^ (f.F + k) ≤ addSum a b false ∧
      addSum a b false + 2 ≤ 2 ^ (f.F + k + 1) + addSum a b false % 2 ∧
        addUnit f (addSum a b false) = 2 ^ k := by
    by_cases hc : 2 ^ (f.F + 4) ≤ addSum a b false
    · exact ⟨4, Or.inr rfl, hc, by omega, by rw [addUnit, if_pos hc]; rfl⟩
    · exact ⟨3, Or.inl rfl, by omega, by omega, by
        rw [addUnit, if_neg hc, if_pos (by omega)]
        rfl⟩
  rw [← nearestEven_same (by omega) hs hu]
  exact roundsTo_near ha hb hx (by omega) (by omega) (fun h => by omega) (by omega)
    (fun _ => by omega) (Or.inl (by omega)) (by omega) (by omega)

/-- A difference that is small is exact. -/
theorem small_spec (hs : sign a ≠ sign b) (hY : addSum a b false ≤ 2 ^ (f.F + 2)) :
    addCut a b % 4 = 0 ∧ addLost a b = false ∧
      addExact a b = addSum a b false * 2 ^ addDist a b ∧ addSum a b false % 4 = 0 := by
  have hL := divSig_range (larger a b)
  have hS := divSig_range (smaller a b)
  have h3 : 2 ^ (f.F + 3) = 2 * 2 ^ (f.F + 2) := pow_succ' _ _
  have h4 : 2 ^ (f.F + 4) = 4 * 2 ^ (f.F + 2) := by rw [pow_add _ (f.F + 2) 2, Nat.mul_comm]; rfl
  simp only [addSum, if_neg hs, stick, Bool.false_eq_true, false_and, if_false, Nat.add_zero]
    at hY ⊢
  have hd : addDist a b ≤ 1 := by
    by_contra hc
    have hle : addCut a b ≤ 8 * divSig (smaller a b) / 4 :=
      Nat.div_le_div_left (Nat.pow_le_pow_right two_pos (by omega : 2 ≤ addDist a b)) (by decide)
    omega
  simp only [addCut, addLost, addExact, if_neg hs] at hY ⊢
  obtain h | h : addDist a b = 0 ∨ addDist a b = 1 := by omega
  · rw [h]
    simp only [pow_zero, Nat.div_one, Nat.mod_one, Nat.mul_one]
    exact ⟨by omega, by simp, trivial, by omega⟩
  · rw [h]
    simp only [pow_one, decide_eq_false_iff_not, not_not]
    omega

/-- A difference other than zero. -/
theorem addSum_pos (ha : IsNormal a) (hb : IsNormal b) (hs : sign a ≠ sign b)
    (hx : value a + value b ≠ 0) : 0 < addSum a b false := by
  refine Nat.pos_of_ne_zero fun h0 => hx ?_
  obtain ⟨-, -, hN, -⟩ := small_spec hs (by rw [h0]; exact Nat.zero_le _)
  rw [value_add ha hb, hN, h0, Nat.zero_mul, Nat.cast_zero, zero_div, zero_mul, signed]
  split <;> simp

/-- A difference is right just when the last bit does not change the rounding and the distance of
the shift is that of the leading one. -/
theorem roundsTo_diff (hE : f.F < 2 ^ f.E) (ha : IsNormal a) (hb : IsNormal b)
    (hx : f.RoundsToNormal (value a + value b)) (hs : sign a ≠ sign b) :
    RoundsTo (value a + value b) (fpAdd o a b) ↔ AddSticks o a b ∧
      (addSum a b (addOr o a b) < 2 ^ (f.F + 3) →
        sumShift o a b = max 1 (f.F + 3 - Nat.log2 (addSum a b false))) := by
  have hL := divSig_range (larger a b)
  have hpos := addSum_pos ha hb hs hx.ne_zero
  have h23 : 2 ^ (f.F + 3) = 2 * 2 ^ (f.F + 2) := pow_succ' _ _
  have h34 : 2 ^ (f.F + 4) = 2 * 2 ^ (f.F + 3) := pow_succ' _ _
  have hle : addSum a b false ≤ 8 * divSig (larger a b) := by
    rw [addSum, if_neg hs]
    exact Nat.sub_le _ _
  have hbit : ∀ s, addSum a b s ≤ addSum a b false ∧ addSum a b false ≤ addSum a b s + 1 := by
    intro s
    rw [addSum_diff hs s]
    split_ifs <;> omega
  have hX := hbit (addOr o a b)
  have hI := hbit (addLost a b)
  rcases Nat.lt_or_ge (2 ^ (f.F + 3)) (addSum a b false) with hY | hY
  · -- in the binade of the larger operand
    have hu : addUnit f (addSum a b false) = 2 ^ 3 := by
      rw [addUnit, if_neg (by omega), if_pos hY.le]
      rfl
    rw [and_iff_left (by omega), ← nearestEven_diff (by decide) hs (by omega) hu]
    exact roundsTo_near ha hb hx (k := 3) (by decide) (by decide) (fun h => absurd h (by decide))
      (by omega) (fun _ => by omega) (Or.inl (by omega)) (by omega) (by omega)
  · rcases Nat.lt_or_ge (addSum a b false) (2 ^ (f.F + 2)) with hlt | hge
    · -- at least two places below
      obtain ⟨hcut, hlost, hN, h4⟩ := small_spec hs hlt.le
      have hlog : Nat.log2 (addSum a b false) < f.F + 2 := (Nat.log2_lt hpos.ne').mpr hlt
      obtain ⟨D, hD⟩ : ∃ D, D + Nat.log2 (addSum a b false) = f.F + 3 :=
        ⟨f.F + 3 - Nat.log2 (addSum a b false), by omega⟩
      have hsticks : AddSticks o a b ↔ addSum a b (addOr o a b) = addSum a b false := by
        have hc2 : addCut a b % 2 = 0 := by omega
        rw [AddSticks, if_neg hs, addSum_diff hs (addOr o a b), hlost]
        cases addOr o a b with
        | false => simp
        | true =>
          rw [if_pos ⟨rfl, hc2⟩]
          exact iff_of_false (by simp [hc2, hlt]) (by omega)
      rw [roundsTo_small (o := o) hE ha hb hx hs hN h4 hpos hlt (by omega) hD, hsticks]
      exact and_congr_right fun _ => ⟨fun h _ => by omega, fun h => by
        have := h (by omega)
        omega⟩
    · -- one place below, or at the bottom of the binade
      have hlog : f.F + 2 ≤ Nat.log2 (addSum a b false) := (Nat.le_log2 hpos.ne').mpr hge
      have hIlo : 2 ^ (f.F + 2) ≤ addSum a b (addLost a b) := by
        rcases Nat.lt_or_eq_of_le hge with hlt | heq
        · omega
        · rw [(small_spec hs heq.ge).2.1]
          exact hge
      rw [show max 1 (f.F + 3 - Nat.log2 (addSum a b false)) = 1 by omega]
      by_cases hd : addSum a b (addOr o a b) < 2 ^ (f.F + 3) → sumShift o a b = 1
      · rw [and_iff_left hd]
        have hnear := roundsTo_near (o := o) ha hb hx (k := 2) le_rfl (by decide) (fun _ => hd)
          (by omega) (fun h => absurd rfl h) (by omega) hIlo (by omega)
        rw [hnear]
        rcases Nat.lt_or_eq_of_le hY with hlt | heq
        · have hu : addUnit f (addSum a b false) = 2 ^ 2 := by
            rw [addUnit, if_neg (by omega), if_neg (by omega)]
            rfl
          exact nearestEven_diff le_rfl hs hge hu
        · -- at the bottom of the binade a last bit makes no difference in either unit
          have hu : addUnit f (addSum a b false) = 2 ^ 3 := by
            rw [addUnit, if_neg (by omega), if_pos heq.ge]
            rfl
          have h8 : 2 ^ (f.F + 3) = 8 * 2 ^ f.F := by rw [pow_add, Nat.mul_comm]; rfl
          rw [← nearestEven_diff (by decide) hs hge hu]
          refine iff_of_true ?_ ?_ <;> unfold nearestEven <;> split_ifs <;> omega
      · refine iff_of_false ?_ fun h => hd h.2
        rw [Classical.not_imp] at hd
        exact not_roundsTo_of_shift hE ha hb hx hs (by
          have := Nat.two_pow_pos (f.F + 2)
          have := f.sixteen_le
          omega) hd.1 hd.2 hIlo (by omega)

/-! ## The zero detector -/

/-- The zero detector finds the leading one of what it is given. -/
theorem toNat_zeroDetector (ho : o.init = none) (h2 : 2 ≤ lgFw f) (hw : f.F + 1 ≤ 2 ^ lgFw f)
    {m : BitVec (f.F + 1)} (hm : m.toNat < 2 ^ f.F) :
    (zeroDetector o m).toNat + Nat.log2 m.toNat = f.F := by
  have hN : 2 ^ (lgFw f - 2 + 2) = 2 ^ lgFw f := by rw [Nat.sub_add_cancel h2]
  unfold zeroDetector
  rw [ho, Option.getD_none]
  generalize hx : ((m ++ 0#(2 ^ lgFw f - f.F - 1)).setWidth _ : BitVec (2 ^ (lgFw f - 2 + 2))) = x
  have hval : x.toNat = m.toNat * 2 ^ (2 ^ lgFw f - f.F - 1) := by
    have hlt := Nat.mul_lt_mul_of_pos_right m.isLt (Nat.two_pow_pos (2 ^ lgFw f - f.F - 1))
    rw [← pow_add, show f.F + 1 + (2 ^ lgFw f - f.F - 1) = 2 ^ (lgFw f - 2 + 2) by omega] at hlt
    rw [← hx, BitVec.toNat_setWidth, BitVec.toNat_append,
      ← Nat.shiftLeft_add_eq_or_of_lt (BitVec.isLt _), Nat.shiftLeft_eq]
    simp only [BitVec.toNat_ofNat, Nat.zero_mod, Nat.add_zero]
    exact Nat.mod_eq_of_lt hlt
  have hdist : ∀ n, n ≤ f.F → (BitVec.ofNat (lgFw f) n).toNat = n := fun n hn => by
    rw [BitVec.toNat_ofNat, Nat.mod_eq_of_lt (by omega)]
  have hc : (countLeadingZeros (lgFw f - 2) x).toNat + Nat.log2 m.toNat = f.F ∨
      m.toNat = 0 ∧ f.F ≤ (countLeadingZeros (lgFw f - 2) x).toNat := by
    obtain ⟨hle, hlt, hhalf⟩ := countLeadingZeros_spec _ x
    rcases Nat.eq_zero_or_pos m.toNat with hm0 | hpos
    · have hx0 : x = 0 := BitVec.eq_of_toNat_eq (by simp [hval, hm0])
      rw [hx0, countLeadingZeros_zero, hN]
      exact Or.inr ⟨hm0, by omega⟩
    · have hlog := Nat.log2_self_le hpos.ne'
      have hlog' := Nat.lt_log2_self (n := m.toNat)
      have hP := Nat.two_pow_pos (2 ^ lgFw f - f.F - 1)
      have hne : x ≠ 0 := fun h0 => by
        rw [h0] at hval
        exact (Nat.mul_pos hpos hP).ne hval
      have hhalf := hhalf hne
      rw [hval] at hlt hhalf
      have hlt' := (Nat.mul_le_mul_right _ hlog).trans_lt hlt
      have hhalf' := hhalf.trans_lt (Nat.mul_lt_mul_of_pos_left
        (Nat.mul_lt_mul_of_pos_right hlog' hP) two_pos)
      rw [← pow_add] at hlt' hhalf'
      rw [← pow_succ'] at hhalf'
      have h1 := (Nat.pow_lt_pow_iff_right (by decide)).mp hlt'
      have h2 := (Nat.pow_lt_pow_iff_right (by decide)).mp hhalf'
      have h3 := (Nat.log2_lt hpos.ne').mpr hm
      exact Or.inl (by omega)
  have hlog0 : m.toNat = 0 → Nat.log2 m.toNat = 0 := fun h => by rw [h, Nat.log2_zero]
  dsimp only
  generalize countLeadingZeros (lgFw f - 2) x = c at hc ⊢
  split_ifs with hge
  · rw [hdist _ le_rfl]
    omega
  · have hset : (c.setWidth (lgFw f)).toNat = c.toNat := by
      rw [BitVec.toNat_setWidth, Nat.mod_eq_of_lt (by omega)]
    rw [hset]
    omega

theorem sumShift_none (ho : o.init = none) (h2 : 2 ≤ lgFw f) (hw : f.F + 1 ≤ 2 ^ lgFw f)
    (hlow : addSum a b (addOr o a b) < 2 ^ (f.F + 3)) :
    sumShift o a b + Nat.log2 (addSum a b (addOr o a b) / 8) = f.F := by
  have hsum : (alignSum o a b).toNat = addSum a b (addOr o a b) := align_spec.1
  have h3 : 2 ^ (f.F + 3) = 8 * 2 ^ f.F := by rw [pow_add, Nat.mul_comm]; rfl
  rw [← hsum] at hlow ⊢
  obtain ⟨-, hm, -⟩ := add_low (e := alignExp a b) hlow
  have hdet := toNat_zeroDetector ho h2 hw (m := (alignSum o a b).extractLsb' 3 (f.F + 1))
    (by rw [hm]; omega)
  rw [hm] at hdet
  exact hdet

/-- A variable that is assigned once answers one distance. -/
theorem sumShift_some (ho : o.init ≠ none) : sumShift o a b = (zeroDetector o 0).toNat := by
  obtain ⟨pad, hpad⟩ := Option.ne_none_iff_exists'.mp ho
  rw [sumShift, shift, zeroDetector, zeroDetector, hpad, Option.getD_some, Option.getD_some]

/-- A difference whose last bit does not change the rounding is shifted by the distance of its
leading one. -/
theorem sumShift_iff (h2 : 2 ≤ lgFw f) (hw : f.F + 1 ≤ 2 ^ lgFw f) (hs : sign a ≠ sign b)
    (hpos : 0 < addSum a b false) (hsticks : AddSticks o a b) :
    (addSum a b (addOr o a b) < 2 ^ (f.F + 3) →
      sumShift o a b = max 1 (f.F + 3 - Nat.log2 (addSum a b false))) ↔ AddShifts o a b := by
  unfold AddShifts
  split_ifs with ho
  · have hF := f.four_le_F
    have h16 := f.sixteen_le
    have h32 : 2 ^ (f.F + 3) = 2 * 2 ^ (f.F + 2) := pow_succ' _ _
    have h21 : 2 ^ (f.F + 2) = 4 * 2 ^ f.F := by rw [pow_add, Nat.mul_comm]; rfl
    have h10 : 2 ^ (f.F - 1 + 1) = 2 ^ f.F := by rw [Nat.sub_add_cancel (by omega)]
    have h1 : 2 ^ (f.F - 1 + 1) = 2 * 2 ^ (f.F - 1) := pow_succ' _ _
    have hle : sumShift o a b ≤ f.F := shift_le o _
    have hX := addSum_diff hs (addOr o a b)
    have hdet := sumShift_none (o := o) (a := a) (b := b) ho h2 hw
    constructor
    · refine fun h => ⟨fun h4 => ?_, fun heq => ?_⟩
      · have hlog : Nat.log2 4 = 2 := by decide
        have h := h (by omega)
        rw [h4, hlog] at h
        omega
      · obtain ⟨hcut, hlost, -, -⟩ := small_spec hs heq.le
        rw [hlost]
        by_contra hor
        rw [if_pos ⟨Bool.eq_true_of_not_eq_false hor, by omega⟩] at hX
        have hlog : Nat.log2 (addSum a b (addOr o a b) / 8) < f.F - 1 :=
          (Nat.log2_lt (by omega)).mpr (by omega)
        have h := h (by omega)
        rw [heq, Nat.log2_two_pow] at h
        have := hdet (by omega)
        omega
    · rintro ⟨hne, hbit⟩ hlow
      have hdet := hdet hlow
      rcases Nat.lt_or_ge (addSum a b false) (2 ^ (f.F + 2)) with hlt | hge
      · obtain ⟨hcut, hlost, -, h4⟩ := small_spec hs hlt.le
        have hor : addOr o a b = false := by
          rw [AddSticks, if_neg hs, hlost] at hsticks
          rcases hsticks with h | h | ⟨h, -⟩
          · omega
          · exact h
          · omega
        have hlog8 := log2_div_eight (addSum a b false)
        have hlog : Nat.log2 (addSum a b false) < f.F + 2 := (Nat.log2_lt hpos.ne').mpr hlt
        have hlog' : 3 ≤ Nat.log2 (addSum a b false) := (Nat.le_log2 hpos.ne').mpr (by omega)
        rw [hor] at hdet
        omega
      · have hXge : 2 ^ (f.F + 2) ≤ addSum a b (addOr o a b) := by
          rcases Nat.lt_or_eq_of_le hge with hlt | heq
          · split_ifs at hX <;> omega
          · rw [hbit heq.symm, (small_spec hs heq.ge).2.1]
            exact hge
        have hlog : Nat.log2 (addSum a b (addOr o a b) / 8) = f.F - 1 := by
          rw [Nat.log2_eq_iff (by omega)]
          omega
        have hlogY : f.F + 2 ≤ Nat.log2 (addSum a b false) := (Nat.le_log2 hpos.ne').mpr hge
        omega
  · rw [sumShift_some ho]

/-! ## Sums that are zero, and operands that are -/

/-- Nothing is left of a difference of zero. -/
theorem sumKept_eq_zero (hX : addSum a b (addOr o a b) = 0) : sumKept o a b = 0 := by
  have hsum : (alignSum o a b).toNat = 0 := align_spec.1.trans hX
  obtain ⟨hadd, hm, -⟩ := add_low (e := alignExp a b) (by rw [hsum]; exact Nat.two_pow_pos _)
  have hz : alignSum o a b = 0 := BitVec.eq_of_toNat_eq (by simpa using hsum)
  have hbits : add (alignSum o a b) (alignExp a b) = ⟨0, alignExp a b, false, false, false⟩ := by
    rw [hadd, hz]
    simp
  rw [sumKept, hbits, norm1]
  split_ifs
  · dsimp only
    split_ifs <;> simp [Stage.kept]
  · simp [Stage.kept]

/-- Something is left of a difference of at least half the larger operand. -/
theorem sumKept_ne_zero_iff (hE : f.F < 2 ^ f.E) (h2 : 2 ≤ lgFw f) (hw : f.F + 1 ≤ 2 ^ lgFw f)
    (hs : sign a ≠ sign b) (hpos : 0 < (exp (larger a b)).toNat)
    (hY : 2 ^ (f.F + 2) ≤ addSum a b false) : sumKept o a b ≠ 0 ↔ AddKeeps o a b := by
  have hF := f.four_le_F
  have h16 := f.sixteen_le
  have hL := divSig_range (larger a b)
  have h32 : 2 ^ (f.F + 3) = 2 * 2 ^ (f.F + 2) := pow_succ' _ _
  have h21 : 2 ^ (f.F + 2) = 4 * 2 ^ f.F := by rw [pow_add, Nat.mul_comm]; rfl
  have hlt : addSum a b (addOr o a b) < 2 ^ (f.F + 4) ∧
      2 ^ (f.F + 2) ≤ addSum a b (addOr o a b) + 1 := by
    have hX := addSum_diff hs (addOr o a b)
    have hle : addSum a b false ≤ 8 * divSig (larger a b) := by
      rw [addSum, if_neg hs]
      exact Nat.sub_le _ _
    split_ifs at hX <;> omega
  have hquo := le_nearestEven (addSum a b (addOr o a b)) 4
  by_cases hlow : addSum a b (addOr o a b) < 2 ^ (f.F + 3)
  · obtain ⟨hzero, hone, hmore⟩ := sumKept_low (o := o) hE hpos hlow
    by_cases ho : o.init = none
    · refine iff_of_true ?_ (Or.inl ho)
      have h10 : 2 ^ f.F = 4 * 2 ^ (f.F - 2) := by
        rw [show f.F = f.F - 2 + 2 by omega, pow_add, Nat.add_sub_cancel, Nat.mul_comm]
        rfl
      have hdet := sumShift_none (o := o) (a := a) (b := b) ho h2 hw hlow
      have hge : f.F - 2 ≤ Nat.log2 (addSum a b (addOr o a b) / 8) :=
        (Nat.le_log2 (by omega)).mpr (by omega)
      have hub : Nat.log2 (addSum a b (addOr o a b) / 8) < f.F :=
        (Nat.log2_lt (by omega)).mpr (by omega)
      obtain h | h : sumShift o a b = 1 ∨ sumShift o a b = 2 := by omega
      · rw [hone h]
        omega
      · have hlt4 : addSum a b (addOr o a b) / 8 < 2 ^ (f.F - 2 + 1) :=
          (Nat.log2_lt (by omega)).mp (by omega)
        have h1 : 2 ^ (f.F - 2 + 1) = 2 * 2 ^ (f.F - 2) := pow_succ' _ _
        have hF1 : 2 ^ (f.F + 1) = 2 * 2 ^ f.F := pow_succ' _ _
        rw [hmore (by omega), h, Nat.sub_self, pow_zero, Nat.mul_one,
          Nat.mod_eq_of_lt (by omega)]
        omega
    · rw [AddKeeps, or_iff_right ho, ← sumShift_some (a := a) (b := b) ho,
        forall_prop_of_true (by omega), forall_prop_of_true hlow]
      obtain h | h | h : sumShift o a b = 0 ∨ sumShift o a b = 1 ∨ 2 ≤ sumShift o a b := by omega
      · exact iff_of_false (not_not.mpr (hzero h)) (by omega)
      · refine iff_of_true ?_ (Or.inl h)
        rw [hone h]
        omega
      · have h4 : 2 ^ sumShift o a b = 2 ^ (sumShift o a b - 2) * 4 := by
          rw [← Nat.sub_add_cancel h, pow_add, Nat.add_sub_cancel]
          rfl
        have h8 : 2 ^ (f.F + 3) = 2 ^ (f.F + 1) * 4 := pow_add 2 (f.F + 1) 2
        rw [hmore h, or_iff_right (by omega), and_iff_right h, h4, h8, ← Nat.mul_assoc,
          Nat.mul_dvd_mul_iff_right (by decide), Nat.dvd_iff_mod_eq_zero]
  · refine iff_of_true ?_ (Or.inr fun _ h => absurd h hlow)
    have hge : 2 ^ f.F ≤ nearestEven (addSum a b (addOr o a b)) (2 ^ 3) :=
      le_nearestEven_of_mul_le (by decide) (by rw [← pow_add]; omega)
    rw [(sumWord_unit (k := 3) hpos (by decide) (by decide) (fun h => absurd h (by decide))
      (fun _ => by omega) hlt.1 (by omega)).1]
    omega

/-- A zero beside a normal number. -/
theorem zero_spec (hs : sign a ≠ sign b) (hz : IsZero a ∧ IsNormal b ∨ IsZero b ∧ IsNormal a) :
    0 < (exp (larger a b)).toNat ∧ 2 ^ (f.F + 2) ≤ addSum a b false := by
  have hL := divSig_range (larger a b)
  have h3 : 2 ^ (f.F + 3) = 8 * 2 ^ f.F := by rw [pow_add, Nat.mul_comm]; rfl
  have h2 : 2 ^ (f.F + 2) = 4 * 2 ^ f.F := by rw [pow_add, Nat.mul_comm]; rfl
  have key : 0 < (exp (larger a b)).toNat ∧ exp a ≠ exp b ∧ divSig (smaller a b) = 2 ^ f.F := by
    have hlt : ∀ {x y : BitVec f.W}, IsZero x → IsNormal y → exp x < exp y := by
      intro x y hx hy
      have := exp_pos_of_normal hy
      rw [BitVec.lt_def, hx.1]
      simpa using this
    have hsig : ∀ {x : BitVec f.W}, IsZero x → divSig x = 2 ^ f.F := fun hx => by
      rw [divSig, hx.2]
      simp
    obtain ⟨hx, hy⟩ | ⟨hx, hy⟩ := hz
    · obtain ⟨hl, hsm⟩ := larger_of_lt (hlt hx hy)
      rw [hl, hsm]
      exact ⟨exp_pos_of_normal hy, BitVec.ne_of_lt (hlt hx hy), hsig hx⟩
    · obtain ⟨hl, hsm⟩ := larger_of_gt (hlt hx hy)
      rw [hl, hsm]
      exact ⟨exp_pos_of_normal hy, (BitVec.ne_of_lt (hlt hx hy)).symm, hsig hx⟩
  obtain ⟨hpos, hne, hsig⟩ := key
  have hcut : addCut a b ≤ 8 * divSig (smaller a b) / 2 :=
    Nat.div_le_div_left (Nat.pow_le_pow_right two_pos (addDist_pos hne)) two_pos
  refine ⟨hpos, ?_⟩
  simp only [addSum, if_neg hs, stick, Bool.false_eq_true, false_and, if_false, Nat.add_zero]
  omega

/-- Operands of one magnitude leave nothing. -/
theorem addSum_eq_zero (hs : sign a ≠ sign b) (he : exp a = exp b) (hm : frac a = frac b)
    (s : Bool) : addSum a b s = 0 := by
  have hsig : ∀ x y : BitVec f.W, frac x = frac y → divSig x = divSig y := fun x y h => by
    rw [divSig, divSig, h]
  have hls : divSig (larger a b) = divSig (smaller a b) := by
    unfold larger smaller
    split
    · exact hsig _ _ hm.symm
    · exact hsig _ _ hm
  rw [addSum, if_neg hs, addCut, addDist_eq_zero he, hls, pow_zero, Nat.div_one]
  unfold stick
  split_ifs <;> omega

/-! ## The result -/

/-- A zero leaves the other operand as it is, unless that is shifted out. -/
theorem rounds_of_zero (hE : f.F < 2 ^ f.E) (h2 : 2 ≤ lgFw f) (hw : f.F + 1 ≤ 2 ^ lgFw f)
    (ha : IsNormal a ∨ IsZero a) (hb : IsNormal b ∨ IsZero b) (hz : IsZero a ∨ IsZero b) :
    (RoundsTo (value a + value b) (fpAdd o a b) ∧
        (value a + value b = 0 → sign (fpAdd o a b) = (sign a && sign b))) ↔
      (sign a ≠ sign b → AddKeeps o a b) := by
  have hsign0 : sign (0 : BitVec f.W) = false := by simp [sign]
  -- the operand that is passed on, and what it is worth
  have hval : value a + value b = value (if IsZero a then b else a) := by
    split_ifs with h
    · rw [value_zero h, zero_add]
    · rw [value_zero (hz.resolve_left h), add_zero]
  have hfin : IsFinite (if IsZero a then b else a) := by
    split_ifs with h
    · exact hb.elim (fun h => h.2) isFinite_of_zero
    · exact (ha.resolve_right h).2
  have hword : fpAdd o a b = if sign a ≠ sign b ∧ sumKept o a b = 0 then 0
      else if IsZero a then b else a := by
    rw [fpAdd_cases]
    split_ifs with h1 h2 h3
    · rfl
    · rfl
    · rfl
    · exact absurd hz (not_or.mpr ⟨h2, h3⟩)
  by_cases hs : sign a = sign b
  · rw [hword, if_neg (fun h => h.1 hs), hval]
    refine iff_of_true ⟨roundsTo_value hfin, fun _ => ?_⟩ fun h => absurd hs h
    split_ifs <;> simp [hs]
  · rw [forall_prop_of_true hs]
    by_cases hboth : IsZero a ∧ IsZero b
    · have hX := addSum_eq_zero hs (hboth.1.1.trans hboth.2.1.symm)
        (hboth.1.2.trans hboth.2.2.symm) (addOr o a b)
      have hz0 : value a + value b = value (0 : BitVec f.W) := by
        rw [value_zero hboth.1, value_zero hboth.2, value_zero isZero_zero, add_zero]
      rw [hword, if_pos ⟨hs, sumKept_eq_zero hX⟩, hz0, hsign0]
      refine iff_of_true ⟨roundsTo_value (isFinite_of_zero isZero_zero), fun _ => ?_⟩
        (Or.inr fun h => absurd hX h)
      cases hsa : sign a <;> cases hsb : sign b <;> simp_all
    · have hnorm : IsNormal (if IsZero a then b else a) := by
        split_ifs with h
        · exact hb.resolve_right fun hzb => hboth ⟨h, hzb⟩
        · exact ha.resolve_right h
      have hone : IsZero a ∧ IsNormal b ∨ IsZero b ∧ IsNormal a := by
        split_ifs at hnorm with h
        · exact Or.inl ⟨h, hnorm⟩
        · exact Or.inr ⟨hz.resolve_left h, hnorm⟩
      obtain ⟨hpos, hY⟩ := zero_spec hs hone
      have hne : value a + value b ≠ 0 := by
        rw [hval]
        exact (roundsToNormal_value hnorm).ne_zero
      rw [← sumKept_ne_zero_iff hE h2 hw hs hpos hY, hword, hval, roundsTo_value_iff hnorm,
        ← hval, and_iff_left fun h => absurd h hne]
      by_cases hk : sumKept o a b = 0
      · rw [if_pos ⟨hs, hk⟩]
        exact iff_of_false (fun h => not_isNormal_of_zero isZero_zero (h ▸ hnorm)) (not_not.mpr hk)
      · rw [if_neg fun h => hk h.2]
        exact iff_of_true rfl hk

/-- Normal operands. -/
theorem rounds_of_normal (hE : f.F < 2 ^ f.E) (h2 : 2 ≤ lgFw f) (hw : f.F + 1 ≤ 2 ^ lgFw f)
    (ha : IsNormal a) (hb : IsNormal b)
    (hx : value a + value b = 0 ∨ f.RoundsToNormal (value a + value b)) :
    (RoundsTo (value a + value b) (fpAdd o a b) ∧
        (value a + value b = 0 → sign (fpAdd o a b) = (sign a && sign b))) ↔
      AddSticks o a b ∧ (sign a ≠ sign b → addSum a b false ≠ 0 → AddShifts o a b) := by
  rcases hx with h0 | hx
  · have hneg : b = negate a := by
      have hna : IsNormal (negate a) := by rwa [IsNormal, exp_negate]
      refine value_inj hna ?_
      rw [value_negate]
      exact eq_neg_of_add_eq_zero_right h0
    have hs : sign a ≠ sign b := by rw [hneg, sign_negate]; exact (Bool.not_ne_self _).symm
    have he : exp a = exp b := by rw [hneg, exp_negate]
    have hX := addSum_eq_zero hs he (by rw [hneg, frac_negate])
    have hbits : addOr o a b = addLost a b := by
      simp [addOr, addLost, he, addDist_eq_zero he, Nat.mod_one]
    rw [fpAdd_eq ha hb, if_pos ⟨hs, sumKept_eq_zero (hX _)⟩, h0, ← value_zero isZero_zero]
    refine iff_of_true ⟨roundsTo_value (isFinite_of_zero isZero_zero), fun _ => ?_⟩
      ⟨Or.inr (Or.inl hbits), fun _ h => absurd (hX _) h⟩
    rw [hneg, sign_negate]
    simp [sign]
  · rw [and_iff_left fun h => absurd h hx.ne_zero]
    by_cases hs : sign a = sign b
    · rw [roundsTo_same ha hb hx hs, and_iff_left fun h => absurd hs h]
    · have hpos := addSum_pos ha hb hs hx.ne_zero
      rw [roundsTo_diff hE ha hb hx hs, forall_prop_of_true hs, forall_prop_of_true hpos.ne']
      exact and_congr_right fun hsticks => sumShift_iff h2 hw hs hpos hsticks

end

/-- The exact result as a sum of the operands that are added. -/
theorem exact_eq (i : FpAddIn f) : i.exact = value i.a + value i.wB := by
  have hb : i.wB = if i.sub then negate i.b else i.b := by
    unfold FpAddIn.wB
    cases i.sub with
    | false => exact pack_fields _
    | true => rfl
  rw [FpAddIn.exact, hb]
  split
  · rw [value_negate, sub_eq_add_neg]
  · rfl

end FpAdd

open FpAdd in
/-- For operands that are normal or zero, and a result that is zero or rounds to a normal number,
what leaves `fp_add` `ADD_LAT` cycles later is the rounded result just when neither the bit taken
for what is cut off nor the distance of the shift is wrong in a way that is seen. -/
theorem fpAdd_rounds_iff (hf : f = single ∨ f = double) (o : FpAddOpen f) {d : ℕ}
    (r : DelayLine.Line (BitVec f.W) d) (i : FpAddIn f) (later : List (FpAddIn f))
    (hlater : later.length = d) (ha : IsNormal i.a ∨ IsZero i.a) (hb : IsNormal i.b ∨ IsZero i.b)
    (hx : i.exact = 0 ∨ f.RoundsToNormal i.exact) :
    i.RoundsTo (DelayLine.out (run (fpAddStep o) r (i :: later))) ↔ AddRounds o i.a i.wB := by
  have hout : DelayLine.out (run (fpAddStep o) r (i :: later)) = fpAdd o i.a i.wB :=
    DelayLine.out_run_map (fun i : FpAddIn f => fpAdd o i.a i.wB) r i later hlater
  obtain ⟨hE, h2, hw⟩ : f.F < 2 ^ f.E ∧ 2 ≤ lgFw f ∧ f.F + 1 ≤ 2 ^ lgFw f := by
    rcases hf with rfl | rfl <;> decide
  have hsign : sign i.wB = (sign i.b ^^ i.sub) := by
    rw [FpAddIn.wB, sign_pack]
    cases i.sub <;> simp
  have hb : IsNormal i.wB ∨ IsZero i.wB := by
    rwa [IsNormal, IsZero, FpAddIn.wB, exp_pack, frac_pack]
  have hrounds : i.RoundsTo (fpAdd o i.a i.wB) ↔
      RoundsTo (value i.a + value i.wB) (fpAdd o i.a i.wB) ∧
      (value i.a + value i.wB = 0 → sign (fpAdd o i.a i.wB) = (sign i.a && sign i.wB)) := by
    rw [← exact_eq, hsign]
    exact ⟨fun h => ⟨h.1, h.2⟩, fun h => ⟨h.1, h.2⟩⟩
  rw [exact_eq] at hx
  rw [hout, hrounds, AddRounds]
  split_ifs with hz
  · exact rounds_of_zero hE h2 hw ha hb hz
  · rw [not_or] at hz
    exact rounds_of_normal hE h2 hw (ha.resolve_right hz.1) (hb.resolve_right hz.2) hx

/-- 1.5 - 1.25, through two registers. -/
theorem fpAdd_rounds_iff_quarter :
    let i : FpAddIn single :=
      ⟨encode single false 127 (3 * 2 ^ 22), encode single false 127 (5 * 2 ^ 21), true⟩
    let o : FpAddOpen single := ⟨none, fun _ => false⟩
    i.RoundsTo (DelayLine.out (run (fpAddStep o) (fun _ => 0 : DelayLine.Line (BitVec single.W) 1)
      [i, i])) := by
  intro i o
  have hb : single.bias = 127 := by decide
  have hval : i.exact = value (encode single false 125 (2 ^ 23)) := by
    change value (encode single false 127 _) - value (encode single false 127 _) = _
    rw [value_encode (by decide) (by decide) (by decide) (by decide),
      value_encode (by decide) (by decide) (by decide) (by decide),
      value_encode (by decide) (by decide) (by decide) (by decide), hb]
    norm_num
  refine (fpAdd_rounds_iff (Or.inl rfl) o _ i [i] rfl (Or.inl ?_) (Or.inl ?_) (Or.inr ?_)).mpr ?_
  · exact isNormal_encode (by decide) (by decide)
  · exact isNormal_encode (by decide) (by decide)
  · rw [hval]
    exact roundsToNormal_value (isNormal_encode (by decide) (by decide))
  · decide

/-- 1 + (1 + 2^-13) * 2^-24 is above the middle of 1 and the next number.  What puts it there is
looked for among the wrong bits, and the sum is rounded to 1 as a tie. -/
theorem not_roundsTo_fpAdd :
    let i : FpAddIn single :=
      ⟨encode single false 127 (2 ^ 23), encode single false 103 (2 ^ 23 + 2 ^ 10), false⟩
    IsNormal i.a ∧ IsNormal i.b ∧ single.RoundsToNormal i.exact ∧
      ∀ o : FpAddOpen single, ¬i.RoundsTo (fpAdd o i.a i.wB) := by
  intro i
  have ha : IsNormal i.a := isNormal_encode (by decide) (by decide)
  have hb : IsNormal i.b := isNormal_encode (by decide) (by decide)
  have hw : i.wB = i.b := pack_fields _
  have hexact : i.exact = value i.a + value i.b := by rw [FpAdd.exact_eq, hw]
  have hx : single.RoundsToNormal (value i.a + value i.b) := by
    have hl : sign (larger i.a i.b) = false ∧ (exp (larger i.a i.b)).toNat = 127 := by
      decide +kernel
    have hn : single.Normalised (addExact i.a i.b) (2 ^ (addDist i.a i.b + 3)) :=
      ⟨by decide +kernel, by decide +kernel, by decide +kernel⟩
    have hr := hn.roundsToNormal (s := false) (e := 127) (by decide)
      (Or.inl (by decide +kernel))
    rw [FpAdd.value_add ha hb, hl.1, hl.2]
    exact_mod_cast hr
  refine ⟨ha, hb, hexact ▸ hx, fun o h => ?_⟩
  have hor : addOr o i.a i.b = false := by
    have hidx : FpAdd.orIdx i.a i.b = 8 := by decide +kernel
    rw [addOr, FpAdd.orMant, hidx, if_pos (by decide)]
    decide +kernel
  have hnear := h.nearest
  rw [hexact, hw, FpAdd.roundsTo_same ha hb hx (by decide +kernel), AddSticks, hor] at hnear
  revert hnear
  decide +kernel

end MipsCore
