import MipsCore.Lib.DelayLine
import MipsCore.Lib.Rounding

/-! # Multiplication of floating-point numbers

`fp_mul.sv` without the simulation model: the product of the significands is cut four bits below
the fraction, normalised, rounded by the first bit that is cut, and normalised again.
-/
namespace MipsCore
open Clocked (run)
open BinaryFormat NearestEven
variable {f : BinaryFormat}

namespace FpMul

/-- `fracmul` -/
def fracmul {w : ℕ} (a b : BitVec w) : BitVec (w + w) := a.setWidth _ * b.setWidth _

/-- `expadd` -/
def expadd (a b : BitVec f.E) : BitVec (f.E + 1) :=
  a.setWidth _ + b.setWidth _ - BitVec.ofNat _ (2 ^ (f.E - 1) - 1)

/-- `normalize` -/
def normalize (e : BitVec (f.E + 1)) (m : BitVec (f.F + 5)) : BitVec (f.E + 1) × BitVec (f.F + 5) :=
  if m.getLsbD (f.F + 4) then
    (e + 1, (0#1 ++ m.extractLsb' 2 (f.F + 3) ++ BitVec.ofBool (m.getLsbD 1 && m.getLsbD 0)).cast
      (by omega))
  else (e, m)

/-- `round` -/
def round (m : BitVec (f.F + 5)) : BitVec (f.F + 5) :=
  if m.getLsbD 2 then ((m.extractLsb' 3 (f.F + 2) + 1) ++ 0#3).cast (by omega) else m

variable (a b : BitVec f.W)

/-- `w_prod` -/
def prod : BitVec (1 + f.F + (1 + f.F)) := fracmul (1#1 ++ frac a) (1#1 ++ frac b)
/-- The inputs of `round`. -/
def rndIn : BitVec (f.E + 1) × BitVec (f.F + 5) :=
  normalize (expadd (exp a) (exp b)) ((prod a b).extractLsb' (f.F - 3) (f.F + 5))
/-- The outputs of the second `normalize`. -/
def nrmOut : BitVec (f.E + 1) × BitVec (f.F + 5) := normalize (rndIn a b).1 (round (rndIn a b).2)

/-- `detection` -/
def zero : Bool := a == 0 || b == 0
def infinity : Bool :=
  exp a == BitVec.allOnes f.E && frac a == 0 || exp b == BitVec.allOnes f.E && frac b == 0

end FpMul

open FpMul in
/-- The word that enters the shift register of `fp_mul`. -/
def fpMul (a b : BitVec f.W) : BitVec f.W :=
  let sign := sign a ^^ sign b
  if zero a b then pack sign 0 0
  else if infinity a b then pack sign (BitVec.allOnes f.E) 0
  else pack sign ((nrmOut a b).1.setWidth f.E) ((nrmOut a b).2.extractLsb' 3 f.F)

/-- The inputs of `fp_mul`. -/
structure FpMulIn (f : BinaryFormat) where
  a : BitVec f.W
  b : BitVec f.W

/-- One cycle of `fp_mul` with `MUL_LAT = d + 1`. -/
def fpMulStep {d : ℕ} (r : DelayLine.Line (BitVec f.W) d) (i : FpMulIn f) :
    DelayLine.Line (BitVec f.W) d := DelayLine.shift r (fpMul i.a i.b)

/-- The product of the significands, in units of twice the last place. -/
def mulProd (a b : BitVec f.W) : ℕ := sig a * sig b
/-- The product has carried into another binade. -/
def mulHigh (a b : BitVec f.W) : Prop := 2 ^ (2 * f.F + 1) ≤ mulProd a b
instance (a b : BitVec f.W) : Decidable (mulHigh a b) := inferInstanceAs (Decidable (_ ≤ _))
/-- The unit of the product's significand. -/
def mulUnit (a b : BitVec f.W) : ℕ := 2 ^ (f.F + if mulHigh a b then 1 else 0)

/-- The product is no tie above an even significand; below the normal range it is at least half a
unit above the last significand. -/
def MulRounds (a b : BitVec f.W) : Prop :=
  if (exp a).toNat + (exp b).toNat + (if mulHigh a b then 1 else 0) = f.bias then
    mulUnit a b ≤ 2 * (mulProd a b % mulUnit a b)
  else ¬(2 * (mulProd a b % mulUnit a b) = mulUnit a b ∧ mulProd a b / mulUnit a b % 2 = 0)

instance (a b : BitVec f.W) : Decidable (MulRounds a b) := by
  unfold MulRounds
  infer_instance

namespace FpMul
variable {a b : BitVec f.W}

theorem toNat_fracmul {w : ℕ} (a b : BitVec w) : (fracmul a b).toNat = a.toNat * b.toNat := by
  have ha := a.isLt
  have hb := b.isLt
  have hw : 2 ^ w ≤ 2 ^ (w + w) := Nat.pow_le_pow_right (by decide) (by omega)
  rw [fracmul, BitVec.toNat_mul, BitVec.toNat_setWidth, BitVec.toNat_setWidth,
    Nat.mod_eq_of_lt (a := a.toNat) (by omega), Nat.mod_eq_of_lt (a := b.toNat) (by omega),
    Nat.mod_eq_of_lt]
  rw [pow_add]
  exact Nat.mul_lt_mul'' ha hb

/-- A significand with its leading one. -/
theorem toNat_mant (h : IsNormal a) : (1#1 ++ frac a).toNat = sig a := by
  rw [BitVec.toNat_append, ← Nat.shiftLeft_add_eq_or_of_lt (frac a).isLt, Nat.shiftLeft_eq,
    sig_of_normal h]
  simp

/-- `normalize` leaves a significand that has not carried, and shifts one that has. -/
theorem normalize_eq (e : BitVec (f.E + 1)) (m : BitVec (f.F + 5)) :
    (normalize e m).1 = e + BitVec.ofNat _ (m.toNat / 2 ^ (f.F + 4)) ∧
      (normalize e m).2.toNat / 4 = m.toNat / 2 ^ (2 + m.toNat / 2 ^ (f.F + 4)) := by
  have hlt := m.isLt
  have hpow : 2 ^ (f.F + 5) = 2 ^ (f.F + 3) * 4 := pow_add 2 (f.F + 3) 2
  have hdiv : m.toNat / 2 ^ (f.F + 4) < 2 := by
    rw [Nat.div_lt_iff_lt_mul (Nat.two_pow_pos _), ← pow_succ']
    exact hlt
  unfold normalize
  rw [getLsbD_eq_decide, Nat.mod_eq_of_lt hdiv]
  by_cases h : m.toNat / 2 ^ (f.F + 4) = 1
  · rw [if_pos (by simpa using h), h]
    refine ⟨rfl, ?_⟩
    have hcut : (m.extractLsb' 2 (f.F + 3)).toNat = m.toNat / 4 := by
      rw [BitVec.extractLsb'_toNat, Nat.shiftRight_eq_div_pow, Nat.mod_eq_of_lt]
      omega
    rw [BitVec.toNat_cast, BitVec.toNat_append, BitVec.toNat_append, hcut,
      ← Nat.shiftLeft_add_eq_or_of_lt (BitVec.isLt _)]
    have hb := Bool.toNat_le (m.getLsbD 1 && m.getLsbD 0)
    simp only [BitVec.toNat_ofNat, BitVec.toNat_ofBool, Nat.shiftLeft_eq]
    generalize (m.getLsbD 1 && m.getLsbD 0).toNat = c at *
    simp
    omega
  · have hzero : m.toNat / 2 ^ (f.F + 4) = 0 :=
      Nat.lt_one_iff.mp (lt_of_le_of_ne (Nat.lt_succ_iff.mp hdiv) h)
    rw [if_neg (by simpa using h), hzero]
    refine ⟨(BitVec.add_zero e).symm, rfl⟩

/-- `round` adds the first bit that is cut. -/
theorem round_eq (m : BitVec (f.F + 5)) (h : m.toNat < 2 ^ (f.F + 4)) :
    (round m).toNat / 8 = m.toNat / 8 + m.toNat / 4 % 2 := by
  have hpow : 2 ^ (f.F + 4) = 8 * 2 ^ (f.F + 1) := by
    rw [show f.F + 4 = 3 + (f.F + 1) by omega, pow_add]
    rfl
  have hpow2 : 2 ^ (f.F + 2) = 2 * 2 ^ (f.F + 1) := pow_succ' _ _
  unfold round
  rw [getLsbD_eq_decide]
  by_cases hb : m.toNat / 2 ^ 2 % 2 = 1
  · have hcut : (m.extractLsb' 3 (f.F + 2)).toNat = m.toNat / 8 := by
      rw [BitVec.extractLsb'_toNat, Nat.shiftRight_eq_div_pow, Nat.mod_eq_of_lt]
      omega
    rw [if_pos (by simpa using hb), BitVec.toNat_cast, BitVec.toNat_append, BitVec.toNat_add, hcut]
    simp only [BitVec.ofNat_eq_ofNat, BitVec.toNat_ofNat, Nat.zero_mod, Nat.or_zero,
      Nat.shiftLeft_eq]
    have h16 := f.sixteen_le
    have hpow1 : 2 ^ (f.F + 1) = 2 * 2 ^ f.F := pow_succ' _ _
    rw [Nat.mod_eq_of_lt (a := 1) (by omega), Nat.mod_eq_of_lt (by omega)]
    omega
  · rw [if_neg (by simpa using hb)]
    omega

/-- One when the product has carried. -/
def high (a b : BitVec f.W) : ℕ := if mulHigh a b then 1 else 0

theorem mulUnit_eq : mulUnit a b = 2 ^ (f.F + high a b) := rfl

theorem prod_lt : mulProd a b < 2 ^ (2 * f.F + 2) := by
  rw [show 2 * f.F + 2 = f.F + 1 + (f.F + 1) by omega, pow_add]
  exact Nat.mul_lt_mul'' (sig_lt a) (sig_lt b)

theorem high_eq : high a b = mulProd a b / 2 ^ (2 * f.F + 1) := by
  have hlt := prod_lt (a := a) (b := b)
  have hpow : 2 ^ (2 * f.F + 2) = 2 * 2 ^ (2 * f.F + 1) := pow_succ' _ _
  unfold high
  by_cases h : mulHigh a b
  · rw [if_pos h]
    unfold mulHigh at h
    exact (Nat.div_eq_of_lt_le (by omega) (by omega)).symm
  · rw [if_neg h]
    exact (Nat.div_eq_of_lt (not_le.mp h)).symm

/-- The product over its unit is a normalised significand. -/
theorem normalised (ha : IsNormal a) (hb : IsNormal b) :
    f.Normalised (mulProd a b) (mulUnit a b) := by
  have hlt := prod_lt (a := a) (b := b)
  have hsa : 2 ^ f.F ≤ sig a := by rw [sig_of_normal ha]; omega
  have hsb : 2 ^ f.F ≤ sig b := by rw [sig_of_normal hb]; omega
  have hge : 2 ^ f.F * 2 ^ f.F ≤ mulProd a b := Nat.mul_le_mul hsa hsb
  rw [mulUnit_eq]
  refine ⟨Nat.two_pow_pos _, ?_, ?_⟩
  · rw [← pow_add]
    unfold high
    split
    · next h => rwa [show f.F + (f.F + 1) = 2 * f.F + 1 by omega]
    · rwa [Nat.add_zero, pow_add]
  · rw [← pow_add]
    unfold high
    split
    · rwa [show f.F + 1 + (f.F + 1) = 2 * f.F + 2 by omega]
    · next h =>
      rw [show f.F + 1 + (f.F + 0) = 2 * f.F + 1 by omega]
      exact not_le.mp h

/-- The significand that the source comes to. -/
def kept (a b : BitVec f.W) : ℕ :=
  mulProd a b / mulUnit a b + 2 * mulProd a b / mulUnit a b % 2

theorem kept_bounds (ha : IsNormal a) (hb : IsNormal b) :
    2 ^ f.F ≤ kept a b ∧ kept a b ≤ 2 ^ (f.F + 1) := by
  have hn := normalised ha hb
  have h1 := (Nat.le_div_iff_mul_le hn.pos).mpr hn.le
  have h2 := (Nat.div_lt_iff_lt_mul hn.pos).mpr hn.lt
  have h3 := Nat.mod_lt (2 * mulProd a b / mulUnit a b) two_pos
  unfold kept
  omega

theorem setWidth_expadd (x y : BitVec f.E) :
    (expadd x y).setWidth f.E + BitVec.ofNat f.E f.bias = x + y := by
  have hb : BitVec.ofNat f.E f.bias = (BitVec.ofNat (f.E + 1) f.bias).setWidth f.E :=
    (BitVec.setWidth_ofNat_of_le (Nat.le_succ _) _).symm
  rw [hb, ← BitVec.setWidth_add _ _ (Nat.le_succ _), expadd]
  change (x.setWidth (f.E + 1) + y.setWidth (f.E + 1) - BitVec.ofNat (f.E + 1) f.bias +
    BitVec.ofNat (f.E + 1) f.bias).setWidth f.E = x + y
  rw [BitVec.sub_add_cancel, BitVec.setWidth_add _ _ (Nat.le_succ _),
    BitVec.setWidth_setWidth_of_le _ (Nat.le_succ _), BitVec.setWidth_setWidth_of_le _
    (Nat.le_succ _), BitVec.setWidth_eq, BitVec.setWidth_eq]

/-- The product as it enters `round`. -/
theorem rndIn_eq (ha : IsNormal a) (hb : IsNormal b) :
    (rndIn a b).1 = expadd (exp a) (exp b) + BitVec.ofNat _ (high a b) ∧
      (rndIn a b).2.toNat / 4 = 2 * mulProd a b / mulUnit a b := by
  have hF := f.four_le_F
  have hlt := prod_lt (a := a) (b := b)
  have hprod : (prod a b).toNat = mulProd a b := by
    rw [prod, toNat_fracmul, toNat_mant ha, toNat_mant hb]
    rfl
  have hcut : ((prod a b).extractLsb' (f.F - 3) (f.F + 5)).toNat =
      mulProd a b / 2 ^ (f.F - 3) := by
    rw [BitVec.extractLsb'_toNat, hprod, Nat.shiftRight_eq_div_pow, Nat.mod_eq_of_lt]
    rw [Nat.div_lt_iff_lt_mul (Nat.two_pow_pos _), ← pow_add]
    rwa [show f.F + 5 + (f.F - 3) = 2 * f.F + 2 by omega]
  have hhigh : mulProd a b / 2 ^ (f.F - 3) / 2 ^ (f.F + 4) = high a b := by
    rw [Nat.div_div_eq_div_mul, ← pow_add, high_eq]
    congr 2
    omega
  obtain ⟨h1, h2⟩ := normalize_eq (expadd (exp a) (exp b))
    ((prod a b).extractLsb' (f.F - 3) (f.F + 5))
  rw [hcut, hhigh] at h1 h2
  refine ⟨h1, h2.trans ?_⟩
  have hunit : mulUnit a b = 2 * 2 ^ (f.F - 3 + (2 + high a b)) := by
    rw [mulUnit_eq, ← pow_succ']
    congr 1
    omega
  rw [Nat.div_div_eq_div_mul, ← pow_add, hunit, Nat.mul_div_mul_left _ _ two_pos]

/-- The fields of a product. -/
theorem fpMul_eq (ha : IsNormal a) (hb : IsNormal b) {e : ℕ}
    (he : e + f.bias = (exp a).toNat + (exp b).toNat + high a b) :
    fpMul a b = encode f (sign a ^^ sign b) (e + kept a b / 2 ^ (f.F + 1)) (kept a b) := by
  obtain ⟨hexp, hmant⟩ := rndIn_eq ha hb
  obtain ⟨hlo, hhi⟩ := kept_bounds ha hb
  have hn := normalised ha hb
  have hq : (rndIn a b).2.toNat / 8 = mulProd a b / mulUnit a b := by
    have h8 : (rndIn a b).2.toNat / 8 = (rndIn a b).2.toNat / 4 / 2 := by omega
    rw [h8, hmant, Nat.div_div_eq_div_mul, Nat.mul_comm (mulUnit a b), Nat.mul_div_mul_left _ _
      two_pos]
  have hqlt := (Nat.div_lt_iff_lt_mul hn.pos).mpr hn.lt
  have hpow : 2 ^ (f.F + 4) = 8 * 2 ^ (f.F + 1) := by
    rw [show f.F + 4 = 3 + (f.F + 1) by omega, pow_add]
    rfl
  have hround := round_eq (rndIn a b).2 (by omega)
  rw [hq, hmant] at hround
  change _ = kept a b at hround
  obtain ⟨h1, h2⟩ := normalize_eq (rndIn a b).1 (round (rndIn a b).2)
  have hcarry : (round (rndIn a b).2).toNat / 2 ^ (f.F + 4) = kept a b / 2 ^ (f.F + 1) := by
    rw [hpow, ← Nat.div_div_eq_div_mul, hround]
  rw [hcarry] at h1 h2
  have hfrac : (nrmOut a b).2.toNat / 8 = kept a b / 2 ^ (kept a b / 2 ^ (f.F + 1)) := by
    have h8 : (nrmOut a b).2.toNat / 8 = (nrmOut a b).2.toNat / 4 / 2 := by omega
    rw [h8, nrmOut, h2, Nat.div_div_eq_div_mul, ← pow_succ,
      show 2 + kept a b / 2 ^ (f.F + 1) + 1 = 3 + kept a b / 2 ^ (f.F + 1) by omega, pow_add,
      ← Nat.div_div_eq_div_mul, ← hround]
    rfl
  have hz : zero a b = false := by
    have hne : ∀ {x : BitVec f.W}, IsNormal x → (x == 0) = false := by
      rintro x hx
      rw [beq_eq_false_iff_ne]
      rintro rfl
      exact hx.1 (by simp [exp])
    rw [zero, hne ha, hne hb]
    rfl
  have hi : infinity a b = false := by
    rw [infinity, beq_eq_false_iff_ne.mpr ha.2, beq_eq_false_iff_ne.mpr hb.2]
    rfl
  unfold fpMul
  rw [hz, hi]
  refine congrArg₂ (pack _) ?_ (BitVec.eq_of_toNat_eq ?_)
  · rw [← BitVec.add_left_inj (BitVec.ofNat f.E f.bias), BitVec.ofNat_add_ofNat, nrmOut, h1, hexp,
      BitVec.setWidth_add _ _ (Nat.le_succ _), BitVec.setWidth_add _ _ (Nat.le_succ _),
      BitVec.setWidth_ofNat_of_le (Nat.le_succ _), BitVec.setWidth_ofNat_of_le (Nat.le_succ _),
      show e + kept a b / 2 ^ (f.F + 1) + f.bias =
        (exp a).toNat + (exp b).toNat + high a b + kept a b / 2 ^ (f.F + 1) by omega,
      BitVec.ofNat_add, BitVec.ofNat_add, BitVec.ofNat_add, BitVec.ofNat_toNat, BitVec.ofNat_toNat,
      BitVec.setWidth_eq, BitVec.setWidth_eq, ← setWidth_expadd (exp a) (exp b)]
    ring
  · rw [BitVec.extractLsb'_toNat, Nat.shiftRight_eq_div_pow, BitVec.toNat_ofNat]
    change (nrmOut a b).2.toNat / 8 % _ = _
    rw [hfrac]
    rcases Nat.lt_or_eq_of_le hhi with hlt | heq
    · rw [Nat.div_eq_of_lt hlt, pow_zero, Nat.div_one]
    · rw [heq, Nat.div_self (Nat.two_pow_pos _), pow_one, pow_succ, Nat.mul_div_cancel _ two_pos,
        Nat.mod_self, Nat.mul_mod_right]

/-- The exact product on the scale of its unit. -/
theorem value_mul (ha : IsNormal a) (hb : IsNormal b) :
    value a * value b = signed (sign a ^^ sign b) (mulProd a b / mulUnit a b *
      2 ^ ((((exp a).toNat : ℤ) + (exp b).toNat + high a b - f.bias) - f.bias - f.F)) := by
  have hs : ∀ (s t : Bool) (v w : ℝ), signed s v * signed t w = signed (s ^^ t) (v * w) := by
    intro s t v w
    cases s <;> cases t <;> simp
  rw [value_of_normal ha, value_of_normal hb, hs, mulProd, mulUnit_eq]
  congr 1
  rw [show (((exp a).toNat : ℤ) + (exp b).toNat + high a b - f.bias) - f.bias - f.F =
    (((exp a).toNat : ℤ) - f.bias - f.F) + (((exp b).toNat : ℤ) - f.bias - f.F) +
      ((f.F + high a b : ℕ) : ℤ) by push_cast; ring, zpow_add₀ two_ne_zero, zpow_add₀ two_ne_zero,
    zpow_natCast]
  push_cast
  field_simp

/-- The exact condition for a product to be rounded. -/
theorem roundsTo_fpMul (ha : IsNormal a) (hb : IsNormal b)
    (hx : f.RoundsToNormal (value a * value b)) :
    RoundsTo (value a * value b) (fpMul a b) ↔ MulRounds a b := by
  have hn := normalised ha hb
  obtain ⟨hlo, hhi⟩ := kept_bounds ha hb
  have hval := value_mul ha hb
  rw [hval, roundsToNormal_signed] at hx
  obtain ⟨hge, -, htop, -⟩ := hn.range hx
  obtain ⟨e, he⟩ : ∃ e : ℕ, ((exp a).toNat : ℤ) + (exp b).toNat + high a b - f.bias = e :=
    Int.eq_ofNat_of_zero_le hge
  rw [he] at hx hval htop
  have henc := fpMul_eq ha hb (e := e) (by omega)
  rw [henc, hval, hn.roundsTo_encode (roundsToNormal_signed.mpr hx) hlo hhi]
  have hkept := guard_iff (N := mulProd a b) hn.pos
  have hcases := nearestEven_cases (mulProd a b) (mulUnit a b)
  have hmod := Nat.mod_two_eq_zero_or_one (2 * mulProd a b / mulUnit a b)
  have hbias : (exp a).toNat + (exp b).toNat + (if mulHigh a b then 1 else 0) = f.bias ↔ e = 0 := by
    change (exp a).toNat + (exp b).toNat + high a b = f.bias ↔ e = 0
    omega
  unfold MulRounds
  by_cases h0 : e = 0
  · have hq : mulProd a b / mulUnit a b = 2 ^ (f.F + 1) - 1 := by
      have h1 := (Nat.le_div_iff_mul_le hn.pos).mpr (htop (by rw [h0]; rfl))
      have h2 := (Nat.div_lt_iff_lt_mul hn.pos).mpr hn.lt
      omega
    have hpos := Nat.two_pow_pos (f.F + 1)
    rw [if_pos h0, if_pos (hbias.mpr h0), ← hkept, kept, hq]
    omega
  · rw [if_neg h0, if_neg (mt hbias.mp h0), kept]
    omega

end FpMul

open FpMul in
/-- For normal operands whose product rounds to a normal number, what leaves `fp_mul` `MUL_LAT`
cycles later is the rounded product just when the product is no tie above an even significand. -/
theorem fpMul_rounds_iff {d : ℕ} (r : DelayLine.Line (BitVec f.W) d) (i : FpMulIn f)
    (later : List (FpMulIn f)) (hlater : later.length = d) (ha : IsNormal i.a) (hb : IsNormal i.b)
    (hx : f.RoundsToNormal (value i.a * value i.b)) :
    RoundsTo (value i.a * value i.b) (DelayLine.out (run fpMulStep r (i :: later))) ↔
      MulRounds i.a i.b := by
  have hout : DelayLine.out (run fpMulStep r (i :: later)) = fpMul i.a i.b :=
    DelayLine.out_run_map (fun i : FpMulIn f => fpMul i.a i.b) r i later hlater
  rw [hout, roundsTo_fpMul ha hb hx]

/-- 1.5 times 1.5, through four registers. -/
theorem fpMul_rounds_iff_square :
    let a := encode single false 127 (3 * 2 ^ 22)
    let i : FpMulIn single := ⟨a, a⟩
    RoundsTo (value i.a * value i.b)
      (DelayLine.out (run fpMulStep (fun _ => 0 : DelayLine.Line (BitVec single.W) 3) [i, i, i, i])) := by
  intro a i
  have hnorm : IsNormal i.a := isNormal_encode (by decide) (by decide)
  have hval : value i.a * value i.b = value (encode single false 128 (9 * 2 ^ 20)) := by
    have hb : single.bias = 127 := by decide
    rw [value_encode (by decide) (by decide) (by decide) (by decide),
      value_encode (by decide) (by decide) (by decide) (by decide), hb]
    norm_num
  refine (fpMul_rounds_iff _ i [i, i, i] rfl hnorm hnorm ?_).mpr (by decide)
  rw [hval]
  exact roundsToNormal_value (isNormal_encode (by decide) (by decide))

/-- The square of 1 + 2^-12 is a tie above an even significand, and is rounded up. -/
theorem not_roundsTo_fpMul :
    let a := encode single false 127 (2 ^ 23 + 2 ^ 11)
    IsNormal a ∧ single.RoundsToNormal (value a * value a) ∧
      ¬RoundsTo (value a * value a) (fpMul a a) := by
  intro a
  have hnorm : IsNormal a := isNormal_encode (by decide) (by decide)
  have hx : single.RoundsToNormal (value a * value a) := by
    have hexp : (exp a).toNat = 127 := by decide
    have hhigh : FpMul.high a a = 0 := by decide
    have hb : single.bias = 127 := by decide
    rw [FpMul.value_mul hnorm hnorm, hexp, hhigh, hb]
    exact (FpMul.normalised hnorm hnorm).roundsToNormal (e := 127) (by decide)
      (Or.inl (by decide))
  refine ⟨hnorm, hx, ?_⟩
  rw [FpMul.roundsTo_fpMul hnorm hnorm hx]
  decide

end MipsCore
