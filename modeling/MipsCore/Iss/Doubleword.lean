import MipsCore.Iss.Integer
import Mathlib.Tactic.Linarith
import Mathlib.Tactic.Positivity

/-! # Arithmetic of 64-bit mode

The doubleword sums and the word sums and shifts, decoded and executed by the integer
unit in 64-bit mode, against the results that the architecture gives them and against
the interpreter `interpret64.cc`.
-/
namespace MipsCore

/-! ## The 64-bit interpreter -/

/-- The part of `state64_t` that the arms below read and write. -/
structure Iss64 where
  pc : Word
  gpr : ArchReg → Word

def u32toi64 (u : BitVec 32) : Word := u.signExtend 64

namespace Iss64
open Iss (opcode funct rs rt rd sa)
variable (s : Iss64) (inst : BitVec 32)

def simm64 : Word := (inst.extractLsb' 0 16).signExtend 64
def uimm64 : Word := (inst.extractLsb' 0 16).setWidth 64

/-- A register write followed by the next instruction. -/
def write (r : ArchReg) (v : Word) : Option Iss64 :=
  some { s with pc := s.pc + 4, gpr := Function.update s.gpr r v }

/-- The arms of major opcode 0 for shifts, sums, logic, comparisons and conditional moves. -/
def rtype : Option Iss64 :=
  match (funct inst).toNat with
  | 0x00 => s.write (rd inst) (s.gpr (rt inst) <<< (sa inst).toNat)
  | 0x02 => s.write (rd inst) ((lo32 (s.gpr (rt inst)) >>> (sa inst).toNat).setWidth 64)
  | 0x03 => s.write (rd inst) ((s.gpr (rt inst)).sshiftRight (sa inst).toNat)
  | 0x04 => s.write (rd inst) (s.gpr (rt inst) <<< (s.gpr (rs inst) &&& 0x1f).toNat)
  | 0x06 =>
    s.write (rd inst) ((lo32 (s.gpr (rt inst)) >>> (s.gpr (rs inst) &&& 0x1f).toNat).setWidth 64)
  | 0x07 => s.write (rd inst) ((s.gpr (rt inst)).sshiftRight (s.gpr (rs inst) &&& 0x1f).toNat)
  | 0x0a => s.write (rd inst) (if s.gpr (rt inst) = 0 then s.gpr (rs inst) else s.gpr (rd inst))
  | 0x0b => s.write (rd inst) (if s.gpr (rt inst) ≠ 0 then s.gpr (rs inst) else s.gpr (rd inst))
  | 0x21 => s.write (rd inst) (u32toi64 (lo32 (s.gpr (rs inst)) + lo32 (s.gpr (rt inst))))
  | 0x23 => s.write (rd inst) (u32toi64 (lo32 (s.gpr (rs inst)) - lo32 (s.gpr (rt inst))))
  | 0x24 => s.write (rd inst) (s.gpr (rs inst) &&& s.gpr (rt inst))
  | 0x25 => s.write (rd inst) (s.gpr (rs inst) ||| s.gpr (rt inst))
  | 0x26 => s.write (rd inst) (s.gpr (rs inst) ^^^ s.gpr (rt inst))
  | 0x27 => s.write (rd inst) (~~~(s.gpr (rs inst) ||| s.gpr (rt inst)))
  | 0x2a => s.write (rd inst) (flag ((s.gpr (rs inst)).slt (s.gpr (rt inst))))
  | 0x2b => s.write (rd inst) (flag ((lo32 (s.gpr (rs inst))).ult (lo32 (s.gpr (rt inst)))))
  | _ => none

/-- The immediate arms. -/
def itype : Option Iss64 :=
  match (opcode inst).toNat with
  | 0x08 => s.write (rt inst) (s.gpr (rs inst) + simm64 inst)
  | 0x09 => s.write (rt inst) (s.gpr (rs inst) + simm64 inst)
  | 0x0a => s.write (rt inst) (flag ((s.gpr (rs inst)).slt (simm64 inst)))
  | 0x0b => s.write (rt inst) (flag ((s.gpr (rs inst)).ult (simm64 inst)))
  | 0x0c => s.write (rt inst) (s.gpr (rs inst) &&& uimm64 inst)
  | 0x0d => s.write (rt inst) (s.gpr (rs inst) ||| uimm64 inst)
  | 0x0e => s.write (rt inst) (s.gpr (rs inst) ^^^ uimm64 inst)
  | 0x0f => s.write (rt inst) (u32toi64 (Iss.uimm32 inst <<< 16))
  | _ => none

/-- `execMips` of `interpret64.cc`; `none` also stands for the other instructions. -/
def execMips : Option Iss64 :=
  match (opcode inst).toNat with
  | 0 => s.rtype inst
  | _ => s.itype inst

end Iss64

/-! ## The instructions -/

inductive Arith64
  | DADDU | DSUBU | DADDIU | ADDU | SUBU | ADDIU | SLL | SRL | SRA | SLLV | SRLV | SRAV
  deriving DecidableEq, Repr

namespace Arith64
open Iss (opcode funct rs rt rd sa dstReg)

def major : Arith64 → ℕ
  | .DADDIU => 0x19
  | .ADDIU => 0x09
  | _ => 0

/-- The function code of an instruction of major opcode 0. -/
def function : Arith64 → ℕ
  | .DADDU => 0x2d
  | .DSUBU => 0x2f
  | .ADDU => 0x21
  | .SUBU => 0x23
  | .SRL => 0x02
  | .SRA => 0x03
  | .SLLV => 0x04
  | .SRLV => 0x06
  | .SRAV => 0x07
  | .SLL | .DADDIU | .ADDIU => 0

def Encodes (k : Arith64) (w : BitVec 32) : Prop :=
  (opcode w).toNat = k.major ∧ (k.major = 0 → (funct w).toNat = k.function)

def isWord : Arith64 → Bool
  | .DADDU | .DSUBU | .DADDIU => false
  | _ => true

/-- The operand is the sign extension of its low half. -/
def SignExtended (x : Word) : Prop := x = (lo32 x).signExtend 64

/-- The operands that a word instruction expects. -/
def Operands (k : Arith64) (x y : Word) : Prop :=
  match k with
  | .DADDU | .DSUBU | .DADDIU => True
  | .ADDIU => SignExtended x
  | .SLL | .SRL | .SRA => SignExtended y
  | .ADDU | .SUBU | .SLLV | .SRLV | .SRAV => SignExtended x ∧ SignExtended y

/-- The result that the architecture defines, of the registers `rs` and `rt`. -/
def result (k : Arith64) (w : BitVec 32) (x y : Word) : Word :=
  match k with
  | .DADDU => x + y
  | .DSUBU => x - y
  | .DADDIU => x + (w.extractLsb' 0 16).signExtend 64
  | .ADDU => (lo32 x + lo32 y).signExtend 64
  | .SUBU => (lo32 x - lo32 y).signExtend 64
  | .ADDIU => (lo32 x + (w.extractLsb' 0 16).signExtend 32).signExtend 64
  | .SLL => (lo32 y <<< (sa w).toNat).signExtend 64
  | .SRL => (lo32 y >>> (sa w).toNat).signExtend 64
  | .SRA => ((lo32 y).sshiftRight (sa w).toNat).signExtend 64
  | .SLLV => (lo32 y <<< (x.setWidth 5).toNat).signExtend 64
  | .SRLV => (lo32 y >>> (x.setWidth 5).toNat).signExtend 64
  | .SRAV => ((lo32 y).sshiftRight (x.setWidth 5).toNat).signExtend 64

/-- The integer is a signed word. -/
def Fits (z : ℤ) : Prop := -2 ^ 31 ≤ z ∧ z < 2 ^ 31

instance (z : ℤ) : Decidable (Fits z) := inferInstanceAs (Decidable (_ ∧ _))

/-- When the unit returns the result: its sums, differences and left shifts are not truncated,
its logical right shifts move the sign extension, and DSUBU adds. -/
def Holds (k : Arith64) (w : BitVec 32) (x y : Word) : Prop :=
  match k with
  | .DSUBU => y + y = 0
  | .ADDU => Fits ((lo32 x).toInt + (lo32 y).toInt)
  | .SUBU => Fits ((lo32 x).toInt - (lo32 y).toInt)
  | .ADDIU => rs w = 0 → x = 0
  | .SLL => Fits ((lo32 y).toInt * 2 ^ (sa w).toNat)
  | .SLLV => Fits ((lo32 y).toInt * 2 ^ (x.setWidth 5).toNat)
  | .SRL => sa w = 0 ∨ 0 ≤ (lo32 y).toInt
  | .SRLV => x.setWidth 5 = 0 ∨ 0 ≤ (lo32 y).toInt
  | .DADDU | .DADDIU | .SRA | .SRAV => True

/-- When the interpreter returns the result of a word instruction. -/
def IssHolds (k : Arith64) (w : BitVec 32) (x y : Word) : Prop :=
  match k with
  | .ADDIU => Fits ((lo32 x).toInt + ((w.extractLsb' 0 16).signExtend 32).toInt)
  | .SLL => Fits ((lo32 y).toInt * 2 ^ (sa w).toNat)
  | .SLLV => Fits ((lo32 y).toInt * 2 ^ (x.setWidth 5).toNat)
  | .SRL => sa w ≠ 0 ∨ 0 ≤ (lo32 y).toInt
  | .SRLV => x.setWidth 5 ≠ 0 ∨ 0 ≤ (lo32 y).toInt
  | _ => True

/-! ## Values -/

theorem toInt_signExtend (x : BitVec 32) : (x.signExtend 64).toInt = x.toInt :=
  BitVec.toInt_signExtend_of_le (by decide)

theorem toInt_bounds (x : BitVec 32) : -2 ^ 31 ≤ x.toInt ∧ x.toInt < 2 ^ 31 :=
  ⟨BitVec.le_toInt x, BitVec.toInt_lt⟩

/-- A doubleword is a sign-extended word exactly when its value is one. -/
theorem signExtended_iff (z : Word) : SignExtended z ↔ Fits z.toInt := by
  have hlo : (lo32 z).toInt = z.toInt.bmod (2 ^ 32) := by
    rw [lo32_eq, BitVec.toInt_setWidth, BitVec.toInt_eq_toNat_bmod,
      Int.bmod_bmod_of_dvd (by decide)]
  rw [SignExtended, ← BitVec.toInt_inj, toInt_signExtend, hlo, Fits, Int.bmod]
  omega

theorem toInt_add {x y : BitVec 32} :
    (x.signExtend 64 + y.signExtend 64).toInt = x.toInt + y.toInt := by
  have hx := toInt_bounds x
  have hy := toInt_bounds y
  rw [BitVec.toInt_add, toInt_signExtend, toInt_signExtend]
  exact Int.bmod_eq_of_le (by omega) (by omega)

theorem toInt_sub {x y : BitVec 32} :
    (x.signExtend 64 - y.signExtend 64).toInt = x.toInt - y.toInt := by
  have hx := toInt_bounds x
  have hy := toInt_bounds y
  rw [BitVec.toInt_sub, toInt_signExtend, toInt_signExtend]
  exact Int.bmod_eq_of_le (by omega) (by omega)

theorem toInt_shiftLeft {x : BitVec 32} {n : ℕ} (hn : n < 32) :
    (x.signExtend 64 <<< n).toInt = x.toInt * 2 ^ n := by
  obtain ⟨hl, hu⟩ := toInt_bounds x
  have hp : (2 : ℤ) ^ n ≤ 2 ^ 31 := pow_le_pow_right₀ (by decide) (by omega)
  have hp0 : (0 : ℤ) < 2 ^ n := by positivity
  have h1 : x.toInt * 2 ^ n < 2 ^ 31 * 2 ^ 31 :=
    calc x.toInt * 2 ^ n < 2 ^ 31 * 2 ^ n := mul_lt_mul_of_pos_right hu hp0
      _ ≤ 2 ^ 31 * 2 ^ 31 := mul_le_mul_of_nonneg_left hp (by decide)
  have h2 : -2 ^ 31 * 2 ^ 31 ≤ x.toInt * 2 ^ n :=
    calc (-2 ^ 31 * 2 ^ 31 : ℤ) ≤ -2 ^ 31 * 2 ^ n := mul_le_mul_of_nonpos_left hp (by decide)
      _ ≤ x.toInt * 2 ^ n := mul_le_mul_of_nonneg_right hl hp0.le
  rw [BitVec.shiftLeft_eq_mul_twoPow, BitVec.toInt_mul, toInt_signExtend,
    BitVec.toInt_twoPow]
  rw [if_neg (by omega), if_neg (by omega)]
  exact Int.bmod_eq_of_le (by omega) (by omega)

/-- A result whose low half is right is right exactly when it is a signed word. -/
theorem eq_signExtend_iff {z : Word} {r : BitVec 32} (h : lo32 z = r) :
    z = r.signExtend 64 ↔ Fits z.toInt := by
  rw [← signExtended_iff, SignExtended, h]

theorem toNat_signExtend (x : BitVec 32) :
    (x.signExtend 64).toNat = if x.toNat < 2 ^ 31 then x.toNat else x.toNat + (2 ^ 64 - 2 ^ 32) := by
  rw [BitVec.toNat_signExtend, BitVec.toNat_setWidth, BitVec.msb_eq_decide]
  have := x.isLt
  split_ifs <;> simp_all <;> omega

theorem toInt_nonneg_iff (x : BitVec 32) : 0 ≤ x.toInt ↔ x.toNat < 2 ^ 31 := by
  rw [BitVec.toInt_eq_toNat_cond]
  split_ifs <;> omega

theorem shiftRight_eq_iff {x : BitVec 32} {n : BitVec 5} :
    x.signExtend 64 >>> n.toNat = (x >>> n.toNat).signExtend 64 ↔ n = 0 ∨ 0 ≤ x.toInt := by
  have hn := n.isLt
  have hp : 2 ^ n.toNat ≤ 2 ^ 31 := Nat.pow_le_pow_right (by decide) (by omega)
  rw [toInt_nonneg_iff, ← BitVec.toNat_inj, ← BitVec.toNat_inj, toNat_signExtend,
    BitVec.toNat_ushiftRight, BitVec.toNat_ushiftRight, toNat_signExtend, Nat.shiftRight_eq_div_pow,
    Nat.shiftRight_eq_div_pow]
  rcases Nat.eq_zero_or_pos n.toNat with h0 | h0
  · simp [h0]
  have h2 : 2 ≤ 2 ^ n.toNat := Nat.le_self_pow h0.ne' 2
  have hhalf : x.toNat / 2 ^ n.toNat ≤ x.toNat / 2 := Nat.div_le_div_left h2 (by decide)
  have hx := x.isLt
  rw [if_pos (show x.toNat / 2 ^ n.toNat < 2 ^ 31 by omega)]
  by_cases hneg : x.toNat < 2 ^ 31
  · simp only [hneg, if_true, or_true]
  · have hmul : 4294967296 * 2 ^ n.toNat ≤ x.toNat + (2 ^ 64 - 2 ^ 32) := by omega
    have hbig := (Nat.le_div_iff_mul_le (Nat.two_pow_pos n.toNat)).mpr hmul
    rw [if_neg hneg]
    simp only [hneg, or_false]
    change _ ↔ n.toNat = 0
    omega

theorem shiftRight_setWidth_iff {x : BitVec 32} {n : BitVec 5} :
    (x >>> n.toNat).setWidth 64 = (x >>> n.toNat).signExtend 64 ↔ n ≠ 0 ∨ 0 ≤ x.toInt := by
  rw [toInt_nonneg_iff, ← BitVec.toNat_inj, ne_eq, ← BitVec.toNat_inj, toNat_signExtend,
    BitVec.toNat_setWidth, BitVec.toNat_ushiftRight, Nat.shiftRight_eq_div_pow]
  have hx := x.isLt
  rcases Nat.eq_zero_or_pos n.toNat with h0 | h0
  · simp only [h0, pow_zero, Nat.div_one]
    change _ ↔ ¬(0 = 0) ∨ _
    split_ifs <;> omega
  have h2 : 2 ≤ 2 ^ n.toNat := Nat.le_self_pow h0.ne' 2
  have hhalf : x.toNat / 2 ^ n.toNat ≤ x.toNat / 2 := Nat.div_le_div_left h2 (by decide)
  rw [if_pos (show x.toNat / 2 ^ n.toNat < 2 ^ 31 by omega), Nat.mod_eq_of_lt (by omega)]
  change _ ↔ ¬(n.toNat = 0) ∨ _
  omega

theorem sshiftRight_signExtend {x : BitVec 32} {n : ℕ} :
    (x.signExtend 64).sshiftRight n = (x.sshiftRight n).signExtend 64 := by
  rw [← BitVec.toInt_inj, BitVec.toInt_sshiftRight, toInt_signExtend, toInt_signExtend,
    BitVec.toInt_sshiftRight]

/-- A shift amount is the low five bits of its register. -/
theorem toNat_amount (x : Word) : (x &&& 0x1f).toNat = (x.setWidth 5).toNat := by
  simp [Nat.and_two_pow_sub_one_eq_mod x.toNat 5]

theorem add_eq_sub_iff {x y : Word} : x + y = x - y ↔ y + y = 0 := by
  rw [← BitVec.toNat_inj, ← BitVec.toNat_inj, BitVec.toNat_add, BitVec.toNat_sub, BitVec.toNat_add]
  have hx := x.isLt
  have hy := y.isLt
  change _ ↔ _ = 0
  omega

/-! ## What the unit and the interpreter compute -/

/-- What the decoded instruction makes the unit compute. -/
def unitResult (k : Arith64) (w : BitVec 32) (x y : Word) : Word :=
  match k with
  | .DADDU | .DSUBU | .ADDU => y + x
  | .DADDIU => x + (w.extractLsb' 0 16).signExtend 64
  | .SUBU => x - y
  | .ADDIU =>
    if rs w = 0 then ((w.extractLsb' 0 16).signExtend 32).signExtend 64
    else (lo32 x + (w.extractLsb' 0 16).signExtend 32).signExtend 64
  | .SLL => y <<< (sa w).toNat
  | .SRL => y >>> (sa w).toNat
  | .SRA => ((lo32 y).sshiftRight (sa w).toNat).signExtend 64
  | .SLLV => y <<< (x.setWidth 5).toNat
  | .SRLV => y >>> (x.setWidth 5).toNat
  | .SRAV => ((lo32 y).sshiftRight (x.setWidth 5).toNat).signExtend 64

/-- What the interpreter computes for a word instruction. -/
def issResult (k : Arith64) (w : BitVec 32) (x y : Word) : Word :=
  match k with
  | .ADDIU => x + (w.extractLsb' 0 16).signExtend 64
  | .SLL => y <<< (sa w).toNat
  | .SRL => (lo32 y >>> (sa w).toNat).setWidth 64
  | .SRA => y.sshiftRight (sa w).toNat
  | .SLLV => y <<< (x.setWidth 5).toNat
  | .SRLV => (lo32 y >>> (x.setWidth 5).toNat).setWidth 64
  | .SRAV => y.sshiftRight (x.setWidth 5).toNat
  | k => k.result w x y

theorem add_self_cancel {x y : BitVec 32} : y = x + y ↔ x = 0 := by
  rw [← BitVec.toNat_inj, ← BitVec.toNat_inj, BitVec.toNat_add]
  have hx := x.isLt
  have hy := y.isLt
  change _ ↔ _ = 0
  omega

theorem signExtend_inj {x y : BitVec 32} : x.signExtend 64 = y.signExtend 64 ↔ x = y :=
  ⟨fun h => by rw [← lo32_signExtend x, h, lo32_signExtend], fun h => by rw [h]⟩

theorem unitResult_eq_iff {k : Arith64} {w : BitVec 32} {x y : Word} (h : k.Operands x y) :
    k.unitResult w x y = k.result w x y ↔ k.Holds w x y := by
  cases k with
  | DADDU => exact iff_of_true (BitVec.add_comm y x) trivial
  | DADDIU => exact iff_of_true rfl trivial
  | SRA => exact iff_of_true rfl trivial
  | SRAV => exact iff_of_true rfl trivial
  | DSUBU =>
    simp only [unitResult, result, Holds]
    rw [BitVec.add_comm y x]
    exact add_eq_sub_iff
  | ADDU =>
    obtain ⟨hx, hy⟩ := h
    simp only [unitResult, result, Holds]
    rw [BitVec.add_comm y x, eq_signExtend_iff (lo32_add x y)]
    nth_rewrite 1 [hx, hy]
    rw [toInt_add]
  | SUBU =>
    obtain ⟨hx, hy⟩ := h
    simp only [unitResult, result, Holds]
    rw [eq_signExtend_iff (lo32_sub x y)]
    nth_rewrite 1 [hx, hy]
    rw [toInt_sub]
  | ADDIU =>
    replace h : x = (lo32 x).signExtend 64 := h
    simp only [unitResult, result, Holds]
    by_cases hrs : rs w = 0
    · have hx : x = 0 ↔ lo32 x = 0 := by
        refine ⟨fun hx => by rw [hx]; rfl, fun hx => ?_⟩
        rw [h, hx]
        rfl
      rw [if_pos hrs, signExtend_inj, add_self_cancel, hx]
      exact ⟨fun h _ => h, fun h => h hrs⟩
    · rw [if_neg hrs]
      exact iff_of_true rfl fun h => absurd h hrs
  | SLL =>
    replace h : y = (lo32 y).signExtend 64 := h
    simp only [unitResult, result, Holds]
    rw [eq_signExtend_iff (lo32_shiftLeft y _)]
    nth_rewrite 1 [h]
    rw [toInt_shiftLeft (sa w).isLt]
  | SRL =>
    replace h : y = (lo32 y).signExtend 64 := h
    simp only [unitResult, result, Holds]
    nth_rewrite 1 [h]
    exact shiftRight_eq_iff
  | SLLV =>
    replace h : y = (lo32 y).signExtend 64 := h.2
    simp only [unitResult, result, Holds]
    rw [eq_signExtend_iff (lo32_shiftLeft y _)]
    nth_rewrite 1 [h]
    rw [toInt_shiftLeft (x.setWidth 5).isLt]
  | SRLV =>
    replace h : y = (lo32 y).signExtend 64 := h.2
    simp only [unitResult, result, Holds]
    nth_rewrite 1 [h]
    exact shiftRight_eq_iff

theorem issResult_eq_iff {k : Arith64} {w : BitVec 32} {x y : Word} (h : k.Operands x y) :
    k.issResult w x y = k.result w x y ↔ k.IssHolds w x y := by
  cases k with
  | DADDU => exact iff_of_true rfl trivial
  | DADDIU => exact iff_of_true rfl trivial
  | DSUBU => exact iff_of_true rfl trivial
  | ADDU => exact iff_of_true rfl trivial
  | SUBU => exact iff_of_true rfl trivial
  | ADDIU =>
    replace h : x = (lo32 x).signExtend 64 := h
    simp only [issResult, result, IssHolds]
    have himm : (w.extractLsb' 0 16).signExtend 64 =
        ((w.extractLsb' 0 16).signExtend 32).signExtend 64 := by
      rw [← BitVec.toInt_inj, toInt_signExtend, BitVec.toInt_signExtend_of_le (by decide),
        BitVec.toInt_signExtend_of_le (by decide)]
    have hlo : lo32 (x + ((w.extractLsb' 0 16).signExtend 32).signExtend 64) =
        lo32 x + (w.extractLsb' 0 16).signExtend 32 := by
      rw [lo32_add, lo32_signExtend]
    rw [himm, eq_signExtend_iff hlo]
    nth_rewrite 1 [h]
    rw [toInt_add]
  | SLL => exact unitResult_eq_iff (k := .SLL) h
  | SLLV => exact unitResult_eq_iff (k := .SLLV) h
  | SRA =>
    replace h : y = (lo32 y).signExtend 64 := h
    refine iff_of_true ?_ trivial
    simp only [issResult, result]
    nth_rewrite 1 [h]
    exact sshiftRight_signExtend
  | SRAV =>
    replace h : y = (lo32 y).signExtend 64 := h.2
    refine iff_of_true ?_ trivial
    simp only [issResult, result]
    nth_rewrite 1 [h]
    exact sshiftRight_signExtend
  | SRL => exact shiftRight_setWidth_iff
  | SRLV => exact shiftRight_setWidth_iff

/-! ## The decoded instructions -/

/-- The unit returns the result of the instruction, to its destination. -/
def Returns (k : Arith64) (m : Bool) (f : InsnFetch) (v : RegView) (a : AluIn) : Prop :=
  aluWrite (decodeMips32 m f) a =
      some (dstReg f.data, k.result f.data (v.gpr (rs f.data)) (v.gpr (rt f.data))) ∧
    (Alu.run a).unimpOp = false

/-- The interpreter returns the result of the instruction. -/
def IssReturns (k : Arith64) (w : BitVec 32) (s : Iss64) : Prop :=
  s.execMips w = s.write (dstReg w) (k.result w (s.gpr (rs w)) (s.gpr (rt w)))

theorem write_inj {s : Iss64} {r : ArchReg} {x y : Word} : s.write r x = s.write r y ↔ x = y := by
  refine ⟨fun h => ?_, fun h => by rw [h]⟩
  have hg := congrFun (congrArg Iss64.gpr (Option.some.inj h)) r
  simpa using hg

section Decoded
variable {k : Arith64} {m : Bool} {f : InsnFetch} {v : RegView} {a : AluIn} {s : Iss64}

theorem doubleword_eq (h64 : a.in32bMode = false) (z : Word) :
    Alu.doubleword a z = Alu.writes a z := by
  simp only [Alu.doubleword, h64]
  rfl

theorem returns_iff {u : Uop} {op : Opcode} {z : Word} (h64 : a.in32bMode = false)
    (hu : decodeMips32 m f = u)
    (hw : u.op = op ∧ Core.folds u = false ∧ u.dstValid = true ∧ u.dst = (dstReg f.data).setWidth 6)
    (hop : a.uop.op = u.op) (hrun : a.uop.op = op → Alu.run a = Alu.writes a z) :
    k.Returns m f v a ↔ z = k.result f.data (v.gpr (rs f.data)) (v.gpr (rt f.data)) := by
  obtain ⟨hsome, hfold, hval, hdst⟩ := hw
  have hr := hrun (hop.trans hsome)
  have hun : (Alu.run a).unimpOp = false := by rw [hr]; rfl
  have hwr : aluWrite (decodeMips32 m f) a = some (dstReg f.data, z) := by
    simp [aluWrite, hu, hfold, hval, hdst, hr, h64, Alu.writes, Alu.done, narrow]
  rw [Returns, hwr, and_iff_left hun, Option.some_inj, Prod.mk.injEq, and_iff_right rfl]

variable (hx : Executes v (decodeMips32 m f) a) (h64 : a.in32bMode = false)
include hx h64

theorem gprA_eq {u : Uop} {r : ArchReg} (hu : decodeMips32 m f = u) (h : u.srcA = r.setWidth 6)
    (hv : u.srcAValid = true) (hf : u.fpSrcAValid = false) : a.srcA = v.gpr r := by
  rw [hu] at hx
  rw [hx.srcA hv hf, h, h64, setWidth_setWidth_archReg]
  rfl

theorem gprB_eq {u : Uop} {r : ArchReg} (hu : decodeMips32 m f = u) (h : u.srcB = r.setWidth 6)
    (hv : u.srcBValid = true) (hf : u.fpSrcBValid = false) : a.srcB = v.gpr r := by
  rw [hu] at hx
  rw [hx.srcB hv hf, h, h64, setWidth_setWidth_archReg]
  rfl

/-- Two register sources into `rd`. -/
theorem returns_twoSrc {op : Opcode} {p q : PrfPtr} {rA rB : ArchReg} {z : Word}
    (hu : decodeMips32 m f = Decode.twoSrc f.data op p q (startUop f)) (hp : p = rA.setWidth 6)
    (hq : q = rB.setWidth 6) (hop : Core.folds { op := op } = false)
    (hdst : dstReg f.data = rd f.data) (hd : dstReg f.data ≠ 0)
    (hrun : a.uop.op = op → a.srcA = v.gpr rA → a.srcB = v.gpr rB → Alu.run a = Alu.writes a z) :
    k.Returns m f v a ↔ z = k.result f.data (v.gpr (rs f.data)) (v.gpr (rt f.data)) := by
  have hA := gprA_eq hx h64 hu hp rfl rfl
  have hB := gprB_eq hx h64 hu hq rfl rfl
  exact returns_iff h64 rfl (rdOp_writes hu hop hdst hd) hx.op fun h => hrun h hA hB

/-- A shift by a constant amount. -/
theorem returns_shiftImm {op : Opcode} {z : Word}
    (hu : decodeMips32 m f = Decode.shiftImm f.data op (startUop f))
    (hop : Core.folds { op := op } = false) (hdst : dstReg f.data = rd f.data)
    (hd : dstReg f.data ≠ 0)
    (hrun : a.uop.op = op → a.srcA = v.gpr (rt f.data) → a.uop.srcB = (sa f.data).setWidth 6 →
      Alu.run a = Alu.writes a z) :
    k.Returns m f v a ↔ z = k.result f.data (v.gpr (rs f.data)) (v.gpr (rt f.data)) := by
  have hA := gprA_eq hx h64 hu (r := rt f.data) rfl rfl rfl
  have hB : a.uop.srcB = (sa f.data).setWidth 6 := (hu ▸ hx).rawB rfl rfl
  exact returns_iff h64 rfl (rdOp_writes hu hop hdst hd) hx.op fun h => hrun h hA hB

/-- A register and an immediate into `rt`. -/
theorem returns_aluImm {op : Opcode} {z : Word}
    (hu : decodeMips32 m f = Decode.aluImm f.data op (startUop f))
    (hop : Core.folds { op := op } = false) (hdst : dstReg f.data = rt f.data)
    (hd : dstReg f.data ≠ 0)
    (hrun : a.uop.op = op → a.srcA = v.gpr (rs f.data) → a.uop.imm = f.data.extractLsb' 0 16 →
      Alu.run a = Alu.writes a z) :
    k.Returns m f v a ↔ z = k.result f.data (v.gpr (rs f.data)) (v.gpr (rt f.data)) := by
  have hA := gprA_eq hx h64 hu (r := rs f.data) rfl rfl rfl
  have hI : a.uop.imm = f.data.extractLsb' 0 16 := (hu ▸ hx).imm
  exact returns_iff h64 rfl (rtImm_writes hu hop hdst hd) hx.op fun h => hrun h hA hI

theorem returns_unitResult (hk : k.Encodes f.data) (hd : dstReg f.data ≠ 0) :
    k.Returns m f v a ↔
      k.unitResult f.data (v.gpr (rs f.data)) (v.gpr (rt f.data)) =
        k.result f.data (v.gpr (rs f.data)) (v.gpr (rt f.data)) := by
  obtain ⟨hop, hfn⟩ := hk
  have hop' : (Decode.opcode f.data).toNat = k.major := hop
  cases k with
  | DADDIU =>
    have hdst : dstReg f.data = rt f.data := by simp [dstReg, hop, major]
    have hu : decodeMips32 m f = Decode.aluImm f.data .DADDIU (startUop f) := by
      simp only [decodeMips32, Decode.majorOp, hop', major, startUop]
    refine returns_aluImm hx h64 hu rfl hdst hd fun h hA hI => ?_
    simp only [Alu.run, h, Alu.simm, doubleword_eq h64, hA, hI]
    rfl
  | ADDIU =>
    have hdst : dstReg f.data = rt f.data := by simp [dstReg, hop, major]
    have hu : decodeMips32 m f = if Decode.rs f.data = 0 then Decode.rtImm f.data .MOVI (startUop f)
        else Decode.aluImm f.data .ADDIU (startUop f) := by
      simp only [decodeMips32, Decode.majorOp, hop', major, startUop]
    by_cases hrs : rs f.data = 0
    · rw [if_pos (show Decode.rs f.data = 0 from setWidth_eq_zero.mpr hrs)] at hu
      have hI : a.uop.imm = f.data.extractLsb' 0 16 := (hu ▸ hx).imm
      refine returns_iff h64 rfl (rtImm_writes hu rfl hdst hd) hx.op fun h => ?_
      simp only [Alu.run, h, Alu.simm, hI, signExtend_of_signExtend, unitResult, if_pos hrs]
    · rw [if_neg (show Decode.rs f.data ≠ 0 from fun h => hrs (setWidth_eq_zero.mp h))] at hu
      refine returns_aluImm hx h64 hu rfl hdst hd fun h hA hI => ?_
      simp only [Alu.run, h, Alu.simm, hA, hI, signExtend_of_signExtend, unitResult, if_neg hrs]
  | SLL =>
    have hdst := dstReg_rtype hop
    have hu := decode_rtype (m := m) hop
    have hfn' : (Decode.funct f.data).toNat = 0 := hfn rfl
    have hrd : Decode.rd f.data ≠ 0 := fun h => hd (hdst.trans (setWidth_eq_zero.mp h))
    have hsll : (Decode.isNop f.data || Decode.isEhb f.data) = false := by
      simp only [Decode.isNop, Decode.isEhb, Bool.or_eq_false_iff, beq_eq_false_iff_ne]
      refine ⟨fun h => ?_, fun h => ?_⟩ <;> exact hrd (by rw [h]; rfl)
    simp only [Decode.rtype, hfn', hsll, Bool.false_eq_true, if_false] at hu
    have hA := gprA_eq hx h64 hu (r := rt f.data) rfl rfl rfl
    have hB : a.uop.srcB = (sa f.data).setWidth 6 := (hu ▸ hx).rawB rfl rfl
    refine returns_iff h64 hu ⟨rfl, rfl, by simpa using hrd, by rw [hdst]; rfl⟩ (hu ▸ hx.op)
      fun h => ?_
    simp only [Alu.run, h, hA, hB, toNat_setWidth_archReg, unitResult]
  | SRL =>
    have hu := decode_rtype (m := m) hop
    have hfn' : (Decode.funct f.data).toNat = 2 := hfn rfl
    simp only [Decode.rtype, hfn'] at hu
    refine returns_shiftImm hx h64 hu rfl (dstReg_rtype hop) hd fun h hA hB => ?_
    simp only [Alu.run, h, hA, hB, toNat_setWidth_archReg, unitResult]
  | SRA =>
    have hu := decode_rtype (m := m) hop
    have hfn' : (Decode.funct f.data).toNat = 3 := hfn rfl
    simp only [Decode.rtype, hfn'] at hu
    refine returns_shiftImm hx h64 hu rfl (dstReg_rtype hop) hd fun h hA hB => ?_
    simp only [Alu.run, h, hA, hB, shiftRight, if_true, setWidth_setWidth_archReg, unitResult]
  | DADDU | DSUBU | ADDU | SUBU | SLLV | SRLV | SRAV =>
    have hu := decode_rtype (m := m) hop
    have hfn' : (Decode.funct f.data).toNat = _ := hfn rfl
    simp only [Decode.rtype, hfn', function] at hu
    refine returns_twoSrc hx h64 hu rfl rfl rfl (dstReg_rtype hop) hd fun h hA hB => ?_
    simp only [Alu.run, h, hA, hB, doubleword_eq h64, shiftRight, if_true, unitResult]
    rfl

end Decoded

theorem execMips_issResult {k : Arith64} {w : BitVec 32} {s : Iss64} (hk : k.Encodes w)
    (hword : k.isWord = true) :
    s.execMips w = s.write (dstReg w) (k.issResult w (s.gpr (rs w)) (s.gpr (rt w))) := by
  obtain ⟨hop, hfn⟩ := hk
  cases k with
  | DADDU | DSUBU | DADDIU => exact absurd hword Bool.false_ne_true
  | ADDIU =>
    have hdst : dstReg w = rt w := by simp [dstReg, hop, major]
    simp only [Iss64.execMips, Iss64.itype, hop, major, hdst, issResult, Iss64.simm64]
  | ADDU | SUBU | SLL | SRL | SRA | SLLV | SRLV | SRAV =>
    have hfn' : (funct w).toNat = _ := hfn rfl
    simp only [Iss64.execMips, Iss64.rtype, hop, major, hfn', function, dstReg_rtype (f := { data := w }) hop,
      issResult, toNat_amount]
    try rfl

/-- In 64-bit mode the unit returns the result of a doubleword sum, or of a word sum or shift on
sign-extended operands, exactly when `Holds`; the interpreter returns that of a word instruction
exactly when `IssHolds`. -/
theorem returns_iff_holds {k : Arith64} {m : Bool} {f : InsnFetch} {v : RegView} {a : AluIn}
    {s : Iss64} (hx : Executes v (decodeMips32 m f) a) (h64 : a.in32bMode = false)
    (hr : s.gpr = v.gpr) (hk : k.Encodes f.data) (hd : dstReg f.data ≠ 0)
    (ho : k.Operands (v.gpr (rs f.data)) (v.gpr (rt f.data))) :
    (k.Returns m f v a ↔ k.Holds f.data (v.gpr (rs f.data)) (v.gpr (rt f.data))) ∧
      (k.isWord = true →
        (k.IssReturns f.data s ↔ k.IssHolds f.data (v.gpr (rs f.data)) (v.gpr (rt f.data)))) := by
  refine ⟨?_, fun hword => ?_⟩
  · rw [returns_unitResult hx h64 hk hd]
    exact unitResult_eq_iff ho
  · rw [IssReturns, execMips_issResult hk hword, write_inj, hr]
    exact issResult_eq_iff ho

/-- The unit reads the operands of `u` straight from `v`, in 64-bit mode. -/
def issue64 (v : RegView) (u : Uop) : AluIn :=
  { v.issue u with
    srcA := v.gpr (u.srcA.setWidth 5), srcB := v.gpr (u.srcB.setWidth 5)
    srcC := v.gpr (u.srcC.setWidth 5), in32bMode := false }

theorem executes_issue64 (v : RegView) (u : Uop) : Executes v u (issue64 v u) := by
  constructor <;> intros <;> rfl

/-- Every register holds its own number. -/
def numbered : RegView := { gpr := fun r => r.setWidth 64, hilo := 0, fcr := 0 }

/-- `addu $1, $2, $3` -/
theorem returns_addu :
    (Arith64.ADDU).Returns false { data := 0x00430821#32 } numbered
        (issue64 numbered (decodeMips32 false { data := 0x00430821#32 })) ∧
      (Arith64.ADDU).IssReturns 0x00430821#32 ⟨0, numbered.gpr⟩ := by
  have ho : (Arith64.ADDU).Operands (numbered.gpr (rs 0x00430821#32))
    (numbered.gpr (rt 0x00430821#32)) := ⟨rfl, rfl⟩
  have h := @returns_iff_holds .ADDU false { data := 0x00430821#32 } numbered _ ⟨0, numbered.gpr⟩
    (executes_issue64 _ _) rfl rfl ⟨by decide, by decide⟩ (by decide) ho
  exact ⟨h.1.mpr ⟨by decide, by decide⟩, (h.2 rfl).mpr trivial⟩

/-- `dsubu $1, $2, $3` returns the sum of its operands. -/
theorem exists_not_returns :
    ¬∀ (k : Arith64) (m : Bool) (f : InsnFetch) (v : RegView) (a : AluIn),
      Executes v (decodeMips32 m f) a → a.in32bMode = false → k.Encodes f.data →
        dstReg f.data ≠ 0 → k.Operands (v.gpr (rs f.data)) (v.gpr (rt f.data)) →
          k.Returns m f v a := by
  intro h
  have hret := h .DSUBU false { data := 0x0043082f#32 } numbered _ (executes_issue64 _ _) rfl
    ⟨by decide, by decide⟩ (by decide) trivial
  exact absurd hret.1 (by decide)

end Arith64
end MipsCore
