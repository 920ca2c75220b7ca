import MipsCore.Machine

/-! # Cache lines and their addresses

Both caches are direct mapped with 4096 sets of 16-byte lines (`LG_L1D_NUM_SETS`,
`LG_L1D_CL_LEN`), and read words out of a line in the same way.
-/
namespace MipsCore

abbrev Line := BitVec 128
abbrev SetIdx := BitVec 12
abbrev CacheTag := BitVec 48

def setOf (addr : Word) : SetIdx := addr.extractLsb' 4 12
def tagOf (addr : Word) : CacheTag := addr.extractLsb' 16 48

def mergeCl64 (cl : Line) (w64 : BitVec 64) (pos : Bool) : Line :=
  if pos then w64 ++ cl.extractLsb' 0 64 else cl.extractLsb' 64 64 ++ w64

def mergeCl32 (cl : Line) (w32 : BitVec 32) (pos : BitVec 2) : Line :=
  match pos.toNat with
  | 0 => cl.extractLsb' 32 96 ++ w32
  | 1 => cl.extractLsb' 64 64 ++ w32 ++ cl.extractLsb' 0 32
  | 2 => cl.extractLsb' 96 32 ++ w32 ++ cl.extractLsb' 0 64
  | _ => w32 ++ cl.extractLsb' 0 96

def selectCl32 (cl : Line) (pos : BitVec 2) : BitVec 32 :=
  match pos.toNat with
  | 0 => cl.extractLsb' 0 32
  | 1 => cl.extractLsb' 32 32
  | 2 => cl.extractLsb' 64 32
  | _ => cl.extractLsb' 96 32

def selectCl64 (cl : Line) (pos : Bool) : BitVec 64 :=
  if pos then cl.extractLsb' 64 64 else cl.extractLsb' 0 64

/-- The line of an address, as memory is asked for it. -/
def lineOf (addr : Word) : Word := addr.extractLsb' 4 60 ++ 0#4
def lineAddr (tag : CacheTag) (idx : SetIdx) : Word := tag ++ idx ++ 0#4
/-- The position of a word in its line. -/
def wordIdx (a : Word) : BitVec 2 := a.extractLsb' 2 2
/-- `L1D_NUM_SETS-1` -/
def lastSet : SetIdx := 4095

/-! ## Lines of addresses -/

theorem lineAddr_eq (a : Word) : lineAddr (tagOf a) (setOf a) = lineOf a := by
  ext k hk
  simp only [lineAddr, lineOf, tagOf, setOf]
  grind

@[simp] theorem setOf_lineOf (a : Word) : setOf (lineOf a) = setOf a := by
  ext k hk
  simp only [lineOf, setOf]
  grind

@[simp] theorem tagOf_lineOf (a : Word) : tagOf (lineOf a) = tagOf a := by
  ext k hk
  simp only [lineOf, tagOf]
  grind

@[simp] theorem setOf_lineAddr (t : CacheTag) (k : SetIdx) : setOf (lineAddr t k) = k := by
  ext j hj
  simp only [lineAddr, setOf]
  grind

@[simp] theorem tagOf_lineAddr (t : CacheTag) (k : SetIdx) : tagOf (lineAddr t k) = t := by
  ext j hj
  simp only [lineAddr, tagOf]
  grind

theorem lineAddr_inj {t t' : CacheTag} {k k' : SetIdx} (h : lineAddr t k = lineAddr t' k') :
    t = t' ∧ k = k' := by
  have ht := congrArg tagOf h
  have hk := congrArg setOf h
  simp only [tagOf_lineAddr, setOf_lineAddr] at ht hk
  exact ⟨ht, hk⟩

/-- Set and tag together name the line. -/
theorem lineOf_inj {a b : Word} (hs : setOf a = setOf b) (ht : tagOf a = tagOf b) :
    lineOf a = lineOf b := by
  rw [← lineAddr_eq, ← lineAddr_eq b, hs, ht]

@[simp] theorem lineOf_lineOf (a : Word) : lineOf (lineOf a) = lineOf a :=
  lineOf_inj (setOf_lineOf a) (tagOf_lineOf a)

theorem setOf_toNat (a : Word) : (setOf a).toNat = a.toNat / 16 % 4096 := by
  simp [setOf, BitVec.extractLsb'_toNat, Nat.shiftRight_eq_div_pow]

theorem tagOf_toNat (a : Word) : (tagOf a).toNat = a.toNat / 65536 % 2 ^ 48 := by
  simp [tagOf, BitVec.extractLsb'_toNat, Nat.shiftRight_eq_div_pow]

theorem lineOf_toNat (a : Word) : (lineOf a).toNat = a.toNat / 16 * 16 := by
  have h := BitVec.toNat_append (a.extractLsb' 4 60) 0#4
  have hlt := a.isLt
  change (lineOf a).toNat = _ at h
  rw [h]
  simp [BitVec.extractLsb'_toNat, Nat.shiftRight_eq_div_pow, Nat.shiftLeft_eq]
  omega

theorem wordIdx_toNat (a : Word) : (wordIdx a).toNat = a.toNat / 4 % 4 := by
  simp [wordIdx, BitVec.extractLsb'_toNat, Nat.shiftRight_eq_div_pow]

/-- Words that follow within the line stay on it. -/
theorem lineOf_add {a : Word} {k : ℕ} (h : (wordIdx a).toNat + k ≤ 3) :
    lineOf (a + BitVec.ofNat 64 (4 * k)) = lineOf a := by
  have hlt := a.isLt
  rw [wordIdx_toNat] at h
  apply BitVec.eq_of_toNat_eq
  rw [lineOf_toNat, lineOf_toNat, BitVec.toNat_add, BitVec.toNat_ofNat]
  omega

theorem wordIdx_add (a : Word) (k : ℕ) :
    wordIdx (a + BitVec.ofNat 64 (4 * k)) = wordIdx a + BitVec.ofNat 2 k := by
  apply BitVec.eq_of_toNat_eq
  rw [BitVec.toNat_add, wordIdx_toNat, wordIdx_toNat, BitVec.toNat_add, BitVec.toNat_ofNat,
    BitVec.toNat_ofNat]
  omega

/-- The set of a word that follows, on the same line or as the first of the next one. -/
theorem setOf_add {a : Word} {k : ℕ} (h : (wordIdx a).toNat + k ≤ 3) :
    setOf (a + BitVec.ofNat 64 (4 * k)) = setOf a := by
  have hlt := a.isLt
  rw [wordIdx_toNat] at h
  apply BitVec.eq_of_toNat_eq
  rw [setOf_toNat, setOf_toNat, BitVec.toNat_add, BitVec.toNat_ofNat]
  omega

theorem setOf_add_next {a : Word} {k : ℕ} (h : (wordIdx a).toNat + k = 4) :
    setOf (a + BitVec.ofNat 64 (4 * k)) = setOf a + 1 := by
  have hlt := a.isLt
  rw [wordIdx_toNat] at h
  apply BitVec.eq_of_toNat_eq
  rw [BitVec.toNat_add, setOf_toNat, setOf_toNat, BitVec.toNat_add, BitVec.toNat_ofNat]
  simp
  omega

end MipsCore
