import MipsCore.L1d.Line
import Mathlib.Tactic.IntervalCases

/-! # Loads and stores of bytes

What loads and stores are to do to a big-endian memory of bytes, and that a cache
line does so.  The one exception is `SWL` at an aligned address.
-/
namespace MipsCore

abbrev Byte := BitVec 8
abbrev Bytes := Word → Byte

def byte {n : ℕ} (w : BitVec n) (k : ℕ) : Byte := w.extractLsb' (8 * k) 8

/-- The low `k` bytes, most significant first. -/
def bigEndian {n : ℕ} (w : BitVec n) (k : ℕ) : List Byte :=
  (List.range k).map fun j => byte w (k - 1 - j)

/-- Memory with bytes written one after the other from an address on. -/
def Bytes.write (m : Bytes) (start : Word) (bs : List Byte) : Bytes := fun a =>
  (bs[(a - start).toNat]?).getD (m a)

def Bytes.half (m : Bytes) (a : Word) : BitVec 16 := m a ++ m (a + 1)
def Bytes.word (m : Bytes) (a : Word) : BitVec 32 := m a ++ m (a + 1) ++ m (a + 2) ++ m (a + 3)
def Bytes.dword (m : Bytes) (a : Word) : BitVec 64 := m.word a ++ m.word (a + 4)

namespace MemReq
variable (r : MemReq)

/-- The position of the address in its word. -/
def pos : ℕ := r.addr.toNat % 4

/-- The bytes that a store writes, in the order of their addresses. -/
def storeBytes : List Byte :=
  match r.op with
  | .SB => bigEndian r.data 1
  | .SH => bigEndian r.data 2
  | .SW | .SC => bigEndian r.data 4
  | .SWC1_MERGE => bigEndian (if r.lwc1Lo then r.data.extractLsb' 32 32 else r.data.extractLsb' 0 32) 4
  | .SDC1 => bigEndian r.data 8
  | .SWL => (bigEndian r.data 4).take (4 - r.pos)
  | .SWR => bigEndian r.data (r.pos + 1)
  | _ => []

/-- The address of the first of them. -/
def storeStart : Word := if r.op = .SWR then r.addr - BitVec.ofNat 64 r.pos else r.addr

/-- Memory after the store. -/
def stored (m : Bytes) : Bytes := m.write r.storeStart r.storeBytes

/-- `LWL`: the bytes up to the end of the word go to the high end of the register. -/
def loadedLeft (m : Bytes) : BitVec 32 :=
  match r.pos with
  | 0 => m.word r.addr
  | 1 => m r.addr ++ m (r.addr + 1) ++ m (r.addr + 2) ++ r.data.extractLsb' 0 8
  | 2 => m r.addr ++ m (r.addr + 1) ++ r.data.extractLsb' 0 16
  | _ => m r.addr ++ r.data.extractLsb' 0 24

/-- `LWR`: the bytes from the beginning of the word go to the low end. -/
def loadedRight (m : Bytes) : BitVec 32 :=
  match r.pos with
  | 0 => r.data.extractLsb' 8 24 ++ m r.addr
  | 1 => r.data.extractLsb' 16 16 ++ m (r.addr - 1) ++ m r.addr
  | 2 => r.data.extractLsb' 24 8 ++ m (r.addr - 2) ++ m (r.addr - 1) ++ m r.addr
  | _ => m.word (r.addr - 3)

/-- What a load returns. -/
def loaded (m : Bytes) : Word :=
  match r.op with
  | .LB => (m r.addr).signExtend 64
  | .LBU => (m r.addr).setWidth 64
  | .LH => (m.half r.addr).signExtend 64
  | .LHU => (m.half r.addr).setWidth 64
  | .LW => (m.word r.addr).signExtend 64
  | .LWC1_MERGE =>
    if r.lwc1Lo then m.word r.addr ++ r.data.extractLsb' 0 32
    else r.data.extractLsb' 32 32 ++ m.word r.addr
  | .LDC1 => m.dword r.addr
  | .LWL => (r.loadedLeft m).signExtend 64
  | .LWR => (r.loadedRight m).signExtend 64
  | _ => 0

/-- The alignment that the operation needs. -/
def alignment : ℕ :=
  match r.op with
  | .LH | .LHU | .SH => 2
  | .LW | .LWC1_MERGE | .SW | .SC | .SWC1_MERGE => 4
  | .LDC1 | .SDC1 => 8
  | _ => 1

def Aligned : Prop := r.addr.toNat % r.alignment = 0

/-- The store whose bytes the cache does not merge. -/
def AlignedSwl : Prop := r.op = .SWL ∧ r.pos = 0

instance : Decidable r.Aligned := inferInstanceAs (Decidable (_ = _))
instance : Decidable r.AlignedSwl := inferInstanceAs (Decidable (_ ∧ _))

end MemReq

/-! ## Bytes of words and lines -/

theorem byte_append {n m : ℕ} (a : BitVec n) (b : BitVec m) (h : m % 8 = 0) (k : ℕ) :
    byte (a ++ b) k = if k < m / 8 then byte b k else byte a (k - m / 8) := by
  ext j hj
  split_ifs with hk
  · have : 8 * k + j < m := by omega
    simp [byte, BitVec.getLsbD_append, this]
  · have h1 : ¬ 8 * k + j < m := by omega
    have h2 : 8 * k + j - m = 8 * (k - m / 8) + j := by omega
    simp [byte, BitVec.getLsbD_append, h1, h2]

theorem byte_extractLsb' {n : ℕ} (w : BitVec n) {s l k : ℕ} (hs : s % 8 = 0) (hk : 8 * k + 8 ≤ l) :
    byte (w.extractLsb' s l) k = byte w (s / 8 + k) := by
  ext j hj
  have h1 : 8 * k + j < l := by omega
  have h2 : s + (8 * k + j) = 8 * (s / 8 + k) + j := by omega
  simp [byte, h1, h2]

theorem byte_byte (b : Byte) : byte b 0 = b := by
  ext j hj
  simp [byte]

theorem byte_concat_zero {n : ℕ} (x : BitVec n) (b : Byte) : byte (x ++ b) 0 = b := by
  rw [byte_append _ _ (by norm_num), if_pos (by norm_num), byte_byte]

theorem byte_concat_succ {n : ℕ} (x : BitVec n) (b : Byte) (k : ℕ) :
    byte (x ++ b) (k + 1) = byte x k := by
  rw [byte_append _ _ (by norm_num), if_neg (by norm_num)]
  rfl

theorem byte_low (d : Word) {k : ℕ} (hk : k < 4) : byte (d.extractLsb' 0 32) k = byte d k := by
  rw [byte_extractLsb' _ (by norm_num) (by omega)]
  congr 1
  omega

theorem byte_or {n : ℕ} (x y : BitVec n) (k : ℕ) : byte (x ||| y) k = byte x k ||| byte y k := by
  ext j hj
  simp [byte]

theorem byte_and_ones {n : ℕ} {m : BitVec n} {k : ℕ} (h : byte m k = 0xff) (x : BitVec n) :
    byte (x &&& m) k = byte x k := by
  have ha : byte (x &&& m) k = byte x k &&& byte m k := by
    ext j hj
    simp [byte]
  rw [ha, h]
  exact BitVec.and_allOnes

theorem byte_and_zeros {n : ℕ} {m : BitVec n} {k : ℕ} (h : byte m k = 0) (x : BitVec n) :
    byte (x &&& m) k = 0#8 := by
  have ha : byte (x &&& m) k = byte x k &&& byte m k := by
    ext j hj
    simp [byte]
  rw [ha, h]
  exact BitVec.and_zero

theorem byte_shiftLeft {n : ℕ} (x : BitVec n) {p k : ℕ} (hp : p % 8 = 0) (hk : 8 * k + 8 ≤ n) :
    byte (x <<< p) k = if k < p / 8 then 0#8 else byte x (k - p / 8) := by
  ext j hj
  have h1 : 8 * k + j < n := by omega
  split_ifs with h
  · have h2 : 8 * k + j < p := by omega
    simp [byte, h1, h2]
  · have h2 : ¬8 * k + j < p := by omega
    have h3 : 8 * k + j - p = 8 * (k - p / 8) + j := by omega
    have h4 : 8 * (k - p / 8) + j < n := by omega
    simp [byte, h1, h2, h3, BitVec.getLsbD_eq_getElem h4]

theorem byte_shiftRight {n : ℕ} (x : BitVec n) {p : ℕ} (hp : p % 8 = 0) (k : ℕ) :
    byte (x >>> p) k = byte x (p / 8 + k) := by
  ext j hj
  have h : p + (8 * k + j) = 8 * (p / 8 + k) + j := by omega
  simp [byte, h]

theorem byte_of_le {n : ℕ} (x : BitVec n) {k : ℕ} (hk : n ≤ 8 * k) : byte x k = 0#8 := by
  ext j hj
  simp [byte, BitVec.getLsbD_of_ge x (8 * k + j) (by omega)]

theorem toNat_getLsbD {n : ℕ} (x : BitVec n) (k : ℕ) : (x.getLsbD k).toNat = x.toNat / 2 ^ k % 2 := by
  rw [BitVec.getLsbD, Nat.toNat_testBit]

theorem eq_of_bytes {n : ℕ} (q : ℕ) (hn : n = 8 * q) {x y : BitVec n}
    (h : ∀ j < q, byte x j = byte y j) : x = y := by
  ext k hk
  have hb := congrArg (fun b : Byte => b.getLsbD (k % 8)) (h (k / 8) (by omega))
  have hmod : k % 8 < 8 := Nat.mod_lt _ (by norm_num)
  have hk8 : 8 * (k / 8) + k % 8 = k := Nat.div_add_mod k 8
  simpa [byte, hmod, hk8, hk] using hb

theorem byte_mergeCl32 (cl : Line) (w : BitVec 32) (pos : BitVec 2) {y : ℕ} (hy : y < 16) :
    byte (mergeCl32 cl w pos) y = if y / 4 = pos.toNat then byte w (y % 4) else byte cl y := by
  unfold mergeCl32
  have hp : pos.toNat < 4 := pos.isLt
  generalize pos.toNat = q at hp
  interval_cases q <;> interval_cases y <;>
    (simp (disch := norm_num) only [byte_append, byte_extractLsb']; norm_num)

theorem byte_mergeCl64 (cl : Line) (w : BitVec 64) (hi : Bool) {y : ℕ} (hy : y < 16) :
    byte (mergeCl64 cl w hi) y = if y / 8 = hi.toNat then byte w (y % 8) else byte cl y := by
  cases hi with
  | false =>
    change byte (cl.extractLsb' 64 64 ++ w) y = _
    interval_cases y <;>
      (simp (disch := norm_num) only [byte_append, byte_extractLsb']; norm_num)
  | true =>
    change byte (w ++ cl.extractLsb' 0 64) y = _
    interval_cases y <;>
      (simp (disch := norm_num) only [byte_append, byte_extractLsb']; norm_num)

theorem byte_selectCl32 (cl : Line) (pos : BitVec 2) {j : ℕ} (hj : j < 4) :
    byte (selectCl32 cl pos) j = byte cl (4 * pos.toNat + j) := by
  unfold selectCl32
  have hp : pos.toNat < 4 := pos.isLt
  generalize pos.toNat = q at hp
  interval_cases q <;> interval_cases j <;> simp (disch := norm_num) only [byte_extractLsb']

theorem byte_selectCl64 (cl : Line) (hi : Bool) {j : ℕ} (hj : j < 8) :
    byte (selectCl64 cl hi) j = byte cl (8 * hi.toNat + j) := by
  cases hi with
  | false => exact byte_extractLsb' cl (by norm_num) (by omega)
  | true => exact byte_extractLsb' cl (by norm_num) (by omega)

/-! ## Stores -/

/-- The bytes `f` with others in place from position `s` on. -/
def patch (s : ℕ) (bs : List Byte) (f : ℕ → Byte) (k : ℕ) : Byte :=
  if s ≤ k then (bs[k - s]?).getD (f k) else f k

theorem byte_bswap32 (w : BitVec 32) {j : ℕ} (hj : j < 4) :
    byte (bswap32 w) j = byte w (3 - j) := by
  unfold bswap32
  interval_cases j <;> simp only [byte_concat_zero, byte_concat_succ, byte_byte] <;> rfl

theorem bswap32_bswap32 (w : BitVec 32) : bswap32 (bswap32 w) = w := by
  refine eq_of_bytes 4 rfl fun j hj => ?_
  rw [byte_bswap32 _ hj, byte_bswap32 _ (by omega)]
  congr 1
  omega

theorem byte_bswap64 (w : BitVec 64) {j : ℕ} (hj : j < 8) :
    byte (bswap64 w) j = byte w (7 - j) := by
  unfold bswap64
  interval_cases j <;> simp only [byte_concat_zero, byte_concat_succ, byte_byte] <;> rfl

theorem byte_bswap16 (w : BitVec 16) {j : ℕ} (hj : j < 2) :
    byte (bswap16 w) j = byte w (1 - j) := by
  unfold bswap16
  interval_cases j <;> simp only [byte_concat_zero, byte_concat_succ, byte_byte] <;> rfl

theorem getElem?_bigEndian {n : ℕ} (w : BitVec n) (k i : ℕ) :
    (bigEndian w k)[i]? = if i < k then some (byte w (k - 1 - i)) else none := by
  rw [bigEndian, List.getElem?_map]
  split_ifs with h
  · rw [List.getElem?_range h]
    rfl
  · rw [List.getElem?_eq_none (by simpa using h)]
    rfl

theorem patch_bigEndian {n : ℕ} (s : ℕ) (w : BitVec n) (l : ℕ) (f : ℕ → Byte) (k : ℕ) :
    patch s (bigEndian w l) f k = if s ≤ k ∧ k < s + l then byte w (l - 1 - (k - s)) else f k := by
  rw [patch, getElem?_bigEndian]
  by_cases hs : s ≤ k
  · rw [if_pos hs]
    by_cases hl : k - s < l
    · rw [if_pos hl, if_pos ⟨hs, by omega⟩]
      rfl
    · rw [if_neg hl, if_neg fun h => hl (by omega)]
      rfl
  · rw [if_neg hs, if_neg fun h => hs h.1]

/-- The bytes that end with the word. -/
theorem patch_take {n : ℕ} {s : ℕ} (hs : s ≤ 4) (w : BitVec n) (f : ℕ → Byte) (k : ℕ) :
    patch s ((bigEndian w 4).take (4 - s)) f k =
      if s ≤ k ∧ k < 4 then byte w (3 - (k - s)) else f k := by
  rw [patch, List.getElem?_take, getElem?_bigEndian]
  by_cases hk : s ≤ k
  · rw [if_pos hk]
    by_cases hl : k < 4
    · rw [if_pos (by omega), if_pos (by omega), if_pos ⟨hk, hl⟩]
      rfl
    · rw [if_neg (by omega), if_neg fun h => hl h.2]
      rfl
  · rw [if_neg hk, if_neg fun h => hk h.1]

namespace L1d
open MemReq

theorem byte_insertByte (w : BitVec 32) (b : Byte) (p : BitVec 2) {j : ℕ} (hj : j < 4) :
    byte (insertByte w b p) j = if j = p.toNat then b else byte w j := by
  unfold insertByte
  have hp : p.toNat < 4 := p.isLt
  generalize p.toNat = q at hp
  interval_cases q <;> interval_cases j <;>
    (simp (disch := norm_num) only [byte_append, byte_extractLsb']; norm_num [byte_byte])

theorem byte_insertHalf (w : BitVec 32) (h : BitVec 16) (hi : Bool) {j : ℕ} (hj : j < 4) :
    byte (if hi then h ++ w.extractLsb' 0 16 else w.extractLsb' 16 16 ++ h) j =
      if j / 2 = hi.toNat then byte h (j % 2) else byte w j := by
  cases hi with
  | false =>
    change byte (w.extractLsb' 16 16 ++ h) j = _
    interval_cases j <;>
      (simp (disch := norm_num) only [byte_append, byte_extractLsb']; norm_num)
  | true =>
    change byte (h ++ w.extractLsb' 0 16) j = _
    interval_cases j <;>
      (simp (disch := norm_num) only [byte_append, byte_extractLsb']; norm_num)

theorem byte_swr (w data : BitVec 32) (p : BitVec 2) {j : ℕ} (hj : j < 4) :
    byte (swr (bswap32 w) data p) j = if j ≤ p.toNat then byte data (p.toNat - j) else byte w j := by
  unfold swr
  have hp : p.toNat < 4 := p.isLt
  generalize p.toNat = q at hp
  interval_cases q <;> interval_cases j <;>
    (simp (disch := norm_num) only [byte_bswap32, byte_append, byte_extractLsb']; norm_num [byte_bswap32])

theorem byte_swl (w data : BitVec 32) {p : BitVec 2} (h0 : p.toNat ≠ 0) {j : ℕ} (hj : j < 4) :
    byte (swl (bswap32 w) data p) j =
      if p.toNat ≤ j then byte data (3 - (j - p.toNat)) else byte w j := by
  unfold swl
  have hp : p.toNat < 4 := p.isLt
  generalize p.toNat = q at hp h0
  interval_cases q
  · exact absurd rfl h0
  all_goals
    interval_cases j <;>
      (simp (disch := norm_num) only [byte_bswap32, byte_append, byte_extractLsb']; norm_num [byte_bswap32])

/-- `t_w32` with the store merged into it, for the stores of at most a word. -/
def storeWord (r : MemReq) (w : BitVec 32) : BitVec 32 :=
  let bw := bswap32 w
  let data := r.data.extractLsb' 0 32
  match r.op with
  | .SB => insertByte w (r.data.extractLsb' 0 8) (bytePos r)
  | .SH =>
    let h := bswap16 (r.data.extractLsb' 0 16)
    if r.addr.getLsbD 1 then h ++ w.extractLsb' 0 16 else w.extractLsb' 16 16 ++ h
  | .SW | .SC => bswap32 data
  | .SWC1_MERGE => bswap32 (if r.lwc1Lo then r.data.extractLsb' 32 32 else data)
  | .SWR => swr bw data (bytePos r)
  | .SWL => swl bw data (bytePos r)
  | _ => w

theorem bytePos_toNat (r : MemReq) : (bytePos r).toNat = r.pos := by
  simp [bytePos, pos, BitVec.extractLsb'_toNat]

/-- A word with a store merged into it has the bytes of the store in their places. -/
theorem byte_storeWord {r : MemReq} (hst : writesArray r.op = true) (hd : r.op ≠ .SDC1)
    (ha : r.Aligned) (hs : ¬ r.AlignedSwl) (w : BitVec 32) {j : ℕ} (hj : j < 4) :
    byte (storeWord r w) j =
      patch (if r.op = .SWR then 0 else r.pos) r.storeBytes (byte w) j := by
  have hp : r.pos < 4 := Nat.mod_lt _ (by norm_num)
  have hbp := bytePos_toNat r
  unfold Aligned alignment at ha
  unfold storeWord storeBytes
  cases ho : r.op <;> rw [ho] at hst hd ha <;> dsimp only at ha ⊢
  case SB =>
    change _ = patch r.pos _ _ _
    rw [byte_insertByte _ _ _ hj, hbp, patch_bigEndian]
    refine if_congr (by omega) ?_ rfl
    have : 1 - 1 - (j - r.pos) = 0 := by omega
    rw [this]
    rfl
  case SH =>
    change _ = patch r.pos _ _ _
    have hbit : (r.addr.getLsbD 1).toNat = r.pos / 2 := by
      rw [toNat_getLsbD, pos]
      omega
    have heven : r.pos % 2 = 0 := by
      unfold pos
      omega
    rw [byte_insertHalf _ _ _ hj, patch_bigEndian, hbit]
    by_cases hc : j / 2 = r.pos / 2
    · rw [if_pos hc, if_pos (by omega), byte_bswap16 _ (by omega),
        byte_extractLsb' _ (by norm_num) (by omega)]
      congr 1
      omega
    · rw [if_neg hc, if_neg (by omega)]
  case SW | SC =>
    change _ = patch r.pos _ _ _
    have h0 : r.pos = 0 := ha
    rw [byte_bswap32 _ hj, patch_bigEndian, h0, if_pos (by omega), byte_low _ (by omega)]
    rfl
  case SWC1_MERGE =>
    change _ = patch r.pos _ _ _
    have h0 : r.pos = 0 := ha
    generalize (if r.lwc1Lo = true then _ else _) = v
    rw [byte_bswap32 _ hj, patch_bigEndian, h0, if_pos (by omega)]
    rfl
  case SWR =>
    change _ = patch 0 _ _ _
    rw [byte_swr _ _ _ hj, hbp, patch_bigEndian]
    refine if_congr (by omega) ?_ rfl
    rw [byte_low _ (by omega)]
    rfl
  case SWL =>
    change _ = patch r.pos _ _ _
    have h0 : r.pos ≠ 0 := fun h => hs ⟨ho, h⟩
    rw [byte_swl _ _ (by rw [hbp]; exact h0) hj, hbp, patch_take (by omega)]
    refine if_congr (by omega) ?_ rfl
    rw [byte_low _ (by omega)]
  case SDC1 => exact absurd rfl hd
  all_goals cases hst

theorem patch_congr {s : ℕ} {bs : List Byte} {f g : ℕ → Byte} {k : ℕ} (h : f k = g k) :
    patch s bs f k = patch s bs g k := by rw [patch, patch, h]

theorem patch_of_le {s : ℕ} {bs : List Byte} {f : ℕ → Byte} {k : ℕ} (h : s + bs.length ≤ k) :
    patch s bs f k = f k := by
  rw [patch]
  split_ifs with hs
  · rw [List.getElem?_eq_none (by omega)]
    rfl
  · rfl

theorem patch_of_lt {s : ℕ} {bs : List Byte} {f : ℕ → Byte} {k : ℕ} (h : k < s) :
    patch s bs f k = f k := if_neg (by omega)

theorem length_bigEndian {n : ℕ} (w : BitVec n) (k : ℕ) : (bigEndian w k).length = k := by
  simp [bigEndian]

/-- The position of the first byte in the word of the address. -/
def startPos (r : MemReq) : ℕ := if r.op = .SWR then 0 else r.pos

/-- The bytes of a store stay in its word, or in the doubleword of `SDC1`. -/
theorem storeBytes_length {r : MemReq} (ha : r.Aligned) :
    startPos r + r.storeBytes.length ≤ if r.op = .SDC1 then 8 else 4 := by
  have hp : r.pos < 4 := Nat.mod_lt _ (by norm_num)
  unfold Aligned alignment at ha
  unfold storeBytes startPos
  cases ho : r.op <;> rw [ho] at ha <;> dsimp only at ha ⊢ <;>
    simp only [length_bigEndian, List.length_take, List.length_nil, reduceCtorEq, if_false, if_true] <;>
      unfold pos at * <;> omega

theorem wordPos_toNat (r : MemReq) : (wordPos r).toNat = r.addr.toNat % 16 / 4 := by
  simp only [wordPos, BitVec.extractLsb'_toNat, Nat.shiftRight_eq_div_pow]
  omega

theorem storeStart_mod (r : MemReq) :
    r.storeStart.toNat % 16 = 4 * (r.addr.toNat % 16 / 4) + startPos r ∧
      r.storeStart.toNat / 16 = r.addr.toNat / 16 := by
  have hlt := r.addr.isLt
  unfold storeStart startPos
  split_ifs with ho
  · have hle : (BitVec.ofNat 64 r.pos) ≤ r.addr := by
      rw [BitVec.le_def, BitVec.toNat_ofNat]
      unfold pos
      omega
    rw [BitVec.toNat_sub_of_le hle, BitVec.toNat_ofNat]
    unfold pos
    omega
  · unfold pos
    omega

theorem storeLine_eq {r : MemReq} (hst : writesArray r.op = true) (hd : r.op ≠ .SDC1) (cl : Line) :
    storeLine r cl = mergeCl32 cl (storeWord r (word r cl)) (wordPos r) := by
  unfold storeLine storeWord
  cases ho : r.op <;> rw [ho] at hst hd <;> try rfl
  case SDC1 => exact absurd rfl hd
  all_goals cases hst

/-- A line with a store merged into it has the bytes of the store in their places. -/
theorem byte_storeLine {r : MemReq} (hst : writesArray r.op = true) (ha : r.Aligned)
    (hs : ¬ r.AlignedSwl) (cl : Line) {y : ℕ} (hy : y < 16) :
    byte (storeLine r cl) y = patch (r.storeStart.toNat % 16) r.storeBytes (byte cl) y := by
  have hlen := storeBytes_length ha
  rw [(storeStart_mod r).1]
  by_cases hd : r.op = .SDC1
  · have h8 : r.addr.toNat % 8 = 0 := by
      simpa [Aligned, alignment, hd] using ha
    have hbit : (r.addr.getLsbD 3).toNat = r.addr.toNat % 16 / 8 := by
      rw [toNat_getLsbD]
      omega
    have hstart : 4 * (r.addr.toNat % 16 / 4) + startPos r = 8 * (r.addr.toNat % 16 / 8) := by
      simp only [startPos, hd, reduceCtorEq, if_false, pos]
      omega
    have hsl : storeLine r cl = mergeCl64 cl (bswap64 r.data) (r.addr.getLsbD 3) := by
      simp [storeLine, hd]
    have hb : r.storeBytes = bigEndian r.data 8 := by simp [storeBytes, hd]
    rw [hsl, byte_mergeCl64 _ _ _ hy, hbit, hstart, hb, patch_bigEndian]
    by_cases hc : y / 8 = r.addr.toNat % 16 / 8
    · rw [if_pos hc, if_pos (by omega), byte_bswap64 _ (by omega)]
      congr 1
      omega
    · rw [if_neg hc, if_neg (by omega)]
  · rw [if_neg hd] at hlen
    rw [storeLine_eq hst hd, byte_mergeCl32 _ _ _ hy, wordPos_toNat]
    by_cases hc : y / 4 = r.addr.toNat % 16 / 4
    · have hword : byte (word r cl) (y % 4) = byte cl y := by
        rw [word, byte_selectCl32 _ _ (by omega), wordPos_toNat]
        congr 1
        omega
      rw [if_pos hc, byte_storeWord hst hd ha hs _ (by omega), patch, patch, hword, ← startPos]
      have h1 : y - (4 * (r.addr.toNat % 16 / 4) + startPos r) = y % 4 - startPos r := by omega
      rw [h1]
      exact if_congr (by omega) rfl rfl
    · rw [if_neg hc]
      rcases Nat.lt_or_ge y (4 * (r.addr.toNat % 16 / 4)) with hlt | hge
      · exact (patch_of_lt (by omega)).symm
      · exact (patch_of_le (by omega)).symm

end L1d

/-! ## Memory -/

/-- Memory as the lines of its addresses show it. -/
def byteAt (m : Word → Line) : Bytes := fun a => byte (m a) (a.toNat % 16)

theorem lineOf_eq_iff {a b : Word} : lineOf a = lineOf b ↔ a.toNat / 16 = b.toNat / 16 := by
  rw [← BitVec.toNat_inj, lineOf_toNat, lineOf_toNat]
  omega

/-- Bytes that stay in a line are written there and nowhere else. -/
theorem write_line (m : Bytes) {start : Word} {bs : List Byte}
    (hl : start.toNat % 16 + bs.length ≤ 16) (a : Word) :
    m.write start bs a = if lineOf a = lineOf start then
      patch (start.toNat % 16) bs (fun _ => m a) (a.toNat % 16) else m a := by
  have ha := a.isLt
  have hs := start.isLt
  rw [Bytes.write, if_congr lineOf_eq_iff rfl rfl]
  rcases Nat.lt_or_ge a.toNat start.toNat with hlt | hge
  · have hsub : (a - start).toNat = 2 ^ 64 - (start.toNat - a.toNat) := by
      rw [BitVec.toNat_sub]
      omega
    rw [hsub, List.getElem?_eq_none (by omega)]
    split_ifs with hc
    · change m a = _
      rw [L1d.patch_of_lt (by omega)]
    · rfl
  · have hsub : (a - start).toNat = a.toNat - start.toNat := BitVec.toNat_sub_of_le hge
    rw [hsub]
    split_ifs with hc
    · rw [patch, if_pos (by omega)]
      congr 2
      omega
    · rw [List.getElem?_eq_none (by omega)]
      rfl

/-- An image of memory gives the addresses of a line the same line. -/
def Lined (m : Word → Line) : Prop := ∀ a b, lineOf a = lineOf b → m a = m b

namespace L1d

/-- The image of memory after a store that writes as it is meant. -/
theorem byteAt_storeLine {m : Word → Line} (hm : Lined m) {r : MemReq}
    (hst : writesArray r.op = true) (ha : r.Aligned) (hs : ¬ r.AlignedSwl) (a : Word) :
    r.stored (byteAt m) a =
      if lineOf a = lineOf r.addr then byte (storeLine r (m r.addr)) (a.toNat % 16)
      else byteAt m a := by
  have hlen := storeBytes_length ha
  obtain ⟨hmod, hdiv⟩ := storeStart_mod r
  have hline : lineOf r.storeStart = lineOf r.addr := lineOf_eq_iff.mpr hdiv
  have h16 : r.storeStart.toNat % 16 + r.storeBytes.length ≤ 16 := by
    rw [hmod]
    split_ifs at hlen with hd
    · have h8 : r.addr.toNat % 8 = 0 := by simpa [MemReq.Aligned, MemReq.alignment, hd] using ha
      omega
    · omega
  rw [MemReq.stored, write_line _ h16, hline]
  split_ifs with hc
  · rw [byte_storeLine hst ha hs _ (Nat.mod_lt _ (by norm_num))]
    refine patch_congr ?_
    rw [byteAt, hm a r.addr hc]
  · rfl

/-! ## Loads -/

/-- The byte at an address of the line. -/
theorem byteAt_add {m : Word → Line} (hm : Lined m) {a : Word} {k : ℕ} (hk : a.toNat % 16 + k < 16) :
    byteAt m (a + BitVec.ofNat 64 k) = byte (m a) (a.toNat % 16 + k) := by
  have ha := a.isLt
  have hadd : (a + BitVec.ofNat 64 k).toNat = a.toNat + k := by
    rw [BitVec.toNat_add, BitVec.toNat_ofNat]
    omega
  rw [byteAt, hadd, hm _ a (lineOf_eq_iff.mpr (by omega))]
  congr 1
  omega

theorem byteAt_sub {m : Word → Line} (hm : Lined m) {a : Word} {k : ℕ} (hk : k ≤ a.toNat % 16) :
    byteAt m (a - BitVec.ofNat 64 k) = byte (m a) (a.toNat % 16 - k) := by
  have ha := a.isLt
  have hle : BitVec.ofNat 64 k ≤ a := by
    rw [BitVec.le_def, BitVec.toNat_ofNat]
    omega
  have hsub : (a - BitVec.ofNat 64 k).toNat = a.toNat - k := by
    rw [BitVec.toNat_sub_of_le hle, BitVec.toNat_ofNat]
    omega
  rw [byteAt, hsub, hm _ a (lineOf_eq_iff.mpr (by omega))]
  congr 1
  omega

/-- The bytes of the addressed word. -/
theorem byte_word (r : MemReq) (cl : Line) {j : ℕ} (hj : j < 4) :
    byte (word r cl) j = byte cl (r.addr.toNat % 16 - r.pos + j) := by
  rw [word, byte_selectCl32 _ _ hj, wordPos_toNat]
  congr 1
  unfold MemReq.pos
  omega

theorem byteAt_word {m : Word → Line} (hm : Lined m) (r : MemReq) {k : ℕ} (hk : r.pos + k < 4) :
    byteAt m (r.addr + BitVec.ofNat 64 k) = byte (word r (m r.addr)) (r.pos + k) := by
  have hp : r.pos ≤ r.addr.toNat % 16 := by unfold MemReq.pos; omega
  have h16 : r.addr.toNat % 16 + k < 16 := by unfold MemReq.pos at hk; omega
  rw [byteAt_add hm h16, byte_word _ _ hk]
  congr 1
  omega

theorem byteAt_word_sub {m : Word → Line} (hm : Lined m) (r : MemReq) {k : ℕ} (hk : k ≤ r.pos) :
    byteAt m (r.addr - BitVec.ofNat 64 k) = byte (word r (m r.addr)) (r.pos - k) := by
  have hp : r.pos ≤ r.addr.toNat % 16 := by unfold MemReq.pos; omega
  have h4 : r.pos < 4 := Nat.mod_lt _ (by norm_num)
  rw [byteAt_sub hm (by omega), byte_word _ _ (by omega)]
  congr 1
  omega

/-- A word is its bytes, the first one at the high end. -/
theorem bswap32_bytes (w : BitVec 32) : bswap32 w = byte w 0 ++ byte w 1 ++ byte w 2 ++ byte w 3 := rfl

theorem byteOf_eq (w : BitVec 32) (p : BitVec 2) : byteOf w p = byte w p.toNat := by
  unfold byteOf
  have hp : p.toNat < 4 := p.isLt
  generalize p.toNat = q at hp
  interval_cases q <;> rfl

theorem halfOf_eq (w : BitVec 32) (hi : Bool) :
    bswap16 (halfOf w hi) = byte w (2 * hi.toNat) ++ byte w (2 * hi.toNat + 1) := by
  have h : ∀ h : BitVec 16, bswap16 h = byte h 0 ++ byte h 1 := fun _ => rfl
  cases hi with
  | false =>
    have e : halfOf w false = w.extractLsb' 0 16 := rfl
    rw [e, h, byte_extractLsb' w (by norm_num) (by norm_num), byte_extractLsb' w (by norm_num) (by norm_num)]
    rfl
  | true =>
    have e : halfOf w true = w.extractLsb' 16 16 := rfl
    rw [e, h, byte_extractLsb' w (by norm_num) (by norm_num), byte_extractLsb' w (by norm_num) (by norm_num)]
    rfl

/-- The bytes of the addressed word from the address on. -/
theorem byteAt_zero {m : Word → Line} (hm : Lined m) (r : MemReq) :
    byteAt m r.addr = byte (word r (m r.addr)) r.pos := by
  have h := byteAt_word hm r (k := 0) (Nat.mod_lt _ (by norm_num))
  rwa [BitVec.add_zero] at h

/-- The word that a request addresses, where its address is aligned. -/
theorem word_eq {m : Word → Line} (hm : Lined m) {r : MemReq} (h0 : r.pos = 0) :
    Bytes.word (byteAt m) r.addr = bswap32 (word r (m r.addr)) := by
  have hw := fun k hk => byteAt_word hm r (k := k) hk
  have h := byteAt_zero hm r
  rw [h0] at hw h
  rw [Bytes.word, h, show byteAt m (r.addr + 1) = _ from hw 1 (by norm_num),
    show byteAt m (r.addr + 2) = _ from hw 2 (by norm_num),
    show byteAt m (r.addr + 3) = _ from hw 3 (by norm_num), bswap32_bytes]

theorem dword_eq {m : Word → Line} (hm : Lined m) {r : MemReq} (h8 : r.addr.toNat % 8 = 0) :
    Bytes.dword (byteAt m) r.addr = bswap64 (selectCl64 (m r.addr) (r.addr.getLsbD 3)) := by
  have hbit : (r.addr.getLsbD 3).toNat = r.addr.toNat % 16 / 8 := by
    rw [toNat_getLsbD]
    omega
  have hb : ∀ k < 8, byteAt m (r.addr + BitVec.ofNat 64 k) =
      byte (selectCl64 (m r.addr) (r.addr.getLsbD 3)) k := fun k hk => by
    rw [byteAt_add hm (by omega), byte_selectCl64 _ _ hk, hbit]
    congr 1
    omega
  generalize selectCl64 (m r.addr) (r.addr.getLsbD 3) = w at hb
  have h0 := hb 0 (by norm_num)
  rw [BitVec.add_zero] at h0
  have hadd : ∀ k : ℕ, r.addr + 4 + BitVec.ofNat 64 k = r.addr + BitVec.ofNat 64 (4 + k) := fun k => by
    rw [BitVec.add_assoc, BitVec.ofNat_add]
    rfl
  have h5 : byteAt m (r.addr + 4 + 1) = byte w 5 := by rw [show r.addr + 4 + 1 = _ from hadd 1, hb 5 (by norm_num)]
  have h6 : byteAt m (r.addr + 4 + 2) = byte w 6 := by rw [show r.addr + 4 + 2 = _ from hadd 2, hb 6 (by norm_num)]
  have h7 : byteAt m (r.addr + 4 + 3) = byte w 7 := by rw [show r.addr + 4 + 3 = _ from hadd 3, hb 7 (by norm_num)]
  refine eq_of_bytes 8 rfl fun j hj => ?_
  rw [byte_bswap64 w hj, Bytes.dword, Bytes.word, Bytes.word, h0,
    show byteAt m (r.addr + 1) = _ from hb 1 (by norm_num),
    show byteAt m (r.addr + 2) = _ from hb 2 (by norm_num),
    show byteAt m (r.addr + 3) = _ from hb 3 (by norm_num),
    show byteAt m (r.addr + 4) = _ from hb 4 (by norm_num), h5, h6, h7]
  interval_cases j <;>
    (simp (disch := norm_num) only [byte_append]; norm_num [byte_byte])

theorem lwl_eq {m : Word → Line} (hm : Lined m) (r : MemReq) :
    lwl (bswap32 (word r (m r.addr))) (r.data.extractLsb' 0 32) (bytePos r) =
      r.loadedLeft (byteAt m) := by
  have hw := fun k hk => byteAt_word hm r (k := k) hk
  have h4 : r.pos < 4 := Nat.mod_lt _ (by norm_num)
  have h0 := byteAt_zero hm r
  unfold lwl MemReq.loadedLeft
  rw [bytePos_toNat]
  generalize hp : r.pos = p at h4 hw h0
  refine eq_of_bytes 4 rfl fun j hj => ?_
  interval_cases p
  case «0» => exact congrArg (byte · j) (word_eq hm hp).symm
  case' «1» =>
    rw [show byteAt m (r.addr + 1) = _ from hw 1 (by norm_num),
      show byteAt m (r.addr + 2) = _ from hw 2 (by norm_num), h0]
  case' «2» => rw [show byteAt m (r.addr + 1) = _ from hw 1 (by norm_num), h0]
  case' «3» => rw [h0]
  all_goals
    interval_cases j <;>
      (simp (disch := norm_num) only [byte_append, byte_extractLsb', byte_bswap32]
       norm_num [byte_byte, byte_bswap32, byte_extractLsb'])

theorem lwr_eq {m : Word → Line} (hm : Lined m) (r : MemReq) :
    lwr (bswap32 (word r (m r.addr))) (r.data.extractLsb' 0 32) (bytePos r) =
      r.loadedRight (byteAt m) := by
  have hs := fun k hk => byteAt_word_sub hm r (k := k) hk
  have h4 : r.pos < 4 := Nat.mod_lt _ (by norm_num)
  have h0 := byteAt_zero hm r
  unfold lwr MemReq.loadedRight
  rw [bytePos_toNat]
  generalize hp : r.pos = p at h4 hs h0
  refine eq_of_bytes 4 rfl fun j hj => ?_
  interval_cases p
  case «3» =>
    have hsub : ∀ k : ℕ, k ≤ 3 →
        r.addr - 3 + BitVec.ofNat 64 k = r.addr - BitVec.ofNat 64 (3 - k) := fun k hk => by
      interval_cases k <;> bv_omega
    have hb : Bytes.word (byteAt m) (r.addr - 3) = bswap32 (word r (m r.addr)) := by
      rw [Bytes.word, show byteAt m (r.addr - 3) = _ from hs 3 (by norm_num),
        show r.addr - 3 + 1 = _ from hsub 1 (by norm_num),
        show r.addr - 3 + 2 = _ from hsub 2 (by norm_num),
        show r.addr - 3 + 3 = _ from hsub 3 (by norm_num),
        hs _ (by norm_num), hs _ (by norm_num), hs _ (by norm_num), bswap32_bytes]
    exact congrArg (byte · j) hb.symm
  case' «0» => rw [h0]
  case' «1» => rw [show byteAt m (r.addr - 1) = _ from hs 1 (by norm_num), h0]
  case' «2» =>
    rw [show byteAt m (r.addr - 1) = _ from hs 1 (by norm_num),
      show byteAt m (r.addr - 2) = _ from hs 2 (by norm_num), h0]
  all_goals
    interval_cases j <;>
      (simp (disch := norm_num) only [byte_append, byte_extractLsb', byte_bswap32]
       norm_num [byte_byte, byte_bswap32, byte_extractLsb'])

/-- A load returns what it is to return of the bytes of its line. -/
theorem loadData_bytes {m : Word → Line} (hm : Lined m) {r : MemReq} (ha : r.Aligned) :
    loadData r (m r.addr) = r.loaded (byteAt m) := by
  have h0 := byteAt_zero hm r
  have hbp := bytePos_toNat r
  unfold MemReq.Aligned MemReq.alignment at ha
  unfold loadData MemReq.loaded
  cases ho : r.op <;> rw [ho] at ha <;> dsimp only at ha ⊢
  case LB => rw [byteOf_eq, hbp, h0]
  case LBU => rw [byteOf_eq, hbp, h0]
  case LH | LHU =>
    have hbit : r.pos = 2 * (r.addr.getLsbD 1).toNat := by
      rw [toNat_getLsbD, MemReq.pos]
      omega
    have h1 := byteAt_word hm r (k := 1) (by
      have := Bool.toNat_le (r.addr.getLsbD 1)
      omega)
    rw [halfOf_eq, Bytes.half, h0, show byteAt m (r.addr + 1) = _ from h1, hbit]
  case LW => rw [word_eq hm ha]
  case LWC1_MERGE => rw [word_eq hm ha]
  case LDC1 => rw [dword_eq hm ha]
  case LWL => rw [lwl_eq hm]
  case LWR => rw [lwr_eq hm]

end L1d
end MipsCore
