import MipsCore.Iss.Memory
import MipsCore.L1d.Bytes

/-! # Loads and stores against the interpreter

The lanes of `l1d.sv` that load out of a line and store into it, on both ports, and
the loads and stores of the interpreter on the memory that holds the line.  The two
part at an aligned `SWL`.
-/
namespace MipsCore
namespace L1d
open BitVec (fill)

/-! ## The load paths of the two ports -/

section Ports
variable (r : MemReq) (cl : Line)

/-- `t_rsp_data` of the first port, its signs taken from the bits of the unswapped word -/
def rspData : Word :=
  let w := selectCl32 cl (wordPos r)
  let bw := bswap32 w
  match r.op with
  | .LB =>
    match (bytePos r).toNat with
    | 0 => fill 56 (w.getLsbD 7) ++ w.extractLsb' 0 8
    | 1 => fill 56 (w.getLsbD 15) ++ w.extractLsb' 8 8
    | 2 => fill 56 (w.getLsbD 23) ++ w.extractLsb' 16 8
    | _ => fill 56 (w.getLsbD 31) ++ w.extractLsb' 24 8
  | .LBU =>
    match (bytePos r).toNat with
    | 0 => 0#56 ++ w.extractLsb' 0 8
    | 1 => 0#56 ++ w.extractLsb' 8 8
    | 2 => 0#56 ++ w.extractLsb' 16 8
    | _ => 0#56 ++ w.extractLsb' 24 8
  | .LH =>
    if r.addr.getLsbD 1 then
      fill 48 (sext16 (w.extractLsb' 16 16)) ++ bswap16 (w.extractLsb' 16 16)
    else fill 48 (sext16 (w.extractLsb' 0 16)) ++ bswap16 (w.extractLsb' 0 16)
  | .LHU =>
    0#48 ++ bswap16 (if r.addr.getLsbD 1 then w.extractLsb' 16 16 else w.extractLsb' 0 16)
  | .LW => fill 32 (bw.getLsbD 31) ++ bw
  | .LWC1_MERGE =>
    if r.lwc1Lo then bw ++ r.data.extractLsb' 0 32 else r.data.extractLsb' 32 32 ++ bw
  | .LDC1 => bswap64 (selectCl64 cl (r.addr.getLsbD 3))
  | .LWR =>
    match (bytePos r).toNat with
    | 0 => fill 32 (r.data.getLsbD 31) ++ (r.data.extractLsb' 8 24 ++ bw.extractLsb' 24 8)
    | 1 => fill 32 (r.data.getLsbD 31) ++ (r.data.extractLsb' 16 16 ++ bw.extractLsb' 16 16)
    | 2 => fill 32 (r.data.getLsbD 31) ++ (r.data.extractLsb' 24 8 ++ bw.extractLsb' 8 24)
    | _ => fill 32 (bw.getLsbD 31) ++ bw
  | .LWL =>
    match (bytePos r).toNat with
    | 0 => fill 32 (bw.getLsbD 31) ++ bw
    | 1 => fill 32 (bw.getLsbD 23) ++ (bw.extractLsb' 0 24 ++ r.data.extractLsb' 0 8)
    | 2 => fill 32 (bw.getLsbD 15) ++ (bw.extractLsb' 0 16 ++ r.data.extractLsb' 0 16)
    | _ => fill 32 (bw.getLsbD 7) ++ (bw.extractLsb' 0 8 ++ r.data.extractLsb' 0 24)
  | .SC => 1
  | _ => 0

/-- `t_rsp_data2` of the second port -/
def rspData2 : Word :=
  let w2 := selectCl32 cl (wordPos r)
  let bw2 := bswap32 w2
  match r.op with
  | .LB =>
    match (bytePos r).toNat with
    | 0 => fill 56 (w2.getLsbD 7) ++ w2.extractLsb' 0 8
    | 1 => fill 56 (w2.getLsbD 15) ++ w2.extractLsb' 8 8
    | 2 => fill 56 (w2.getLsbD 23) ++ w2.extractLsb' 16 8
    | _ => fill 56 (w2.getLsbD 31) ++ w2.extractLsb' 24 8
  | .LBU =>
    match (bytePos r).toNat with
    | 0 => 0#56 ++ w2.extractLsb' 0 8
    | 1 => 0#56 ++ w2.extractLsb' 8 8
    | 2 => 0#56 ++ w2.extractLsb' 16 8
    | _ => 0#56 ++ w2.extractLsb' 24 8
  | .LH =>
    if r.addr.getLsbD 1 then
      fill 48 (sext16 (w2.extractLsb' 16 16)) ++ bswap16 (w2.extractLsb' 16 16)
    else fill 48 (sext16 (w2.extractLsb' 0 16)) ++ bswap16 (w2.extractLsb' 0 16)
  | .LHU =>
    0#48 ++ bswap16 (if r.addr.getLsbD 1 then w2.extractLsb' 16 16 else w2.extractLsb' 0 16)
  | .LW => fill 32 (bw2.getLsbD 31) ++ bw2
  | .LWC1_MERGE =>
    if r.lwc1Lo then bw2 ++ r.data.extractLsb' 0 32 else r.data.extractLsb' 32 32 ++ bw2
  | .LDC1 => bswap64 (selectCl64 cl (r.addr.getLsbD 3))
  | .LWR =>
    match (bytePos r).toNat with
    | 0 => fill 32 (r.data.getLsbD 31) ++ (r.data.extractLsb' 8 24 ++ bw2.extractLsb' 24 8)
    | 1 => fill 32 (r.data.getLsbD 31) ++ (r.data.extractLsb' 16 16 ++ bw2.extractLsb' 16 16)
    | 2 => fill 32 (r.data.getLsbD 31) ++ (r.data.extractLsb' 24 8 ++ bw2.extractLsb' 8 24)
    | _ => fill 32 (bw2.getLsbD 31) ++ bw2
  | .LWL =>
    match (bytePos r).toNat with
    | 0 => fill 32 (bw2.getLsbD 31) ++ bw2
    | 1 => fill 32 (bw2.getLsbD 23) ++ (bw2.extractLsb' 0 24 ++ r.data.extractLsb' 0 8)
    | 2 => fill 32 (bw2.getLsbD 15) ++ (bw2.extractLsb' 0 16 ++ r.data.extractLsb' 0 16)
    | _ => fill 32 (bw2.getLsbD 7) ++ (bw2.extractLsb' 0 8 ++ r.data.extractLsb' 0 24)
  | _ => 0

end Ports

/-- A value behind copies of its sign. -/
theorem fill_append (n w : ℕ) (x : BitVec w) {b : Bool} (hb : b = x.msb) :
    fill n b ++ x = x.signExtend (n + w) := by
  subst hb
  ext k hk
  rw [BitVec.getElem_append, BitVec.getElem_signExtend]
  split_ifs with h
  · rfl
  · rw [BitVec.getElem_fill]

theorem zero_append (n w : ℕ) (x : BitVec w) : 0#n ++ x = x.setWidth (n + w) := by
  ext k hk
  rw [BitVec.getElem_append, BitVec.getElem_setWidth]
  split_ifs with h
  · exact (BitVec.getLsbD_eq_getElem h).symm
  · rw [BitVec.getElem_zero, BitVec.getLsbD_of_ge x k (by omega)]

theorem msb_extractLsb' {n : ℕ} (x : BitVec n) (s : ℕ) {l k : ℕ} (hk : k = s + l - 1) (hl : 0 < l) :
    x.getLsbD k = (x.extractLsb' s l).msb := by
  rw [BitVec.msb_eq_getLsbD_last, BitVec.getLsbD_extractLsb', hk]
  have h1 : l - 1 < l := by omega
  have h2 : s + (l - 1) = s + l - 1 := by omega
  simp [h1, h2]

/-- The sign of a swapped half is a bit of its low byte. -/
theorem sext16_eq (x : BitVec 16) : sext16 x = (bswap16 x).msb := by
  rw [bswap16, BitVec.msb_append]
  exact msb_extractLsb' x 0 rfl (by norm_num)

/-- The sign of a register part in front of a word part. -/
theorem msb_append_extractLsb' {n m l k : ℕ} (x : BitVec n) (s : ℕ) (y : BitVec m) (hk : k = s + l - 1)
    (hl : 0 < l) : x.getLsbD k = (x.extractLsb' s l ++ y).msb := by
  rw [BitVec.msb_append, if_neg (by omega)]
  exact msb_extractLsb' x s hk hl

/-- The two ports return the same for a load. -/
theorem rspData_eq_rspData2 (r : MemReq) (cl : Line) (h : r.op ≠ .SC) :
    rspData r cl = rspData2 r cl := by
  unfold rspData rspData2
  cases hop : r.op <;> first | rfl | exact absurd hop h

/-- The first port extends every load with its sign. -/
theorem rspData_eq_loadData (r : MemReq) (cl : Line) (h : r.op ≠ .SC) :
    rspData r cl = loadData r cl := by
  have hp : (bytePos r).toNat < 4 := (bytePos r).isLt
  unfold rspData loadData word byteOf halfOf lwr lwl
  generalize selectCl32 cl (wordPos r) = w, (bytePos r).toNat = p at hp ⊢
  cases hop : r.op
  case LB =>
    interval_cases p
    · exact fill_append 56 8 _ (msb_extractLsb' w 0 rfl (by norm_num))
    · exact fill_append 56 8 _ (msb_extractLsb' w 8 rfl (by norm_num))
    · exact fill_append 56 8 _ (msb_extractLsb' w 16 rfl (by norm_num))
    · exact fill_append 56 8 _ (msb_extractLsb' w 24 rfl (by norm_num))
  case LBU => interval_cases p <;> exact zero_append 56 8 _
  case LH => cases r.addr.getLsbD 1 <;> exact fill_append 48 16 _ (sext16_eq _)
  case LHU => exact zero_append 48 16 _
  case LW => exact fill_append 32 32 _ rfl
  case LWR =>
    interval_cases p <;> simp (disch := norm_num) only [BitVec.extractLsb'_extractLsb'_of_le]
    · exact fill_append 32 32 _ (msb_append_extractLsb' (l := 24) r.data 8 _ rfl (by norm_num))
    · exact fill_append 32 32 _ (msb_append_extractLsb' (l := 16) r.data 16 _ rfl (by norm_num))
    · exact fill_append 32 32 _ (msb_append_extractLsb' (l := 8) r.data 24 _ rfl (by norm_num))
    · exact fill_append 32 32 _ rfl
  case LWL =>
    interval_cases p <;> simp (disch := norm_num) only [BitVec.extractLsb'_extractLsb'_of_le]
    · exact fill_append 32 32 _ rfl
    · exact fill_append 32 32 _ (msb_append_extractLsb' (l := 24) (bswap32 w) 0 _ rfl (by norm_num))
    · exact fill_append 32 32 _ (msb_append_extractLsb' (l := 16) (bswap32 w) 0 _ rfl (by norm_num))
    · exact fill_append 32 32 _ (msb_append_extractLsb' (l := 8) (bswap32 w) 0 _ rfl (by norm_num))
  case SC => exact absurd hop h
  all_goals rfl

end L1d

/-! ## Merged words -/

open IssState (wordEa ma lwlWord lwrWord swlWord swrWord)

section Merged
variable (h : Host) (bw x : BitVec 32) {q : BitVec 2} {p : ℕ} (hq : q.toNat = p)
include hq

theorem lwlWord_eq : lwlWord bw x p = L1d.lwl bw x q := by
  have hp : p < 4 := hq ▸ q.isLt
  unfold L1d.lwl lwlWord
  rw [hq]
  interval_cases p
  · rfl
  all_goals
    refine eq_of_bytes 4 rfl fun j hj => ?_
    interval_cases j <;>
      (simp (disch := decide) only [byte_or, byte_and_ones, byte_and_zeros, byte_shiftLeft,
        byte_append, byte_extractLsb', BitVec.or_zero]
       norm_num [byte_and_ones, byte_and_zeros])

theorem lwrWord_eq : lwrWord bw x p = L1d.lwr bw x q := by
  have hp : p < 4 := hq ▸ q.isLt
  unfold L1d.lwr lwrWord
  rw [hq]
  interval_cases p
  case «3» => rfl
  all_goals
    refine eq_of_bytes 4 rfl fun j hj => ?_
    interval_cases j <;>
      (simp (disch := decide) only [byte_or, byte_and_ones, byte_and_zeros, byte_shiftRight,
        byte_append, byte_extractLsb', byte_of_le, BitVec.zero_or, BitVec.or_zero]
       norm_num)

/-- The interpreter merges a register into a word where the cache does, but for an aligned
`SWL`. -/
theorem swlWord_eq (h0 : p ≠ 0) : bswap32 (swlWord h bw x p) = L1d.swl bw x q := by
  have hp : p < 4 := hq ▸ q.isLt
  have hm : ∀ k, k < 32 → h.shiftOne k = 1#32 <<< k := fun k hk => if_pos hk
  unfold L1d.swl swlWord
  rw [hq, hm _ (by omega)]
  interval_cases p
  · exact absurd rfl h0
  all_goals
    refine congrArg bswap32 (eq_of_bytes 4 rfl fun j hj => ?_)
    interval_cases j <;>
      (simp (disch := decide) only [byte_or, byte_and_ones, byte_and_zeros, byte_shiftRight,
        byte_append, byte_extractLsb', byte_of_le, BitVec.zero_or, BitVec.or_zero]
       norm_num)

theorem swrWord_eq :
    bswap32 (swrWord h bw x p) = L1d.swr bw x q := by
  have hp : p < 4 := hq ▸ q.isLt
  have hm : ∀ k, k < 32 → h.shiftOne k = 1#32 <<< k := fun k hk => if_pos hk
  unfold L1d.swr swrWord
  rw [hq, hm _ (by omega), BitVec.and_comm]
  interval_cases p
  all_goals
    refine congrArg bswap32 (eq_of_bytes 4 rfl fun j hj => ?_)
    interval_cases j <;>
      (simp (disch := decide) only [byte_or, byte_and_ones, byte_and_zeros, byte_shiftLeft,
        byte_append, byte_extractLsb', BitVec.or_zero]
       norm_num)

end Merged

/-! ## Memory that holds a line -/

/-- Memory has the bytes of the line where the address is. -/
def Shows (mem : BitVec 32 → Byte) (ea : BitVec 32) (cl : Line) : Prop :=
  ∀ a, a.toNat / 16 = ea.toNat / 16 → mem a = byte cl (a.toNat % 16)

theorem wordEa_eq (ea : BitVec 32) : wordEa ea = ea.extractLsb' 2 30 ++ 0#2 := by
  have hmask : ∀ k, ∀ hk : k < 32, (0xfffffffc : BitVec 32)[k] = decide (2 ≤ k) := by decide
  ext k hk
  rw [wordEa, BitVec.getElem_and, hmask k hk, BitVec.getElem_append]
  split_ifs with h
  · simp [h]
  · have h2 : 2 ≤ k := by omega
    simp [h2, BitVec.getLsbD_eq_getElem hk]

theorem wordEa_toNat (ea : BitVec 32) : (wordEa ea).toNat = ea.toNat - ea.toNat % 4 := by
  have h := ea.isLt
  rw [wordEa_eq, BitVec.toNat_append, BitVec.extractLsb'_toNat, Nat.shiftRight_eq_div_pow,
    BitVec.toNat_zero, Nat.or_zero, Nat.shiftLeft_eq]
  omega

theorem ma_eq (ea : BitVec 32) : ma ea = ea.toNat % 4 := by
  rw [ma, BitVec.toNat_and]
  exact Nat.and_two_pow_sub_one_eq_mod _ 2

section Shows
variable {mem : BitVec 32 → Byte} {ea a : BitVec 32} {cl : Line} (h : Shows mem ea cl)
  (hl : a.toNat / 16 = ea.toNat / 16)
include h hl

theorem Shows.get {k : ℕ} (hk : a.toNat % 16 + k < 16) :
    mem (a + BitVec.ofNat 32 k) = byte cl (a.toNat % 16 + k) := by
  have ha := a.isLt
  have hadd : (a + BitVec.ofNat 32 k).toNat = a.toNat + k := by
    rw [BitVec.toNat_add, BitVec.toNat_ofNat]
    omega
  rw [h _ (by omega), hadd]
  congr 1
  omega

end Shows

theorem byte_get16 (m : BitVec 32 → Byte) (a : BitVec 32) {j : ℕ} (hj : j < 2) :
    byte (get16 m a) j = m (a + BitVec.ofNat 32 j) := by
  unfold get16
  interval_cases j <;>
    (simp (disch := norm_num) only [byte_append]; norm_num [byte_byte] <;> rfl)

theorem byte_get32 (m : BitVec 32 → Byte) (a : BitVec 32) {j : ℕ} (hj : j < 4) :
    byte (get32 m a) j = m (a + BitVec.ofNat 32 j) := by
  unfold get32
  interval_cases j <;>
    simp (disch := norm_num) only [byte_append] <;> norm_num [byte_byte] <;> rfl

theorem byte_get64 (m : BitVec 32 → Byte) (a : BitVec 32) {j : ℕ} (hj : j < 8) :
    byte (get64 m a) j = m (a + BitVec.ofNat 32 j) := by
  rw [get64, byte_append _ _ (by norm_num)]
  split_ifs with h
  · exact byte_get32 m a h
  · obtain ⟨i, rfl⟩ : ∃ i, j = 4 + i := ⟨j - 4, by omega⟩
    rw [byte_get32 _ _ (by omega), BitVec.add_assoc, BitVec.ofNat_add, Nat.add_sub_cancel_left]
    rfl

section Shows
variable {mem : BitVec 32 → Byte} {ea a : BitVec 32} {cl : Line} (h : Shows mem ea cl)
  (hl : a.toNat / 16 = ea.toNat / 16)
include h hl

/-- What memory has at the aligned address of a half, a word or a double word of the line. -/
theorem Shows.get16_eq {hi : Bool} {w : BitVec 32} (h2 : a.toNat % 2 = 0)
    (hw : ∀ j < 4, byte w j = byte cl (a.toNat % 16 / 4 * 4 + j)) (hhi : a.toNat % 4 / 2 = hi.toNat) :
    get16 mem a = L1d.halfOf w hi := by
  refine eq_of_bytes 2 rfl fun j hj => ?_
  have hhalf : byte (L1d.halfOf w hi) j = byte w (2 * hi.toNat + j) := by
    cases hi
    · exact byte_extractLsb' w (by norm_num) (by omega)
    · exact byte_extractLsb' w (by norm_num) (by omega)
  have hb := hi.toNat_le
  rw [byte_get16 _ _ hj, h.get hl (by omega), hhalf, hw _ (by omega)]
  congr 1
  omega

theorem Shows.get32_eq {pos : BitVec 2} (h4 : a.toNat % 4 = 0) (hpos : a.toNat % 16 / 4 = pos.toNat) :
    get32 mem a = selectCl32 cl pos := by
  refine eq_of_bytes 4 rfl fun j hj => ?_
  rw [byte_get32 _ _ hj, h.get hl (by omega), byte_selectCl32 _ _ hj]
  congr 1
  omega

theorem Shows.get64_eq {hi : Bool} (h8 : a.toNat % 8 = 0) (hhi : a.toNat % 16 / 8 = hi.toNat) :
    get64 mem a = selectCl64 cl hi := by
  refine eq_of_bytes 8 rfl fun j hj => ?_
  rw [byte_get64 _ _ hj, h.get hl (by omega), byte_selectCl64 _ _ hj]
  congr 1
  omega

end Shows

/-- Bytes that stay in a line are written there and nowhere else. -/
theorem setBytes_line {mem : BitVec 32 → Byte} {start : BitVec 32} {n k : ℕ} (v : BitVec n)
    (hk : start.toNat % 16 + k ≤ 16) (a : BitVec 32) :
    setBytes mem start k v a =
      if a.toNat / 16 = start.toNat / 16 ∧ start.toNat % 16 ≤ a.toNat % 16 ∧
        a.toNat % 16 < start.toNat % 16 + k then byte v (a.toNat % 16 - start.toNat % 16)
      else mem a := by
  have ha := a.isLt
  have hs := start.isLt
  unfold setBytes
  rcases Nat.lt_or_ge a.toNat start.toNat with hlt | hge
  · have hsub : (a - start).toNat = 2 ^ 32 - (start.toNat - a.toNat) := by
      rw [BitVec.toNat_sub]
      omega
    rw [hsub, if_neg (by omega), if_neg (by omega)]
  · have hsub : (a - start).toNat = a.toNat - start.toNat := BitVec.toNat_sub_of_le hge
    rw [hsub]
    by_cases hc : a.toNat - start.toNat < k
    · rw [if_pos hc, if_pos (by omega), byte]
      congr 2
      omega
    · rw [if_neg hc, if_neg (by omega)]

/-- A store keeps what memory has outside the line, and writes the line `cl'` in its place. -/
def WritesLine (mem mem' : BitVec 32 → Byte) (ea : BitVec 32) (cl' : Line) : Prop :=
  Shows mem' ea cl' ∧ ∀ a, a.toNat / 16 ≠ ea.toNat / 16 → mem' a = mem a

theorem writesLine_setBytes {mem : BitVec 32 → Byte} {ea start : BitVec 32} {cl cl' : Line}
    (h : Shows mem ea cl) {n k : ℕ} (v : BitVec n) (hl : start.toNat / 16 = ea.toNat / 16)
    (hk : start.toNat % 16 + k ≤ 16)
    (hcl : ∀ y < 16, byte cl' y = if start.toNat % 16 ≤ y ∧ y < start.toNat % 16 + k then
      byte v (y - start.toNat % 16) else byte cl y) :
    WritesLine mem (setBytes mem start k v) ea cl' := by
  constructor
  · intro a ha
    rw [setBytes_line v hk, hcl _ (Nat.mod_lt _ (by norm_num)), h a ha]
    exact if_congr (and_iff_right (ha.trans hl.symm)) rfl rfl
  · intro a ha
    rw [setBytes_line v hk, if_neg fun hc => ha (hc.1.trans hl)]

/-! ## Requests and instructions -/

open IssState (access)
open Iss (rt opcode)

/-- The interpreter's opcode of an operation. -/
def accessOp : MemOp → Option ℕ
  | .LB => some 0x20
  | .LH => some 0x21
  | .LWL => some 0x22
  | .LW => some 0x23
  | .LBU => some 0x24
  | .LHU => some 0x25
  | .LWR => some 0x26
  | .SB => some 0x28
  | .SH => some 0x29
  | .SWL => some 0x2a
  | .SW => some 0x2b
  | .SWR => some 0x2e
  | .LWC1_MERGE => some 0x31
  | .LDC1 => some 0x35
  | .SC => some 0x38
  | .SWC1_MERGE => some 0x39
  | .SDC1 => some 0x3d
  | _ => none

/-- The pair of registers that a single is half of. -/
def IssState.pair (s : IssState) (f : ArchReg) : Word :=
  s.single (f ||| 1) ++ s.single (f &&& 30)

/-- What a request carries of the registers: an integer register where the operation reads one, a
double, or the pair that a single is loaded into or stored from. -/
def MemReq.Carries (r : MemReq) (s : IssState) (f : ArchReg) : Prop :=
  match r.op with
  | .LWL | .LWR | .SB | .SH | .SW | .SC | .SWL | .SWR => r.data.extractLsb' 0 32 = s.gpr f
  | .SDC1 => r.data = s.double f
  | .LWC1_MERGE | .SWC1_MERGE => r.data = s.pair f ∧ r.lwc1Lo = f.getLsbD 0
  | _ => True

/-- The request stands for the instruction, and memory holds its line. -/
structure Accesses (r : MemReq) (cl : Line) (inst : BitVec 32) (s : IssState) : Prop where
  op : accessOp r.op = some (opcode inst).toNat
  addr : r.addr.setWidth 32 = s.ea inst
  aligned : r.Aligned
  data : r.Carries s (rt inst)
  line : Shows s.mem (s.ea inst) cl

/-- The cache returns and writes what the interpreter does, on both ports. -/
structure Lanes (r : MemReq) (cl : Line) (inst : BitVec 32) (s s' : IssState) : Prop where
  gpr : L1d.loadsGpr r.op = true → L1d.rspData r cl = (s'.gpr (rt inst)).signExtend 64
  double : r.op = .LDC1 → L1d.rspData r cl = s'.double (rt inst)
  pair : r.op = .LWC1_MERGE → L1d.rspData r cl = s'.pair (rt inst)
  ports : L1d.writesArray r.op = false → L1d.rspData2 r cl = L1d.rspData r cl
  stored : L1d.writesArray r.op = true → WritesLine s.mem s'.mem (s.ea inst) (L1d.storeLine r cl)

/-- The interpreter executes the instruction, and the cache agrees. -/
def Steers (h : Host) (r : MemReq) (cl : Line) (inst : BitVec 32) (s : IssState) : Prop :=
  ∃ s', s.execMemory inst h = some s' ∧ Lanes r cl inst s s'

theorem access_eq {ea : BitVec 32} {k : ℕ} (hk : ea.toNat + k ≤ 2 ^ 32) (t : IssState) :
    access ea k t = some t.next := if_pos hk

theorem signExtend_signExtend {n : ℕ} (x : BitVec n) (hn : n ≤ 32) :
    (x.signExtend 32).signExtend 64 = x.signExtend 64 := by
  refine BitVec.eq_of_toInt_eq ?_
  rw [BitVec.toInt_signExtend_of_le (by decide), BitVec.toInt_signExtend_of_le hn,
    BitVec.toInt_signExtend_of_le (hn.trans (by decide))]

theorem signExtend_setWidth {n : ℕ} (x : BitVec n) (hn : n < 32) :
    (x.setWidth 32).signExtend 64 = x.setWidth 64 := by
  have hmsb : (x.setWidth 32).msb = false := by
    rw [BitVec.msb_eq_getLsbD_last, BitVec.getLsbD_setWidth, BitVec.getLsbD_of_ge x _ (by omega)]
    exact Bool.and_false _
  rw [BitVec.signExtend_eq_setWidth_of_msb_false hmsb, BitVec.setWidth_setWidth]
  omega

/-- The parts of a load: the two ports return the same. -/
theorem Lanes.of_load {r : MemReq} {cl : Line} {inst : BitVec 32} {s s' : IssState}
    (hw : L1d.writesArray r.op = false)
    (hg : L1d.loadsGpr r.op = true → L1d.loadData r cl = (s'.gpr (rt inst)).signExtend 64)
    (hd : r.op = .LDC1 → L1d.loadData r cl = s'.double (rt inst))
    (hp : r.op = .LWC1_MERGE → L1d.loadData r cl = s'.pair (rt inst)) : Lanes r cl inst s s' := by
  have hsc : r.op ≠ .SC := fun h => by rw [h] at hw; cases hw
  have hrsp := L1d.rspData_eq_loadData r cl hsc
  exact {
    gpr := fun h => hrsp.trans (hg h)
    double := fun h => hrsp.trans (hd h)
    pair := fun h => hrsp.trans (hp h)
    ports := fun _ => (L1d.rspData_eq_rspData2 r cl hsc).symm
    stored := fun h => by rw [hw] at h; cases h }

theorem L1d.loadsGpr_of_writesArray {op : MemOp} (h : L1d.writesArray op = true) :
    L1d.loadsGpr op = false := by
  cases op <;> first | rfl | cases h

/-- A store returns nothing. -/
theorem lanes_iff_of_store {r : MemReq} {cl : Line} {inst : BitVec 32} {s s' : IssState}
    (hw : L1d.writesArray r.op = true) :
    Lanes r cl inst s s' ↔ WritesLine s.mem s'.mem (s.ea inst) (L1d.storeLine r cl) := by
  refine ⟨fun h => h.stored hw, fun h => ⟨fun hg => ?_, fun hop => ?_, fun hop => ?_, fun hn => ?_, fun _ => h⟩⟩
  · rw [L1d.loadsGpr_of_writesArray hw] at hg
    cases hg
  · rw [hop] at hw
    cases hw
  · rw [hop] at hw
    cases hw
  · rw [hw] at hn
    cases hn

/-- A load into an integer register. -/
theorem steers_of_gpr {r : MemReq} {cl : Line} {inst v ea : BitVec 32} {s : IssState} {h : Host}
    {k : ℕ} (hl : L1d.loadsGpr r.op = true)
    (he : s.execMemory inst h = access ea k (s.set (rt inst) v)) (hk : ea.toNat + k ≤ 2 ^ 32)
    (hv : L1d.loadData r cl = v.signExtend 64) : Steers h r cl inst s := by
  have hw : L1d.writesArray r.op = false := by
    cases ho : r.op <;> rw [ho] at hl <;> first | rfl | cases hl
  refine ⟨_, he.trans (access_eq hk _), Lanes.of_load hw (fun _ => ?_) (fun hop => ?_) fun hop => ?_⟩
  · rw [hv, IssState.next_gpr, IssState.set_gpr, Function.update_self]
  · rw [hop] at hl
    cases hl
  · rw [hop] at hl
    cases hl

/-- The interpreter's store is one `mem.set`, and the cache agrees when its line has the bytes. -/
theorem steers_iff_writes {r : MemReq} {cl : Line} {inst ea : BitVec 32} {s t : IssState} {h : Host}
    {n k : ℕ} {v : BitVec n} (hl : L1d.writesArray r.op = true)
    (he : s.execMemory inst h = some t) (ht : t.mem = setBytes s.mem ea k v) :
    Steers h r cl inst s ↔
      WritesLine s.mem (setBytes s.mem ea k v) (s.ea inst) (L1d.storeLine r cl) := by
  rw [← ht, ← lanes_iff_of_store hl]
  constructor
  · rintro ⟨s', hs', hlane⟩
    rw [he, Option.some.injEq] at hs'
    rwa [hs']
  · exact fun hlane => ⟨t, he, hlane⟩

theorem store_eq {s : IssState} {ea : BitVec 32} {n k : ℕ} (hk : ea.toNat + k ≤ 2 ^ 32) (v : BitVec n) :
    s.store ea k v = some { s with mem := setBytes s.mem ea k v }.next := access_eq hk _

section Accesses
variable {r : MemReq} {cl : Line} {inst : BitVec 32} {s : IssState} {h : Host}
  (hs : Accesses r cl inst s)
include hs

theorem Accesses.ea_mod : (s.ea inst).toNat % 16 = r.addr.toNat % 16 := by
  rw [← hs.addr, BitVec.toNat_setWidth]
  omega

theorem Accesses.pos_eq : r.pos = ma (s.ea inst) := by
  have := hs.ea_mod
  rw [ma_eq]
  unfold MemReq.pos
  omega

/-- What memory has at the address is what the cache selects from the line. -/
theorem Accesses.byte_eq : s.mem (s.ea inst) = L1d.byteOf (L1d.word r cl) (L1d.bytePos r) := by
  have hm := hs.ea_mod
  have hp : r.pos < 4 := Nat.mod_lt _ (by norm_num)
  rw [hs.line _ rfl, L1d.byteOf_eq, L1d.bytePos_toNat, L1d.byte_word _ _ hp, hm]
  congr 1
  unfold MemReq.pos
  omega

theorem Accesses.half_eq (h2 : r.addr.toNat % 2 = 0) :
    get16 s.mem (s.ea inst) = L1d.halfOf (L1d.word r cl) (r.addr.getLsbD 1) := by
  have hm := hs.ea_mod
  refine hs.line.get16_eq rfl (by omega) (fun j hj => ?_) ?_
  · rw [L1d.byte_word _ _ hj, hm]
    congr 1
    unfold MemReq.pos
    omega
  · rw [toNat_getLsbD]
    omega

theorem Accesses.word_eq : get32 s.mem (wordEa (s.ea inst)) = L1d.word r cl := by
  have hm := hs.ea_mod
  have hw := wordEa_toNat (s.ea inst)
  exact hs.line.get32_eq (by omega) (by omega) (by rw [L1d.wordPos_toNat]; omega)

theorem Accesses.dword_eq (h8 : r.addr.toNat % 8 = 0) :
    get64 s.mem (s.ea inst) = selectCl64 cl (r.addr.getLsbD 3) := by
  have hm := hs.ea_mod
  refine hs.line.get64_eq rfl (by omega) ?_
  rw [toNat_getLsbD]
  omega

theorem Accesses.wordEa_eq (h4 : r.addr.toNat % 4 = 0) : wordEa (s.ea inst) = s.ea inst := by
  have hm := hs.ea_mod
  have hw := wordEa_toNat (s.ea inst)
  exact BitVec.eq_of_toNat_eq (by omega)

/-! ### Loads -/

theorem Accesses.steers_double (hop : r.op = .LDC1) : Steers h r cl inst s := by
  have h8 : r.addr.toNat % 8 = 0 := by simpa [MemReq.Aligned, MemReq.alignment, hop] using hs.aligned
  have hm := hs.ea_mod
  have hea := (s.ea inst).isLt
  have hopc : 0x35 = (opcode inst).toNat := by simpa [hop, accessOp] using hs.op
  have he : s.execMemory inst h = s.ldc1 inst := by
    simp only [IssState.execMemory, ← hopc]
  refine ⟨_, he.trans (access_eq (by omega) _), Lanes.of_load (by rw [hop]; rfl) (fun hl => ?_)
    (fun _ => ?_) fun hp => ?_⟩
  · rw [hop] at hl
    cases hl
  · have hl : L1d.loadData r cl = bswap64 (selectCl64 cl (r.addr.getLsbD 3)) := by
      simp only [L1d.loadData, hop]
    rw [hl, ← hs.dword_eq h8]
    exact (s.setDouble_double _ _).symm
  · rw [hop] at hp
    cases hp

theorem Accesses.steers_pair (hop : r.op = .LWC1_MERGE) : Steers h r cl inst s := by
  have h4 : r.addr.toNat % 4 = 0 := by simpa [MemReq.Aligned, MemReq.alignment, hop] using hs.aligned
  have hm := hs.ea_mod
  have hea := (s.ea inst).isLt
  have hopc : 0x31 = (opcode inst).toNat := by simpa [hop, accessOp] using hs.op
  have hd : r.data = s.pair (rt inst) ∧ r.lwc1Lo = (rt inst).getLsbD 0 := by
    simpa [hop, MemReq.Carries] using hs.data
  have he : s.execMemory inst h = s.lwc1 inst := by
    simp only [IssState.execMemory, ← hopc]
  refine ⟨_, he.trans (access_eq (by omega) _), Lanes.of_load (by rw [hop]; rfl) (fun hl => ?_)
    (fun hp => ?_) fun _ => ?_⟩
  · rw [hop] at hl
    cases hl
  · rw [hop] at hp
    cases hp
  · have hl : L1d.loadData r cl = if r.lwc1Lo then bswap32 (L1d.word r cl) ++ r.data.extractLsb' 0 32
        else r.data.extractLsb' 32 32 ++ bswap32 (L1d.word r cl) := by
      simp only [L1d.loadData, hop]
    rw [hl, ← hs.word_eq, hs.wordEa_eq h4, hd.1, hd.2]
    generalize bswap32 (get32 s.mem (s.ea inst)) = v
    change _ = (s.setSingle (rt inst) v).pair (rt inst)
    have hodd : ∀ f : ArchReg, if f.getLsbD 0 = true then f ||| 1 = f ∧ f &&& 30 ≠ f
        else f ||| 1 ≠ f ∧ f &&& 30 = f := by decide
    replace hodd := hodd (rt inst)
    rw [IssState.pair, IssState.pair, s.setSingle_single, s.setSingle_single]
    cases hb : (rt inst).getLsbD 0 <;> rw [hb] at hodd
    · obtain ⟨hhi, hlo⟩ := hodd
      rw [if_neg Bool.false_ne_true, if_neg hhi, if_pos hlo]
      exact congrArg (· ++ v) BitVec.extractLsb'_append_eq_left
    · obtain ⟨hhi, hlo⟩ := hodd
      rw [if_pos rfl, if_pos hhi, if_neg hlo]
      exact congrArg (v ++ ·) BitVec.extractLsb'_append_eq_right

theorem Accesses.steers_of_load (hl : L1d.writesArray r.op = false) : Steers h r cl inst s := by
  have hm := hs.ea_mod
  have hea := (s.ea inst).isLt
  have hwea := wordEa_toNat (s.ea inst)
  have hq : (L1d.bytePos r).toNat = ma (s.ea inst) := (L1d.bytePos_toNat r).trans hs.pos_eq
  have hal := hs.aligned
  have hopc := hs.op
  have hd := hs.data
  unfold MemReq.Aligned MemReq.alignment at hal
  unfold MemReq.Carries at hd
  cases hop : r.op <;> rw [hop] at hl hopc hal hd <;> try cases hl
  all_goals simp only [accessOp, reduceCtorEq, Option.some.injEq] at hopc hal hd
  case LDC1 => exact hs.steers_double hop
  case LWC1_MERGE => exact hs.steers_pair hop
  all_goals
    refine steers_of_gpr (by rw [hop]; rfl) (by simp only [IssState.execMemory, ← hopc]; rfl)
      (by omega) ?_
    simp only [L1d.loadData, hop]
  case LB =>
    rw [hs.byte_eq, signExtend_signExtend _ (show 8 ≤ 32 by decide)]
  case LBU =>
    rw [hs.byte_eq, signExtend_setWidth _ (show 8 < 32 by decide)]
  case LH =>
    rw [hs.half_eq hal, signExtend_signExtend _ (show 16 ≤ 32 by decide)]
  case LHU =>
    rw [hs.half_eq hal, signExtend_setWidth _ (show 16 < 32 by decide)]
  case LW =>
    rw [← hs.word_eq, hs.wordEa_eq hal]
  case LWR =>
    rw [← lwrWord_eq _ _ hq, hd, hs.word_eq]
  case LWL =>
    rw [← lwlWord_eq _ _ hq, hd, hs.word_eq]

/-! ### Stores -/

theorem Accesses.writes_word (w : BitVec 32) :
    WritesLine s.mem (setBytes s.mem (wordEa (s.ea inst)) 4 w) (s.ea inst)
      (mergeCl32 cl w (L1d.wordPos r)) := by
  have hm := hs.ea_mod
  have hwea := wordEa_toNat (s.ea inst)
  refine writesLine_setBytes hs.line w (by omega) (by omega) fun y hy => ?_
  rw [byte_mergeCl32 _ _ _ hy, L1d.wordPos_toNat]
  by_cases hc : y / 4 = r.addr.toNat % 16 / 4
  · rw [if_pos hc, if_pos (by omega)]
    congr 1
    omega
  · rw [if_neg hc, if_neg (by omega)]

theorem Accesses.writes_aligned (h4 : r.addr.toNat % 4 = 0) (w : BitVec 32) :
    WritesLine s.mem (setBytes s.mem (s.ea inst) 4 w) (s.ea inst)
      (mergeCl32 cl w (L1d.wordPos r)) := by
  have hw := hs.writes_word w
  rwa [hs.wordEa_eq h4] at hw

theorem Accesses.writes_byte (hd : r.data.extractLsb' 0 32 = s.gpr (rt inst)) :
    WritesLine s.mem (setBytes s.mem (s.ea inst) 1 (s.gpr (rt inst))) (s.ea inst)
      (mergeCl32 cl (L1d.insertByte (L1d.word r cl) (r.data.extractLsb' 0 8) (L1d.bytePos r))
        (L1d.wordPos r)) := by
  have hm := hs.ea_mod
  have hpos : r.pos = r.addr.toNat % 4 := rfl
  refine writesLine_setBytes hs.line _ rfl (by omega) fun y hy => ?_
  rw [byte_mergeCl32 _ _ _ hy, L1d.wordPos_toNat, L1d.byte_insertByte _ _ _ (by omega),
    L1d.bytePos_toNat, L1d.byte_word _ _ (by omega)]
  by_cases hc : y / 4 = r.addr.toNat % 16 / 4
  · rw [if_pos hc]
    by_cases hy : y % 4 = r.pos
    · rw [if_pos hy, if_pos (by omega), ← hd, byte_extractLsb' _ (by norm_num) (by omega)]
      have h0 : y - (s.ea inst).toNat % 16 = 0 := by omega
      rw [h0]
      rfl
    · rw [if_neg hy, if_neg (by omega)]
      congr 1
      omega
  · rw [if_neg hc, if_neg (by omega)]

theorem Accesses.writes_half (h2 : r.addr.toNat % 2 = 0)
    (hd : r.data.extractLsb' 0 32 = s.gpr (rt inst)) :
    WritesLine s.mem (setBytes s.mem (s.ea inst) 2 (bswap16 ((s.gpr (rt inst)).extractLsb' 0 16)))
      (s.ea inst) (mergeCl32 cl
        (if r.addr.getLsbD 1 then
          bswap16 (r.data.extractLsb' 0 16) ++ (L1d.word r cl).extractLsb' 0 16
        else (L1d.word r cl).extractLsb' 16 16 ++ bswap16 (r.data.extractLsb' 0 16))
        (L1d.wordPos r)) := by
  have hm := hs.ea_mod
  have hpos : r.pos = r.addr.toNat % 4 := rfl
  have hbit : (r.addr.getLsbD 1).toNat = r.addr.toNat % 4 / 2 := by
    rw [toNat_getLsbD]
    omega
  rw [← hd, BitVec.extractLsb'_extractLsb'_of_le (by decide)]
  refine writesLine_setBytes hs.line _ rfl (by omega) fun y hy => ?_
  rw [byte_mergeCl32 _ _ _ hy, L1d.wordPos_toNat, L1d.byte_insertHalf _ _ _ (by omega), hbit,
    L1d.byte_word _ _ (by omega)]
  by_cases hc : y / 4 = r.addr.toNat % 16 / 4
  · rw [if_pos hc]
    by_cases hy : y % 4 / 2 = r.addr.toNat % 4 / 2
    · rw [if_pos hy, if_pos (by omega)]
      congr 1
      omega
    · rw [if_neg hy, if_neg (by omega)]
      congr 1
      omega
  · rw [if_neg hc, if_neg (by omega)]

theorem Accesses.writes_dword (h8 : r.addr.toNat % 8 = 0) (v : Word) :
    WritesLine s.mem (setBytes s.mem (s.ea inst) 8 v) (s.ea inst)
      (mergeCl64 cl v (r.addr.getLsbD 3)) := by
  have hm := hs.ea_mod
  refine writesLine_setBytes hs.line v rfl (by omega) fun y hy => ?_
  rw [byte_mergeCl64 _ _ _ hy, toNat_getLsbD]
  by_cases hc : y / 8 = r.addr.toNat / 2 ^ 3 % 2
  · rw [if_pos hc, if_pos (by omega)]
    congr 1
    omega
  · rw [if_neg hc, if_neg (by omega)]

/-- The half of the pair that a single is stored from. -/
theorem Accesses.single_eq (hop : r.op = .SWC1_MERGE) :
    (if r.lwc1Lo then r.data.extractLsb' 32 32 else r.data.extractLsb' 0 32) =
      s.single (rt inst) := by
  have hd : r.data = s.pair (rt inst) ∧ r.lwc1Lo = (rt inst).getLsbD 0 := by
    simpa [hop, MemReq.Carries] using hs.data
  have hodd : ∀ f : ArchReg, if f.getLsbD 0 = true then f ||| 1 = f else f &&& 30 = f := by decide
  replace hodd := hodd (rt inst)
  rw [hd.1, hd.2, IssState.pair]
  cases hb : (rt inst).getLsbD 0 <;> rw [hb] at hodd
  · rw [if_neg Bool.false_ne_true, BitVec.extractLsb'_append_eq_right]
    exact congrArg s.single hodd
  · rw [if_pos rfl, BitVec.extractLsb'_append_eq_left]
    exact congrArg s.single hodd

theorem Accesses.steers_of_store (hl : L1d.writesArray r.op = true) (hswl : ¬r.AlignedSwl) :
    Steers h r cl inst s := by
  have hm := hs.ea_mod
  have hea := (s.ea inst).isLt
  have hwea := wordEa_toNat (s.ea inst)
  have hq : (L1d.bytePos r).toNat = ma (s.ea inst) := (L1d.bytePos_toNat r).trans hs.pos_eq
  have hal := hs.aligned
  have hopc := hs.op
  have hd := hs.data
  unfold MemReq.Aligned MemReq.alignment at hal
  unfold MemReq.Carries at hd
  cases hop : r.op <;> rw [hop] at hopc hal hd hl <;> try cases hl
  all_goals simp only [accessOp, Option.some.injEq] at hopc hal hd
  case SC =>
    have he : s.execMemory inst h = some (IssState.set { s with
        mem := setBytes s.mem (s.ea inst) 4 (bswap32 (s.gpr (rt inst))) }.next (rt inst) 1) := by
      simp only [IssState.execMemory, ← hopc]
      rw [IssState.sc, store_eq (by omega)]
      rfl
    refine (steers_iff_writes (by rw [hop]; rfl) he rfl).mpr ?_
    simp only [L1d.storeLine, hop, hd]
    exact hs.writes_aligned hal _
  all_goals
    refine (steers_iff_writes (by rw [hop]; rfl)
      (by simp only [IssState.execMemory, ← hopc]; exact store_eq (by omega) _) rfl).mpr ?_
    simp only [L1d.storeLine, hop]
  case SB => exact hs.writes_byte hd
  case SH => exact hs.writes_half hal hd
  case SW =>
    rw [hd]
    exact hs.writes_aligned hal _
  case SWR =>
    rw [hd, ← hs.word_eq, ← swrWord_eq h _ _ hq]
    exact hs.writes_word _
  case SWL =>
    have h0 : ma (s.ea inst) ≠ 0 := fun h0 => hswl ⟨hop, hs.pos_eq.trans h0⟩
    rw [hd, ← hs.word_eq, ← swlWord_eq h _ _ hq h0]
    exact hs.writes_word _
  case SDC1 =>
    rw [hd]
    exact hs.writes_dword hal _
  case SWC1_MERGE =>
    rw [hs.single_eq hop]
    exact hs.writes_aligned hal _

end Accesses

/-! ## The aligned store -/

/-- Two lines that memory has at one address are one line. -/
theorem Shows.unique {mem : BitVec 32 → Byte} {ea : BitVec 32} {cl cl' : Line}
    (h : Shows mem ea cl) (h' : Shows mem ea cl') : cl = cl' := by
  have hea := ea.isLt
  refine eq_of_bytes 16 rfl fun j hj => ?_
  have hn : (BitVec.ofNat 32 (ea.toNat / 16 * 16 + j)).toNat = ea.toNat / 16 * 16 + j := by
    rw [BitVec.toNat_ofNat, Nat.mod_eq_of_lt (by omega)]
  have hmod : (BitVec.ofNat 32 (ea.toNat / 16 * 16 + j)).toNat % 16 = j := by omega
  rw [← hmod, ← h _ (by omega), ← h' _ (by omega)]

theorem mergeCl32_inj {cl : Line} {w w' : BitVec 32} {pos : BitVec 2}
    (h : mergeCl32 cl w pos = mergeCl32 cl w' pos) : w = w' := by
  refine eq_of_bytes 4 rfl fun j hj => ?_
  have hp : pos.toNat < 4 := pos.isLt
  have hb := congrArg (byte · (4 * pos.toNat + j)) h
  simp only [byte_mergeCl32 _ _ _ (show 4 * pos.toNat + j < 16 by omega)] at hb
  have hdiv : (4 * pos.toNat + j) / 4 = pos.toNat := by omega
  have hmod : (4 * pos.toNat + j) % 4 = j := by omega
  rwa [if_pos hdiv, if_pos hdiv, hmod] at hb

section Main
variable {r : MemReq} {cl : Line} {inst : BitVec 32} {s : IssState} (h : Host)
  (hs : Accesses r cl inst s)
include hs

/-- At an aligned address the interpreter stores the register, and the cache the swapped old word. -/
theorem Accesses.steers_swl_iff (hswl : r.AlignedSwl) :
    Steers h r cl inst s ↔
      bswap32 (L1d.word r cl) &&& ~~~(h.shiftedOut - 1) ||| r.data.extractLsb' 0 32 = L1d.word r cl := by
  obtain ⟨hop, hpos⟩ := hswl
  have hm := hs.ea_mod
  have hea := (s.ea inst).isLt
  have hwea := wordEa_toNat (s.ea inst)
  have hma : ma (s.ea inst) = 0 := hs.pos_eq.symm.trans hpos
  have hq : (L1d.bytePos r).toNat = 0 := (L1d.bytePos_toNat r).trans hpos
  have hopc : 0x2a = (opcode inst).toNat := by simpa [hop, accessOp] using hs.op
  have hd : r.data.extractLsb' 0 32 = s.gpr (rt inst) := by
    simpa [hop, MemReq.Carries] using hs.data
  have hw := hs.writes_word (bswap32 (swlWord h (bswap32 (L1d.word r cl)) (s.gpr (rt inst)) 0))
  have he : s.execMemory inst h = s.swl inst h := by
    simp only [IssState.execMemory, ← hopc]
  have hline : L1d.storeLine r cl = mergeCl32 cl (bswap32 (L1d.word r cl)) (L1d.wordPos r) := by
    simp only [L1d.storeLine, hop, L1d.swl, hq]
  have hword : swlWord h (bswap32 (L1d.word r cl)) (s.gpr (rt inst)) 0 =
      bswap32 (L1d.word r cl) &&& ~~~(h.shiftedOut - 1) ||| r.data.extractLsb' 0 32 := by
    have hx : s.gpr (rt inst) >>> (8 * 0) = s.gpr (rt inst) := BitVec.ushiftRight_zero _
    rw [hd, swlWord, hx]
    rfl
  rw [steers_iff_writes (by rw [hop]; rfl) (he.trans (store_eq (by omega) _)) rfl, hs.word_eq, hma,
    hline, ← hword]
  constructor
  · intro h'
    have heq := mergeCl32_inj (hw.1.unique h'.1)
    rw [← bswap32_bswap32 (swlWord _ _ _ _), heq, bswap32_bswap32]
  · intro heq
    rwa [heq] at hw ⊢

/-- The lanes of both ports are the interpreter's but for an aligned `SWL`, which is when the
register, with what the shift leaves of the old word, is the old word with its bytes reversed. -/
theorem steers_iff :
    Steers h r cl inst s ↔ (r.AlignedSwl →
      bswap32 (L1d.word r cl) &&& ~~~(h.shiftedOut - 1) ||| r.data.extractLsb' 0 32 =
        L1d.word r cl) := by
  by_cases hswl : r.AlignedSwl
  · rw [hs.steers_swl_iff h hswl, imp_iff_right hswl]
  · refine iff_of_true ?_ fun hc => absurd hc hswl
    cases hl : L1d.writesArray r.op
    · exact hs.steers_of_load hl
    · exact hs.steers_of_store hl hswl

end Main

/-! ## Stores of register 2 into a line of zeros -/

/-- A host that shifts by its amount modulo 32, and computes nothing. -/
def Host.modular : Host where
  shiftedOut := 1
  sp _ _ _ := 0
  dp _ _ _ := 0
  spCmp _ _ _ := false
  dpCmp _ _ _ := false
  spMadd _ _ _ _ := 0
  dpMadd _ _ _ _ := 0
  dpToSp _ := 0
  spToDp _ := 0
  wordToSp _ := 0
  wordToDp _ := 0
  spToWord _ := 0
  dpToWord _ := 0
  syscall _ _ m := (0, m)

/-- Register 2 holds 1, and everything else is zero. -/
def IssState.one : IssState where
  toIss := Iss.zeroed.set 2 1
  cpr1 _ := 0
  brk := false
  mem _ := 0

/-- `swl $2, n($0)` -/
def swlReq (n : Word) : MemReq := { addr := n, isStore := true, op := .SWL, data := 1 }

theorem shows_zero (ea : BitVec 32) : Shows (fun _ => 0) ea 0 := fun _ _ => BitVec.extractLsb'_zero.symm

/-- `swl $2, 1($0)`, which is not aligned. -/
theorem steers_swl : Steers Host.modular (swlReq 1) 0 0xa8020001 IssState.one := by
  have hs : Accesses (swlReq 1) 0 0xa8020001 IssState.one :=
    ⟨by decide, by decide, by decide, by rfl, shows_zero _⟩
  exact (steers_iff Host.modular hs).mpr fun hc => absurd hc (by decide)

/-- `swl $2, 0($0)` stores 1, and the cache leaves the line as it is: no shift by the width of the
word makes up for that. -/
theorem exists_not_steers : ∃ (r : MemReq) (cl : Line) (inst : BitVec 32) (s : IssState),
    Accesses r cl inst s ∧ ∀ h, ¬Steers h r cl inst s := by
  refine ⟨swlReq 0, 0, 0xa8020000, IssState.one,
    ⟨by decide, by decide, by decide, by rfl, shows_zero _⟩, ?_⟩
  rintro h ⟨s', he, hlane⟩
  have hline : s'.mem 3 = byte (L1d.storeLine (swlReq 0) 0) 3 := (hlane.stored rfl).1 3 (by decide)
  have hcache : byte (L1d.storeLine (swlReq 0) 0) 3 = 0 := by decide +kernel
  have hword : swlWord h 0 1 0 = 1 := by
    rw [swlWord, show (0 : BitVec 32) &&& ~~~(h.shiftOne (8 * (4 - 0)) - 1) = 0 from BitVec.zero_and]
    rfl
  have hmem : (IssState.one.execMemory 0xa8020000 h).map (fun t => t.mem 3) =
      some (setBytes (fun _ => 0) 0 4 (bswap32 (swlWord h 0 1 0)) 3) := rfl
  rw [he, hword] at hmem
  have hstore : setBytes (fun _ => 0) 0 4 (bswap32 1) 3 = 1 := by decide +kernel
  rw [Option.map_some, Option.some.injEq, hline, hcache, hstore] at hmem
  exact absurd hmem (by decide)

end MipsCore
