import MipsCore.L1d.State

/-! # Loads and stores of a cache line

How `l1d.sv` reads an operand out of a line and merges a store into it.  Both read
ports extract loads in the same way.
-/
namespace MipsCore
namespace L1d

/-- The word of the line that the request addresses, and the position of the word. -/
def wordPos (r : MemReq) : BitVec 2 := r.addr.extractLsb' 2 2
def word (r : MemReq) (cl : Line) : BitVec 32 := selectCl32 cl (wordPos r)
/-- The byte of the word. -/
def bytePos (r : MemReq) : BitVec 2 := r.addr.extractLsb' 0 2

/-- The addressed byte of the word. -/
def byteOf (w : BitVec 32) (pos : BitVec 2) : BitVec 8 :=
  match pos.toNat with
  | 0 => w.extractLsb' 0 8
  | 1 => w.extractLsb' 8 8
  | 2 => w.extractLsb' 16 8
  | _ => w.extractLsb' 24 8

/-- The addressed half of the word. -/
def halfOf (w : BitVec 32) (hi : Bool) : BitVec 16 :=
  if hi then w.extractLsb' 16 16 else w.extractLsb' 0 16

/-- `LWR`: the low bytes of the register come from memory. -/
def lwr (w : BitVec 32) (data : BitVec 32) (pos : BitVec 2) : BitVec 32 :=
  match pos.toNat with
  | 0 => data.extractLsb' 8 24 ++ w.extractLsb' 24 8
  | 1 => data.extractLsb' 16 16 ++ w.extractLsb' 16 16
  | 2 => data.extractLsb' 24 8 ++ w.extractLsb' 8 24
  | _ => w

/-- `LWL`: the high bytes of the register come from memory. -/
def lwl (w : BitVec 32) (data : BitVec 32) (pos : BitVec 2) : BitVec 32 :=
  match pos.toNat with
  | 0 => w
  | 1 => w.extractLsb' 0 24 ++ data.extractLsb' 0 8
  | 2 => w.extractLsb' 0 16 ++ data.extractLsb' 0 16
  | _ => w.extractLsb' 0 8 ++ data.extractLsb' 0 24

/-- `t_rsp_data`: what a load returns of its line. -/
def loadData (r : MemReq) (cl : Line) : Word :=
  let w := word r cl
  let bw := bswap32 w
  let data := r.data.extractLsb' 0 32
  match r.op with
  | .LB => (byteOf w (bytePos r)).signExtend 64
  | .LBU => (byteOf w (bytePos r)).setWidth 64
  | .LH => (bswap16 (halfOf w (r.addr.getLsbD 1))).signExtend 64
  | .LHU => (bswap16 (halfOf w (r.addr.getLsbD 1))).setWidth 64
  | .LW => bw.signExtend 64
  | .LWC1_MERGE => if r.lwc1Lo then bw ++ data else r.data.extractLsb' 32 32 ++ bw
  | .LDC1 => bswap64 (selectCl64 cl (r.addr.getLsbD 3))
  | .LWR => (lwr bw data (bytePos r)).signExtend 64
  | .LWL => (lwl bw data (bytePos r)).signExtend 64
  | _ => 0

/-- The loads into an integer register. -/
def loadsGpr : MemOp → Bool
  | .LB | .LBU | .LH | .LHU | .LW | .LWR | .LWL => true
  | _ => false
/-- The loads into a floating-point register. -/
def loadsFpr : MemOp → Bool
  | .LWC1_MERGE | .LDC1 => true
  | _ => false

/-- `SB`: the word with one byte replaced. -/
def insertByte (w : BitVec 32) (b : BitVec 8) (pos : BitVec 2) : BitVec 32 :=
  match pos.toNat with
  | 0 => w.extractLsb' 8 24 ++ b
  | 1 => w.extractLsb' 16 16 ++ b ++ w.extractLsb' 0 8
  | 2 => w.extractLsb' 24 8 ++ b ++ w.extractLsb' 0 16
  | _ => b ++ w.extractLsb' 0 24

/-- `SWR`: the low bytes of the register go to memory. -/
def swr (bw : BitVec 32) (data : BitVec 32) (pos : BitVec 2) : BitVec 32 :=
  match pos.toNat with
  | 0 => bswap32 (data.extractLsb' 0 8 ++ bw.extractLsb' 0 24)
  | 1 => bswap32 (data.extractLsb' 0 16 ++ bw.extractLsb' 0 16)
  | 2 => bswap32 (data.extractLsb' 0 24 ++ bw.extractLsb' 0 8)
  | _ => bswap32 data

/-- `SWL`: the high bytes of the register go to memory.  At an aligned address the source merges
the swapped old word. -/
def swl (bw : BitVec 32) (data : BitVec 32) (pos : BitVec 2) : BitVec 32 :=
  match pos.toNat with
  | 0 => bw
  | 1 => bswap32 (bw.extractLsb' 24 8 ++ data.extractLsb' 8 24)
  | 2 => bswap32 (bw.extractLsb' 16 16 ++ data.extractLsb' 16 16)
  | _ => bswap32 (bw.extractLsb' 8 24 ++ data.extractLsb' 24 8)

/-- `t_array_data`: the line with the store merged into it. -/
def storeLine (r : MemReq) (cl : Line) : Line :=
  let w := word r cl
  let bw := bswap32 w
  let data := r.data.extractLsb' 0 32
  match r.op with
  | .SB => mergeCl32 cl (insertByte w (r.data.extractLsb' 0 8) (bytePos r)) (wordPos r)
  | .SH =>
    let h := bswap16 (r.data.extractLsb' 0 16)
    mergeCl32 cl
      (if r.addr.getLsbD 1 then h ++ w.extractLsb' 0 16 else w.extractLsb' 16 16 ++ h) (wordPos r)
  | .SW | .SC => mergeCl32 cl (bswap32 data) (wordPos r)
  | .SWC1_MERGE =>
    mergeCl32 cl (bswap32 (if r.lwc1Lo then r.data.extractLsb' 32 32 else data)) (wordPos r)
  | .SDC1 => mergeCl64 cl (bswap64 r.data) (r.addr.getLsbD 3)
  | .SWR => mergeCl32 cl (swr bw data (bytePos r)) (wordPos r)
  | .SWL => mergeCl32 cl (swl bw data (bytePos r)) (wordPos r)
  | _ => 0

/-- The operations that write the array. -/
def writesArray : MemOp → Bool
  | .SB | .SH | .SW | .SC | .SWC1_MERGE | .SDC1 | .SWR | .SWL => true
  | _ => false

end L1d
end MipsCore
