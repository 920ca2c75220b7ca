import MipsCore.Exec.Step

/-! # The integer divider

`divider.sv`: restoring division, one quotient bit a cycle, with the sign handled
before and after it.
-/
namespace MipsCore

inductive DivFsm
  | IDLE | INPUT_SIGN | DIVIDE | PACK_OUTPUT | OUTPUT_SIGN | WAIT_FOR_WB
  deriving DecidableEq, Repr

structure Divider where
  state : DivFsm := .IDLE
  isSigned : Bool := false
  sign : Bool := false
  robPtr : RobPtr := 0
  hiloPtr : HiloPtr := 0
  A : BitVec 32 := 0
  B : BitVec 32 := 0
  Y : Word := 0
  D : Word := 0
  R : Word := 0
  idx : BitVec 5 := 0
  /-- `shiftregbit`: the quotient bits shifted in so far. -/
  ss : BitVec 32 := 0
  deriving DecidableEq, Repr, Inhabited

namespace Divider
variable (d : Divider)

/-- Two's complement of a word with the sign bit set. -/
def magnitude (x : BitVec 32) : BitVec 32 := if x.getLsbD 31 then ~~~x + 1 else x

/-- The remainder shifted left, and whether the divisor fits in it. -/
def shifted : Word := d.R <<< 1
def fits : Bool := d.D.ule d.shifted

/-- One cycle of the divider. -/
def step (start isSigned : Bool) (srcA srcB : BitVec 32) (robPtr : RobPtr) (hiloPtr : HiloPtr) :
    Divider :=
  match d.state with
  | .IDLE =>
    if start then
      { d with
        state := .INPUT_SIGN, robPtr := robPtr, hiloPtr := hiloPtr, isSigned := isSigned, A := srcA,
        B := srcB }
    else d
  | .INPUT_SIGN =>
    let a := if d.isSigned then magnitude d.A else d.A
    let b := if d.isSigned then magnitude d.B else d.B
    { d with
      sign := d.isSigned && (d.A.getLsbD 31 ^^ d.B.getLsbD 31), A := a, B := b, D := b ++ 0#32,
      R := a.setWidth 64, idx := 31, state := .DIVIDE }
  | .DIVIDE =>
    { d with
      R := if d.fits then d.shifted - d.D else d.shifted
      ss := d.ss.extractLsb' 0 31 ++ BitVec.ofBool d.fits
      state := if d.idx = 0 then .PACK_OUTPUT else .DIVIDE
      idx := d.idx - 1 }
  | .PACK_OUTPUT => { d with Y := d.R.extractLsb' 32 32 ++ d.ss, state := .OUTPUT_SIGN }
  | .OUTPUT_SIGN =>
    { d with
      Y := if d.isSigned && d.sign then (~~~(d.Y.extractLsb' 32 32) + 1) ++ (~~~(lo32 d.Y) + 1)
        else d.Y
      state := .WAIT_FOR_WB }
  | .WAIT_FOR_WB => { d with state := .IDLE }

def ready (start : Bool) : Bool := d.state == .IDLE && !start
def complete : Bool := d.state == .WAIT_FOR_WB

end Divider
end MipsCore
