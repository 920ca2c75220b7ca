import MipsCore.Iss.Address

/-! # Reference interpreter: loads and stores

`state_t` with its memory and its floating-point registers, and the loads and stores
of `interpret.cc`.  Memory is an array of 4 GiB on a little-endian host, and the
interpreter swaps the bytes of what it reads and writes.  `none` stands for an access
behind its end.
-/
namespace MipsCore

/-- `fpOperation`, as far as `do_fp_op` has it -/
inductive FpOperation
  | abs | neg | mov | add | sub | mul | div | sqrt | rsqrt | recip
  deriving DecidableEq, Repr

inductive FpCond
  | EQ | LT | LE
  deriving DecidableEq, Repr

/-- What the interpreter leaves to the computer that it runs on: a shift by the whole width of a
word, which C++ does not define, floating-point arithmetic, and the operating system. -/
structure Host where
  /-- `1U << 32` -/
  shiftedOut : BitVec 32
  sp : FpOperation → BitVec 32 → BitVec 32 → BitVec 32
  dp : FpOperation → Word → Word → Word
  spCmp : FpCond → BitVec 32 → BitVec 32 → Bool
  dpCmp : FpCond → Word → Word → Bool
  /-- `fs * ft + fr`, or `fs * ft - fr` when the flag is set -/
  spMadd : Bool → BitVec 32 → BitVec 32 → BitVec 32 → BitVec 32
  dpMadd : Bool → Word → Word → Word → Word
  dpToSp : Word → BitVec 32
  spToDp : BitVec 32 → Word
  wordToSp : BitVec 32 → BitVec 32
  wordToDp : BitVec 32 → Word
  spToWord : BitVec 32 → BitVec 32
  dpToWord : Word → BitVec 32
  /-- `$2` and memory after the system call that a monitor call makes -/
  syscall : ℕ → Iss → (BitVec 32 → BitVec 8) → BitVec 32 × (BitVec 32 → BitVec 8)

/-- `1U << n` -/
def Host.shiftOne (h : Host) (n : ℕ) : BitVec 32 := if n < 32 then 1#32 <<< n else h.shiftedOut

/-! ## Memory -/

section Image
variable (m : BitVec 32 → BitVec 8) (a : BitVec 32)

/-- `mem.get` of each width, the first byte at the low end -/
def get16 : BitVec 16 := m (a + 1) ++ m a
def get32 : BitVec 32 := m (a + 3) ++ m (a + 2) ++ m (a + 1) ++ m a
def get64 : BitVec 64 := get32 m (a + 4) ++ get32 m a

/-- `mem.set` of `k` bytes -/
def setBytes {n : ℕ} (k : ℕ) (v : BitVec n) : BitVec 32 → BitVec 8 := fun b =>
  if (b - a).toNat < k then v.extractLsb' (8 * (b - a).toNat) 8 else m b

end Image

/-- `state_t` -/
structure IssState extends Iss where
  /-- `cpr1`, and from 32 on what lies behind it -/
  cpr1 : BitVec 6 → BitVec 32
  brk : Bool
  mem : BitVec 32 → BitVec 8

namespace IssState
open Iss (rs rt opcode)
variable (s : IssState) (inst : BitVec 32)

def set (r : ArchReg) (v : BitVec 32) : IssState := { s with toIss := s.toIss.set r v }
def next : IssState := { s with toIss := s.toIss.next }

/-- A single and a double of the floating-point registers: the latter has its low word first. -/
def single (f : ArchReg) : BitVec 32 := s.cpr1 (f.setWidth 6)
def double (f : ArchReg) : Word := s.cpr1 (f.setWidth 6 + 1) ++ s.cpr1 (f.setWidth 6)
def setSingle (f : ArchReg) (v : BitVec 32) : IssState :=
  { s with cpr1 := Function.update s.cpr1 (f.setWidth 6) v }
def setDouble (f : ArchReg) (v : Word) : IssState :=
  { s with
    cpr1 := Function.update (Function.update s.cpr1 (f.setWidth 6) (v.extractLsb' 0 32))
      (f.setWidth 6 + 1) (v.extractLsb' 32 32) }

@[simp] theorem next_gpr : s.next.gpr = s.gpr := rfl
@[simp] theorem next_cpr1 : s.next.cpr1 = s.cpr1 := rfl
@[simp] theorem next_mem : s.next.mem = s.mem := rfl
@[simp] theorem set_gpr (r : ArchReg) (v : BitVec 32) :
    (s.set r v).gpr = Function.update s.gpr r v := rfl
@[simp] theorem set_mem (r : ArchReg) (v : BitVec 32) : (s.set r v).mem = s.mem := rfl
@[simp] theorem setSingle_gpr (f : ArchReg) (v : BitVec 32) : (s.setSingle f v).gpr = s.gpr := rfl
@[simp] theorem setDouble_gpr (f : ArchReg) (v : Word) : (s.setDouble f v).gpr = s.gpr := rfl

theorem setSingle_single (f g : ArchReg) (v : BitVec 32) :
    (s.setSingle f v).single g = if g = f then v else s.single g := by
  have hinj : g.setWidth 6 = f.setWidth 6 ↔ g = f := by
    rw [← BitVec.toNat_inj, ← BitVec.toNat_inj, BitVec.toNat_setWidth_of_le (by decide),
      BitVec.toNat_setWidth_of_le (by decide)]
  rw [← if_congr hinj rfl rfl]
  exact Function.update_apply ..

theorem setDouble_double (f : ArchReg) (v : Word) : (s.setDouble f v).double f = v := by
  have hne : f.setWidth 6 ≠ f.setWidth 6 + 1 := by
    revert f
    decide
  simp only [double, setDouble, Function.update_self, Function.update_of_ne hne]
  exact @BitVec.extractLsb'_append_extractLsb' 32 32 v

/-- An access to `k` bytes from an address on. -/
def access (ea : BitVec 32) (k : ℕ) (t : IssState) : Option IssState :=
  if ea.toNat + k ≤ 2 ^ 32 then some t.next else none

/-- A store of `k` bytes. -/
def store {n : ℕ} (ea : BitVec 32) (k : ℕ) (v : BitVec n) : Option IssState :=
  access ea k { s with mem := setBytes s.mem ea k v }

/-- The address of the word, and the position in it. -/
def wordEa (ea : BitVec 32) : BitVec 32 := ea &&& 0xfffffffc
def ma (ea : BitVec 32) : ℕ := (ea &&& 3).toNat

/-! ## Loads -/

def lb : Option IssState :=
  access (s.ea inst) 1 (s.set (rt inst) ((s.mem (s.ea inst)).signExtend 32))

def lbu : Option IssState :=
  access (s.ea inst) 1 (s.set (rt inst) ((s.mem (s.ea inst)).setWidth 32))

def lh : Option IssState :=
  access (s.ea inst) 2 (s.set (rt inst) ((bswap16 (get16 s.mem (s.ea inst))).signExtend 32))

def lhu : Option IssState :=
  access (s.ea inst) 2 (s.set (rt inst) ((bswap16 (get16 s.mem (s.ea inst))).setWidth 32))

def lw : Option IssState :=
  access (s.ea inst) 4 (s.set (rt inst) (bswap32 (get32 s.mem (s.ea inst))))

/-- The register that `lwl` leaves of the word `r` and the old one. -/
def lwlWord (r x : BitVec 32) (p : ℕ) : BitVec 32 :=
  match p with
  | 0 => r
  | 1 => (r &&& 0x00ffffff) <<< 8 ||| x &&& 0x000000ff
  | 2 => (r &&& 0x0000ffff) <<< 16 ||| x &&& 0x0000ffff
  | _ => (r &&& 0x00ffffff) <<< 24 ||| x &&& 0x00ffffff

def lwl : Option IssState :=
  let ea := wordEa (s.ea inst)
  let r := bswap32 (get32 s.mem ea)
  access ea 4 (s.set (rt inst) (lwlWord r (s.gpr (rt inst)) (ma (s.ea inst))))

/-- The register that `lwr` leaves. -/
def lwrWord (r x : BitVec 32) (p : ℕ) : BitVec 32 :=
  match p with
  | 0 => x &&& 0xffffff00 ||| r >>> 24
  | 1 => x &&& 0xffff0000 ||| r >>> 16
  | 2 => x &&& 0xff000000 ||| r >>> 8
  | _ => r

def lwr : Option IssState :=
  let ea := wordEa (s.ea inst)
  let r := bswap32 (get32 s.mem ea)
  access ea 4 (s.set (rt inst) (lwrWord r (s.gpr (rt inst)) (ma (s.ea inst))))

def ldc1 : Option IssState :=
  access (s.ea inst) 8 (s.setDouble (rt inst) (bswap64 (get64 s.mem (s.ea inst))))

def lwc1 : Option IssState :=
  access (s.ea inst) 4 (s.setSingle (rt inst) (bswap32 (get32 s.mem (s.ea inst))))

/-! ## Stores -/

def sb : Option IssState := s.store (s.ea inst) 1 (s.gpr (rt inst))

def sh : Option IssState :=
  s.store (s.ea inst) 2 (bswap16 ((s.gpr (rt inst)).extractLsb' 0 16))

def sw : Option IssState := s.store (s.ea inst) 4 (bswap32 (s.gpr (rt inst)))

def sc : Option IssState :=
  (s.store (s.ea inst) 4 (bswap32 (s.gpr (rt inst)))).map (set · (rt inst) 1)

/-- The word that `swl` writes. -/
def swlWord (h : Host) (r x : BitVec 32) (p : ℕ) : BitVec 32 :=
  r &&& ~~~(h.shiftOne (8 * (4 - p)) - 1) ||| x >>> (8 * p)

def swl (h : Host) : Option IssState :=
  let ea := wordEa (s.ea inst)
  let r := bswap32 (get32 s.mem ea)
  s.store ea 4 (bswap32 (swlWord h r (s.gpr (rt inst)) (ma (s.ea inst))))

/-- The word that `swr` writes. -/
def swrWord (h : Host) (r x : BitVec 32) (p : ℕ) : BitVec 32 :=
  x <<< (8 * (3 - p)) ||| (h.shiftOne (8 * (3 - p)) - 1) &&& r

def swr (h : Host) : Option IssState :=
  let ea := wordEa (s.ea inst)
  let r := bswap32 (get32 s.mem ea)
  s.store ea 4 (bswap32 (swrWord h r (s.gpr (rt inst)) (ma (s.ea inst))))

def sdc1 : Option IssState := s.store (s.ea inst) 8 (bswap64 (s.double (rt inst)))

def swc1 : Option IssState := s.store (s.ea inst) 4 (bswap32 (s.single (rt inst)))

/-- The arms of `execMips` for loads and stores. -/
def execMemory (h : Host) : Option IssState :=
  match (opcode inst).toNat with
  | 0x20 => s.lb inst
  | 0x21 => s.lh inst
  | 0x22 => s.lwl inst
  | 0x23 => s.lw inst
  | 0x24 => s.lbu inst
  | 0x25 => s.lhu inst
  | 0x26 => s.lwr inst
  | 0x28 => s.sb inst
  | 0x29 => s.sh inst
  | 0x2a => s.swl inst h
  | 0x2b => s.sw inst
  | 0x2e => s.swr inst h
  | 0x30 => s.lw inst
  | 0x31 => s.lwc1 inst
  | 0x35 => s.ldc1 inst
  | 0x38 => s.sc inst
  | 0x39 => s.swc1 inst
  | 0x3d => s.sdc1 inst
  | _ => none

end IssState
end MipsCore
