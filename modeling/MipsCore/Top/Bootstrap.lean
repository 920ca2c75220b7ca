import MipsCore.Iss.ZeroRegister
import MipsCore.L1d.Lanes
import MipsCore.Lib.StraightLine

/-! # The program that restores a checkpoint

Before a run `top.cc` writes a program to address 0xd0000 that loads the registers of the
checkpoint into the machine.  What the program leaves, when the interpreter executes it.
-/
namespace MipsCore
namespace Top
open Iss (opcode funct rs rt rd)

/-! ## Instruction words -/

/-- `itype` -/
def itype (op : BitVec 6) (rs rt : BitVec 5) (imm : BitVec 16) : BitVec 32 := op ++ rt ++ rs ++ imm
def mtc1 (fs rt : BitVec 5) : BitVec 32 := 17#6 ++ 4#5 ++ rt ++ fs ++ 0#11
def mthi (rs : BitVec 5) : BitVec 32 := 0#6 ++ rs ++ 0#15 ++ 17#6
def mtlo (rs : BitVec 5) : BitVec 32 := 0#6 ++ rs ++ 0#15 ++ 19#6
/-- `C.EQ.S $f0, $f0`, which the loop writes in place of `ceqs z(1, 1, i)` -/
def ceq : BitVec 32 := 0x46000032
/-- `rtype` with the subop of BREAK -/
def brk : BitVec 32 := 0x0000000d

/-- LUI and ORI of a constant. -/
def li (r : BitVec 5) (v : BitVec 32) : List (BitVec 32) :=
  [itype 15 r r (v.extractLsb' 16 16), itype 13 r r (v.extractLsb' 0 16)]

/-! ## The program -/

def regs : List (BitVec 5) := (List.range 32).map (BitVec.ofNat 5)

variable (c : IssState)

def restoreFpr (f : BitVec 5) : List (BitVec 32) :=
  if c.single f ≠ 0 then li 1 (c.single f) ++ [mtc1 f 1] else []

def restoreFcr : List (BitVec 32) :=
  if c.fcr25 ≠ 0 then
    (List.range 8).flatMap fun i => if c.fcr25.getLsbD i = true then [ceq] else []
  else []

def restoreLo : List (BitVec 32) := if c.lo ≠ 0 then li 1 c.lo ++ [mtlo 1] else []
def restoreHi : List (BitVec 32) := if c.hi ≠ 0 then li 1 c.hi ++ [mthi 1] else []
def restoreGpr (r : BitVec 5) : List (BitVec 32) := if c.gpr r ≠ 0 then li r (c.gpr r) else []

/-- The instructions in front of the BREAK. -/
def restore : List (BitVec 32) :=
  regs.flatMap (restoreFpr c) ++ restoreFcr c ++ restoreLo c ++ restoreHi c ++
    regs.tail.flatMap (restoreGpr c)

def bootstrap : List (BitVec 32) := restore c ++ [brk] ++ List.replicate 128 0

def base : BitVec 32 := 0x000d0000

/-- The words one after the other, in the byte order of the machine. -/
def writeWords : (BitVec 32 → BitVec 8) → BitVec 32 → List (BitVec 32) → BitVec 32 → BitVec 8
  | m, _, [] => m
  | m, pos, w :: ws => writeWords (setBytes m pos 4 (bswap32 w)) (pos + 4) ws

/-! ## Reading the program back -/

theorem toNat_add_lit {a j : BitVec 32} (h : a.toNat + j.toNat < 2 ^ 32) :
    (a + j).toNat = a.toNat + j.toNat := by
  rw [BitVec.toNat_add, Nat.mod_eq_of_lt h]

theorem toNat_four : (4 : BitVec 32).toNat = 4 := rfl

theorem get32_setBytes (m : BitVec 32 → BitVec 8) (a v : BitVec 32) :
    get32 (setBytes m a 4 v) a = v := by
  refine eq_of_bytes 4 rfl fun j hj => ?_
  have hj' : (BitVec.ofNat 32 j).toNat = j := Nat.mod_eq_of_lt (by omega)
  rw [byte_get32 _ _ hj, setBytes, BitVec.add_comm a, BitVec.add_sub_cancel, hj', if_pos hj]
  rfl

theorem setBytes_below {m : BitVec 32 → BitVec 8} {pos a v : BitVec 32}
    (hlen : pos.toNat + 4 < 2 ^ 32) (ha : a.toNat < pos.toNat) : setBytes m pos 4 v a = m a := by
  rw [setBytes, if_neg]
  rw [BitVec.toNat_sub]
  omega

/-- Writes from an address on leave what is below alone. -/
theorem writeWords_below {ws : List (BitVec 32)} {m : BitVec 32 → BitVec 8} {pos a : BitVec 32}
    (hlen : pos.toNat + 4 * ws.length < 2 ^ 32) (ha : a.toNat < pos.toNat) :
    writeWords m pos ws a = m a := by
  induction ws generalizing m pos with
  | nil => rfl
  | cons w ws ih =>
    rw [List.length_cons] at hlen
    have hpos : (pos + 4).toNat = pos.toNat + 4 := toNat_add_lit (by rw [toNat_four]; omega)
    rw [writeWords, ih (by omega) (by omega), setBytes_below (by omega) ha]

/-- The machine that the interpreter is. -/
def machine (h : Host) (depth : ℕ) : StraightLine.Machine IssState (BitVec 32) (BitVec 32) where
  pc s := s.pc
  next a := a + 4
  image s a := if a.toNat + 4 ≤ 2 ^ 32 then some (bswap32 (get32 s.mem a)) else none
  exec w s := s.exec h (IssState.execMips h depth) w

variable {h : Host} {depth : ℕ}

/-- The interpreter fetches the words that have been written. -/
theorem holds_writeWords {ws : List (BitVec 32)} {m : BitVec 32 → BitVec 8} {pos : BitVec 32}
    (hlen : pos.toNat + 4 * ws.length < 2 ^ 32) {s : IssState} (hm : s.mem = writeWords m pos ws) :
    (machine h depth).Holds ((machine h depth).image s) pos ws := by
  induction ws generalizing m pos with
  | nil => trivial
  | cons w ws ih =>
    rw [List.length_cons] at hlen
    have hpos : (pos + 4).toNat = pos.toNat + 4 := toNat_add_lit (by rw [toNat_four]; omega)
    refine ⟨?_, ih (show (pos + 4).toNat + _ < _ by omega) hm⟩
    have hget : get32 s.mem pos = bswap32 w := by
      refine Eq.trans (eq_of_bytes 4 rfl fun j hj => ?_) (get32_setBytes m pos (bswap32 w))
      have hj' : (BitVec.ofNat 32 j).toNat = j := Nat.mod_eq_of_lt (by omega)
      have hadd : (pos + BitVec.ofNat 32 j).toNat = pos.toNat + (BitVec.ofNat 32 j).toNat :=
        toNat_add_lit (by omega)
      rw [byte_get32 _ _ hj, byte_get32 _ _ hj, hm, writeWords,
        writeWords_below (by omega) (by omega)]
    change (if pos.toNat + 4 ≤ 2 ^ 32 then some (bswap32 (get32 s.mem pos)) else none) = some w
    rw [if_pos (by omega), hget, bswap32_bswap32]

/-! ## What each word does -/

theorem fields (a : BitVec 6) (b c : BitVec 5) (d : BitVec 16) :
    (a ++ b ++ c ++ d).extractLsb' 26 6 = a ∧ (a ++ b ++ c ++ d).extractLsb' 21 5 = b ∧
      (a ++ b ++ c ++ d).extractLsb' 16 5 = c ∧ (a ++ b ++ c ++ d).extractLsb' 0 16 = d := by
  refine ⟨?_, ?_, ?_, ?_⟩ <;> refine BitVec.eq_of_getLsbD_eq fun i hi => ?_ <;>
    simp only [BitVec.getLsbD_extractLsb', BitVec.getLsbD_append, hi] <;> grind

theorem halves (v : BitVec 32) :
    (v.extractLsb' 16 16).setWidth 32 <<< 16 ||| (v.extractLsb' 0 16).setWidth 32 = v := by
  refine BitVec.eq_of_getLsbD_eq fun i hi => ?_
  simp only [BitVec.getLsbD_or, BitVec.getLsbD_shiftLeft, BitVec.getLsbD_setWidth,
    BitVec.getLsbD_extractLsb']
  grind

variable (slot : IssState → Option IssState) (s : IssState)

theorem exec_lui (r : BitVec 5) (imm : BitVec 16) :
    s.exec h slot (itype 15 r r imm) = some (s.set r (imm.setWidth 32 <<< 16)).next := by
  obtain ⟨hop, -, hrt, himm⟩ := fields 15 r r imm
  have hop : (opcode (itype 15 r r imm)).toNat = 15 := congrArg BitVec.toNat hop
  rw [IssState.exec, hop]
  change s.lift (s.toIss.itype _) = _
  rw [Iss.itype, hop]
  change some ((s.set (Iss.rt _) (Iss.uimm32 _ <<< 16)).next) = _
  rw [show Iss.rt (itype 15 r r imm) = r from hrt, Iss.uimm32, show BitVec.extractLsb' 0 16
    (itype 15 r r imm) = imm from himm]

theorem exec_ori (r : BitVec 5) (imm : BitVec 16) :
    s.exec h slot (itype 13 r r imm) = some (s.set r (s.gpr r ||| imm.setWidth 32)).next := by
  obtain ⟨hop, hrs, hrt, himm⟩ := fields 13 r r imm
  have hop : (opcode (itype 13 r r imm)).toNat = 13 := congrArg BitVec.toNat hop
  rw [IssState.exec, hop]
  change s.lift (s.toIss.itype _) = _
  rw [Iss.itype, hop]
  change some ((s.set (Iss.rt _) (s.gpr (Iss.rs _) ||| Iss.uimm32 _)).next) = _
  rw [show Iss.rt (itype 13 r r imm) = r from hrt, show Iss.rs (itype 13 r r imm) = r from hrs,
    Iss.uimm32, show BitVec.extractLsb' 0 16 (itype 13 r r imm) = imm from himm]

theorem exec_mtlo : s.exec h slot (mtlo 1) =
    some { s with lo := s.gpr 1, pc := s.pc + 4 } := rfl
theorem exec_mthi : s.exec h slot (mthi 1) =
    some { s with hi := s.gpr 1, pc := s.pc + 4 } := rfl
theorem exec_ceq : s.exec h slot ceq = some { s with
    fcr25 := (s.toIss.setConditionBit (h.spCmp .EQ (s.single 0) (s.single 0)) 0).fcr25
    pc := s.pc + 4 } := rfl
theorem exec_brk : s.exec h slot brk = some { s with brk := true } := rfl

theorem exec_mtc1 (f : BitVec 5) :
    s.exec h slot (mtc1 f 1) = some (s.setSingle f (s.gpr 1)).next := by
  have hop : (opcode (mtc1 f 1)).toNat = 17 := by revert f; decide
  have hfmt : Iss.fmt (mtc1 f 1) = 4 := by revert f; decide
  have hlow : (mtc1 f 1).extractLsb' 0 11 = 0 := by revert f; decide
  have hrt : rt (mtc1 f 1) = 1 := by revert f; decide
  have hrd : rd (mtc1 f 1) = f := by revert f; decide
  rw [IssState.exec, hop]
  change s.execCoproc1 h slot _ = _
  rw [IssState.execCoproc1, hfmt, if_neg (by decide), IssState.execFp, hfmt, if_neg (by simp),
    if_pos ⟨hlow, rfl⟩, IssState.mtc1, hrt, hrd]

/-! ## Blocks -/

variable (h depth) in
/-- Code that the interpreter runs through. -/
abbrev Block (ws : List (BitVec 32)) (f : IssState → IssState) : Prop := (machine h depth).Block ws f

theorem Block.of_exec {w : BitVec 32} {f : IssState → IssState}
    (he : ∀ s, s.exec h (IssState.execMips h depth) w = some (f s))
    (hp : ∀ s, (f s).pc = s.pc + 4) (hm : ∀ s, (f s).mem = s.mem) : Block h depth [w] f :=
  .word he hp fun s => by
    funext a
    change (if _ then some (bswap32 (get32 (f s).mem a)) else none) = _
    rw [hm s]
    rfl

/-- A register that has been loaded. -/
def loads (r : BitVec 5) (v : BitVec 32) (s : IssState) : IssState := (s.set r v).next.next

theorem loads_gpr (r : BitVec 5) (v : BitVec 32) (s : IssState) : (loads r v s).gpr r = v := by
  change Function.update s.gpr r v r = v
  exact Function.update_self r v s.gpr

theorem block_li (r : BitVec 5) (v : BitVec 32) : Block h depth (li r v) (loads r v) := by
  have hlui : Block h depth [itype 15 r r (v.extractLsb' 16 16)] _ :=
    .of_exec (fun s => exec_lui _ s r _) (fun _ => rfl) fun _ => rfl
  have hori : Block h depth [itype 13 r r (v.extractLsb' 0 16)] _ :=
    .of_exec (fun s => exec_ori _ s r _) (fun _ => rfl) fun _ => rfl
  have hboth := hlui.append hori
  have hf : loads r v = fun s => ((s.set r ((v.extractLsb' 16 16).setWidth 32 <<< 16)).next.set r
      ((s.set r ((v.extractLsb' 16 16).setWidth 32 <<< 16)).next.gpr r |||
        (v.extractLsb' 0 16).setWidth 32)).next := by
    funext s
    have hg : (s.set r ((v.extractLsb' 16 16).setWidth 32 <<< 16)).next.gpr r =
        (v.extractLsb' 16 16).setWidth 32 <<< 16 := Function.update_self ..
    rw [hg, halves]
    simp only [loads, IssState.set, IssState.next, Iss.set, Iss.next, Function.update_idem]
  rw [hf]
  exact hboth

def fprEffect (f : BitVec 5) (s : IssState) : IssState :=
  if c.single f ≠ 0 then ((loads 1 (c.single f) s).setSingle f (c.single f)).next else s

theorem block_fpr (f : BitVec 5) : Block h depth (restoreFpr c f) (fprEffect c f) := by
  have hmove : Block h depth [mtc1 f 1] _ :=
    .of_exec (fun s => exec_mtc1 _ s f) (fun _ => rfl) fun _ => rfl
  have hg : ∀ s, (loads 1 (c.single f) s).gpr 1 = c.single f := loads_gpr 1 _
  have hboth := (((block_li 1 (c.single f)).append hmove).ite (c.single f ≠ 0) :
    Block h depth (restoreFpr c f) _)
  simp only [hg] at hboth
  exact hboth

/-- The comparison of `$f0` with itself. -/
def ceqEffect (h : Host) (s : IssState) : IssState :=
  { s with
    fcr25 := (s.toIss.setConditionBit (h.spCmp .EQ (s.single 0) (s.single 0)) 0).fcr25
    pc := s.pc + 4 }

def fcrEffect (h : Host) (s : IssState) : IssState :=
  if c.fcr25 ≠ 0 then
    (List.range 8).foldl (fun s i => if c.fcr25.getLsbD i = true then ceqEffect h s else s) s
  else s

theorem block_fcr : Block h depth (restoreFcr c) (fcrEffect c h) := by
  have hceq : Block h depth [ceq] (ceqEffect h) :=
    .of_exec (fun s => exec_ceq _ s) (fun _ => rfl) fun _ => rfl
  exact .ite (.flatMap _ fun i _ => hceq.ite _) _

def loEffect (s : IssState) : IssState :=
  if c.lo ≠ 0 then { (loads 1 c.lo s).next with lo := c.lo } else s
def hiEffect (s : IssState) : IssState :=
  if c.hi ≠ 0 then { (loads 1 c.hi s).next with hi := c.hi } else s
def gprEffect (r : BitVec 5) (s : IssState) : IssState :=
  if c.gpr r ≠ 0 then loads r (c.gpr r) s else s

theorem block_lo : Block h depth (restoreLo c) (loEffect c) := by
  have hmove : Block h depth [mtlo 1] _ :=
    .of_exec (fun s => exec_mtlo _ s) (fun _ => rfl) fun _ => rfl
  have hg : ∀ s, (loads 1 c.lo s).gpr 1 = c.lo := loads_gpr 1 _
  have hboth := (((block_li 1 c.lo).append hmove).ite (c.lo ≠ 0) : Block h depth (restoreLo c) _)
  simp only [hg] at hboth
  exact hboth

theorem block_hi : Block h depth (restoreHi c) (hiEffect c) := by
  have hmove : Block h depth [mthi 1] _ :=
    .of_exec (fun s => exec_mthi _ s) (fun _ => rfl) fun _ => rfl
  have hg : ∀ s, (loads 1 c.hi s).gpr 1 = c.hi := loads_gpr 1 _
  have hboth := (((block_li 1 c.hi).append hmove).ite (c.hi ≠ 0) : Block h depth (restoreHi c) _)
  simp only [hg] at hboth
  exact hboth

theorem block_gpr (r : BitVec 5) : Block h depth (restoreGpr c r) (gprEffect c r) :=
  (block_li r (c.gpr r)).ite _

/-- The state behind the moves to the FPU. -/
def moved (s : IssState) : IssState := regs.foldl (fun s f => fprEffect c f s) s

/-- The state in front of the loads of the general registers. -/
def passed (h : Host) (s : IssState) : IssState :=
  hiEffect c (loEffect c (fcrEffect c h (moved c s)))

/-- The whole program in front of its BREAK. -/
def effect (h : Host) (s : IssState) : IssState :=
  regs.tail.foldl (fun s r => gprEffect c r s) (passed c h s)

theorem block_restore : Block h depth (restore c) (effect c h) :=
  have hfpr : Block h depth (regs.flatMap (restoreFpr c)) _ :=
    .flatMap regs fun f _ => block_fpr c f
  have hgpr : Block h depth (regs.tail.flatMap (restoreGpr c)) _ :=
    .flatMap regs.tail fun r _ => block_gpr c r
  (((hfpr.append (block_fcr c)).append (block_lo c)).append (block_hi c)).append hgpr

/-! ## What the program leaves -/

section Folds
variable {σ ι : Type*} {step : σ → ι → σ} {P : σ → Prop}

theorem foldl_keeps (hkeep : ∀ s i, P s → P (step s i)) {s : σ} (hs : P s) (l : List ι) :
    P (l.foldl step s) :=
  Clocked.run_invariant hkeep hs l

/-- What one of the elements establishes and all of them keep. -/
theorem foldl_reaches (hkeep : ∀ s i, P s → P (step s i)) {l : List ι} {i : ι} (hi : i ∈ l)
    (hset : ∀ s, P (step s i)) (s : σ) : P (l.foldl step s) := by
  obtain ⟨front, back, rfl⟩ := List.append_of_mem hi
  rw [List.foldl_append, List.foldl_cons]
  exact foldl_keeps hkeep (hset _) back

end Folds

theorem mem_regs (r : BitVec 5) : r ∈ regs := by revert r; decide
theorem mem_regs_tail {r : BitVec 5} : r ∈ regs.tail ↔ r ≠ 0 := by revert r; decide

section Views
variable (f g r : BitVec 5)

theorem setSingle_single (v : BitVec 32) :
    (s.setSingle f v).single g = if g = f then v else s.single g := by
  have hinj : g.setWidth 6 = f.setWidth 6 ↔ g = f := by revert f g; decide
  rw [IssState.single, IssState.setSingle]
  change Function.update s.cpr1 (f.setWidth 6) v (g.setWidth 6) = _
  rw [Function.update_apply]
  simp only [hinj]
  rfl

theorem fpr_single : (fprEffect c f s).single g =
    if g = f ∧ c.single f ≠ 0 then c.single f else s.single g := by
  rw [fprEffect]
  split
  · next hf =>
    change ((loads 1 (c.single f) s).setSingle f (c.single f)).single g = _
    rw [setSingle_single]
    simp only [hf, ne_eq, not_false_eq_true, and_true]
    rfl
  · next hf => rw [if_neg fun hg => hf hg.2]

theorem fpr_gpr : (fprEffect c f s).gpr r =
    if r = 1 ∧ c.single f ≠ 0 then c.single f else s.gpr r := by
  rw [fprEffect]
  split
  · next hf =>
    change Function.update s.gpr 1 (c.single f) r = _
    rw [Function.update_apply]
    simp only [hf, ne_eq, not_false_eq_true, and_true]
  · next hf => rw [if_neg fun hr => hf hr.2]

theorem fpr_rest : (fprEffect c f s).lo = s.lo ∧ (fprEffect c f s).hi = s.hi ∧
    (fprEffect c f s).fcr25 = s.fcr25 := by
  rw [fprEffect]
  split <;> exact ⟨rfl, rfl, rfl⟩

theorem fcr_rest : (fcrEffect c h s).gpr = s.gpr ∧ (fcrEffect c h s).lo = s.lo ∧
    (fcrEffect c h s).hi = s.hi ∧ (fcrEffect c h s).cpr1 = s.cpr1 := by
  rw [fcrEffect]
  split
  · refine foldl_keeps (P := fun t : IssState =>
      t.gpr = s.gpr ∧ t.lo = s.lo ∧ t.hi = s.hi ∧ t.cpr1 = s.cpr1) (fun t i ht => ?_)
      ⟨rfl, rfl, rfl, rfl⟩ _
    split <;> exact ht
  · exact ⟨rfl, rfl, rfl, rfl⟩

theorem lo_rest : (loEffect c s).lo = (if c.lo ≠ 0 then c.lo else s.lo) ∧
    (loEffect c s).hi = s.hi ∧ (loEffect c s).cpr1 = s.cpr1 ∧ (loEffect c s).fcr25 = s.fcr25 ∧
    (loEffect c s).gpr r = if r = 1 ∧ c.lo ≠ 0 then c.lo else s.gpr r := by
  rw [loEffect]
  split
  · next hlo =>
    refine ⟨rfl, rfl, rfl, rfl, ?_⟩
    change Function.update s.gpr 1 c.lo r = _
    rw [Function.update_apply]
    simp only [hlo, ne_eq, not_false_eq_true, and_true]
  · next hlo => exact ⟨rfl, rfl, rfl, rfl, by rw [if_neg fun hr => hlo hr.2]⟩

theorem hi_rest : (hiEffect c s).hi = (if c.hi ≠ 0 then c.hi else s.hi) ∧
    (hiEffect c s).lo = s.lo ∧ (hiEffect c s).cpr1 = s.cpr1 ∧ (hiEffect c s).fcr25 = s.fcr25 ∧
    (hiEffect c s).gpr r = if r = 1 ∧ c.hi ≠ 0 then c.hi else s.gpr r := by
  rw [hiEffect]
  split
  · next hhi =>
    refine ⟨rfl, rfl, rfl, rfl, ?_⟩
    change Function.update s.gpr 1 c.hi r = _
    rw [Function.update_apply]
    simp only [hhi, ne_eq, not_false_eq_true, and_true]
  · next hhi => exact ⟨rfl, rfl, rfl, rfl, by rw [if_neg fun hr => hhi hr.2]⟩

theorem gpr_gpr : (gprEffect c f s).gpr r =
    if r = f ∧ c.gpr f ≠ 0 then c.gpr f else s.gpr r := by
  rw [gprEffect]
  split
  · next hf =>
    change Function.update s.gpr f (c.gpr f) r = _
    rw [Function.update_apply]
    simp only [hf, ne_eq, not_false_eq_true, and_true]
  · next hf => rw [if_neg fun hr => hf hr.2]

theorem gpr_rest : (gprEffect c f s).lo = s.lo ∧ (gprEffect c f s).hi = s.hi ∧
    (gprEffect c f s).cpr1 = s.cpr1 ∧ (gprEffect c f s).fcr25 = s.fcr25 := by
  rw [gprEffect]
  split <;> exact ⟨rfl, rfl, rfl, rfl⟩

end Views

theorem length_flatMap_le {α β : Type*} {l : List α} {f : α → List β} {n : ℕ}
    (h : ∀ x, (f x).length ≤ n) : (l.flatMap f).length ≤ l.length * n := by
  induction l with
  | nil => simp
  | cons x l ih =>
    rw [List.flatMap_cons, List.length_append, List.length_cons, Nat.succ_mul]
    have hx := h x
    omega

/-- Three words a register of the FPU, eight comparisons, LO and HI, two words a register. -/
theorem length_restore : (restore c).length ≤ 172 := by
  have hfpr : (regs.flatMap (restoreFpr c)).length ≤ 32 * 3 :=
    length_flatMap_le fun f => by rw [restoreFpr]; split <;> simp [li]
  have hfcr : (restoreFcr c).length ≤ 8 * 1 := by
    rw [restoreFcr]
    split
    · exact length_flatMap_le fun i => by split <;> simp
    · simp
  have hlo : (restoreLo c).length ≤ 3 := by rw [restoreLo]; split <;> simp [li]
  have hhi : (restoreHi c).length ≤ 3 := by rw [restoreHi]; split <;> simp [li]
  have hgpr : (regs.tail.flatMap (restoreGpr c)).length ≤ 31 * 2 :=
    length_flatMap_le fun r => by rw [restoreGpr]; split <;> simp [li]
  simp only [restore, List.length_append]
  omega

/-- The registers of a machine that has just been set up. -/
structure Cleared (s : IssState) : Prop where
  gpr : ∀ r, s.gpr r = 0
  lo : s.lo = 0
  hi : s.hi = 0
  single : ∀ f, s.single f = 0
  fcr25 : s.fcr25 = 0

section Cleared
variable {c s} (hs : Cleared s)
include hs

theorem moved_single (g : BitVec 5) : (moved c s).single g = c.single g := by
  have hkeep : ∀ (t : IssState) (f : BitVec 5), t.single g = c.single g →
      (fprEffect c f t).single g = c.single g := by
    intro t f ht
    rw [fpr_single]
    split
    · next hg => rw [hg.1]
    · exact ht
  by_cases hg : c.single g = 0
  · exact foldl_keeps (P := fun t : IssState => t.single g = c.single g) hkeep
      ((hs.single g).trans hg.symm) regs
  · refine foldl_reaches (P := fun t : IssState => t.single g = c.single g) hkeep (mem_regs g)
      (fun t => ?_) s
    rw [fpr_single, if_pos ⟨rfl, hg⟩]

theorem moved_rest : (moved c s).lo = 0 ∧ (moved c s).hi = 0 ∧ (moved c s).fcr25 = 0 ∧
    ∀ r, r ≠ 1 → (moved c s).gpr r = 0 := by
  refine foldl_keeps (P := fun t : IssState =>
    t.lo = 0 ∧ t.hi = 0 ∧ t.fcr25 = 0 ∧ ∀ r, r ≠ 1 → t.gpr r = 0) ?_
    ⟨hs.lo, hs.hi, hs.fcr25, fun r _ => hs.gpr r⟩ regs
  intro t f ⟨hlo, hhi, hfcr, hgpr⟩
  obtain ⟨hlo', hhi', hfcr'⟩ := fpr_rest c t f
  refine ⟨hlo'.trans hlo, hhi'.trans hhi, hfcr'.trans hfcr, fun r hr => ?_⟩
  rw [fpr_gpr, if_neg fun h => hr h.1, hgpr r hr]

/-- Register 1 carries the constants: it stays zero only where there is none to move. -/
theorem moved_scratch : (moved c s).gpr 1 = 0 ↔ ∀ f, c.single f = 0 := by
  constructor
  · intro h f
    by_contra hf
    refine foldl_reaches (P := fun t : IssState => t.gpr 1 ≠ 0) (fun t g ht => ?_) (mem_regs f)
      (fun t => ?_) s h
    · rw [fpr_gpr]
      split
      · next hg => exact hg.2
      · exact ht
    · rw [fpr_gpr, if_pos ⟨rfl, hf⟩]
      exact hf
  · intro h
    refine foldl_keeps (P := fun t : IssState => t.gpr 1 = 0) (fun t f ht => ?_) (hs.gpr 1) regs
    rw [fpr_gpr, if_neg fun hf => hf.2 (h f), ht]

end Cleared

theorem setConditionBit_zero (v : Bool) {x : BitVec 32} (hx : x = 0 ∨ x = Iss.ofBool v) :
    ~~~(1#32 <<< (0 : BitVec 3).toNat) &&& x |||
      1#32 <<< (0 : BitVec 3).toNat &&& ~~~(Iss.ofBool v - 1) = Iss.ofBool v := by
  rcases hx with rfl | rfl <;> revert v <;> decide

/-- The condition codes: bit 0 alone comes back, and only when the comparison holds. -/
theorem fcr_fcr25 {s : IssState} (hs : s.fcr25 = 0) : (fcrEffect c h s).fcr25 = c.fcr25 ↔
    c.fcr25 = 0 ∨ c.fcr25 = 1 ∧ h.spCmp .EQ (s.single 0) (s.single 0) = true := by
  let v := h.spCmp .EQ (s.single 0) (s.single 0)
  have hceq : ∀ t : IssState, t.cpr1 = s.cpr1 ∧ (t.fcr25 = 0 ∨ t.fcr25 = Iss.ofBool v) →
      (ceqEffect h t).cpr1 = s.cpr1 ∧ (ceqEffect h t).fcr25 = Iss.ofBool v := by
    intro t ⟨hcpr, ht⟩
    have hf : t.single 0 = s.single 0 := by rw [IssState.single, hcpr]; rfl
    refine ⟨hcpr, ?_⟩
    change (t.toIss.setConditionBit (h.spCmp .EQ (t.single 0) (t.single 0)) 0).fcr25 = _
    rw [hf]
    exact setConditionBit_zero v ht
  by_cases hc : c.fcr25 = 0
  · rw [fcrEffect, if_neg (not_not.mpr hc), hs, hc]
    simp
  have hany : (fcrEffect c h s).fcr25 = 0 ∨ (fcrEffect c h s).fcr25 = Iss.ofBool v := by
    rw [fcrEffect, if_pos hc]
    refine (foldl_keeps (P := fun t : IssState => t.cpr1 = s.cpr1 ∧
      (t.fcr25 = 0 ∨ t.fcr25 = Iss.ofBool v)) (fun t i ht => ?_) ⟨rfl, .inl hs⟩ _).2
    split
    · exact ⟨(hceq t ht).1, .inr (hceq t ht).2⟩
    · exact ht
  have hone : c.fcr25 = 1 → (fcrEffect c h s).fcr25 = Iss.ofBool v := by
    intro h1
    rw [fcrEffect, if_pos hc, h1]
    have hfirst := hceq s ⟨rfl, .inl hs⟩
    exact hfirst.2
  constructor
  · intro heq
    refine .inr ?_
    rcases hany with h0 | hv
    · exact absurd (heq.symm.trans h0) hc
    · cases hb : v with
      | false => exact absurd (heq.symm.trans (hv.trans (by rw [hb]; rfl))) hc
      | true => exact ⟨heq.symm.trans (hv.trans (by rw [hb]; rfl)), hb⟩
  · rintro (h0 | ⟨h1, hv⟩)
    · exact absurd h0 hc
    · rw [hone h1, h1, show v = true from hv]
      rfl

theorem effect_rest : (effect c h s).lo = (passed c h s).lo ∧
    (effect c h s).hi = (passed c h s).hi ∧ (effect c h s).cpr1 = (passed c h s).cpr1 ∧
    (effect c h s).fcr25 = (passed c h s).fcr25 := by
  refine foldl_keeps (P := fun t : IssState => t.lo = (passed c h s).lo ∧
    t.hi = (passed c h s).hi ∧ t.cpr1 = (passed c h s).cpr1 ∧ t.fcr25 = (passed c h s).fcr25) ?_
    ⟨rfl, rfl, rfl, rfl⟩ _
  intro t f ⟨hlo, hhi, hcpr, hfcr⟩
  obtain ⟨hlo', hhi', hcpr', hfcr'⟩ := gpr_rest c t f
  exact ⟨hlo'.trans hlo, hhi'.trans hhi, hcpr'.trans hcpr, hfcr'.trans hfcr⟩

theorem effect_mem : (effect c h s).mem = s.mem := by
  have hfpr : (moved c s).mem = s.mem := by
    refine foldl_keeps (P := fun t : IssState => t.mem = s.mem) (fun t f ht => ?_) rfl _
    rw [← ht, fprEffect]
    split <;> rfl
  have hfcr : (fcrEffect c h (moved c s)).mem = (moved c s).mem := by
    rw [fcrEffect]
    split
    · refine foldl_keeps (P := fun t : IssState => t.mem = (moved c s).mem) (fun t i ht => ?_)
        rfl _
      split <;> exact ht
    · rfl
  have hlo : ∀ t, (loEffect c t).mem = t.mem := by
    intro t
    rw [loEffect]
    split <;> rfl
  have hhi : ∀ t, (hiEffect c t).mem = t.mem := by
    intro t
    rw [hiEffect]
    split <;> rfl
  refine foldl_keeps (P := fun t : IssState => t.mem = s.mem) (fun t f ht => ?_) ?_ _
  · rw [← ht, gprEffect]
    split <;> rfl
  · rw [passed, hhi, hlo, hfcr, hfpr]

theorem effect_gpr (hzero : c.gpr 0 = 0) (r : BitVec 5) : (effect c h s).gpr r =
    if c.gpr r ≠ 0 then c.gpr r else (passed c h s).gpr r := by
  split
  · next hr =>
    have hmem : r ∈ regs.tail := mem_regs_tail.mpr (ne_of_apply_ne c.gpr (by rwa [hzero]))
    refine foldl_reaches (P := fun t : IssState => t.gpr r = c.gpr r) (fun t f ht => ?_) hmem
      (fun t => ?_) _
    · rw [gpr_gpr]
      split
      · next hf => rw [hf.1]
      · exact ht
    · rw [gpr_gpr, if_pos ⟨rfl, hr⟩]
  · next hr =>
    refine foldl_keeps (P := fun t : IssState => t.gpr r = (passed c h s).gpr r)
      (fun t f ht => ?_) rfl _
    rw [gpr_gpr, if_neg (fun hf : r = f ∧ c.gpr f ≠ 0 => hr (hf.1 ▸ hf.2)), ht]

section Cleared
variable {c s} (hs : Cleared s)
include hs

theorem passed_rest : (passed c h s).lo = c.lo ∧ (passed c h s).hi = c.hi ∧
    (∀ f, (passed c h s).single f = c.single f) ∧
    (passed c h s).fcr25 = (fcrEffect c h (moved c s)).fcr25 := by
  obtain ⟨hlo, hhi, -, -⟩ := moved_rest (c := c) hs
  obtain ⟨-, flo, fhi, fcpr⟩ := fcr_rest (h := h) c (moved c s)
  obtain ⟨llo, lhi, lcpr, lfcr, -⟩ := lo_rest c (fcrEffect c h (moved c s)) 0
  obtain ⟨hhi', hlo', hcpr, hfcr, -⟩ := hi_rest c (loEffect c (fcrEffect c h (moved c s))) 0
  refine ⟨?_, ?_, fun f => ?_, hfcr.trans lfcr⟩
  · rw [passed, hlo', llo, flo, hlo]
    split
    · rfl
    · next h0 => exact (not_not.mp h0).symm
  · rw [passed, hhi', lhi, fhi, hhi]
    split
    · rfl
    · next h0 => exact (not_not.mp h0).symm
  · rw [IssState.single, passed, hcpr, lcpr, fcpr]
    exact moved_single hs f

theorem passed_gpr {r : BitVec 5} (hr : r ≠ 1) : (passed c h s).gpr r = 0 := by
  obtain ⟨-, -, -, hgpr⟩ := moved_rest (c := c) hs
  obtain ⟨fgpr, -, -, -⟩ := fcr_rest (h := h) c (moved c s)
  obtain ⟨-, -, -, -, lgpr⟩ := lo_rest c (fcrEffect c h (moved c s)) r
  obtain ⟨-, -, -, -, hgpr'⟩ := hi_rest c (loEffect c (fcrEffect c h (moved c s))) r
  rw [passed, hgpr', if_neg fun h => hr h.1, lgpr, if_neg fun h => hr h.1, fgpr, hgpr r hr]

theorem passed_scratch :
    (passed c h s).gpr 1 = 0 ↔ c.hi = 0 ∧ c.lo = 0 ∧ ∀ f, c.single f = 0 := by
  obtain ⟨fgpr, -, -, -⟩ := fcr_rest (h := h) c (moved c s)
  obtain ⟨-, -, -, -, lgpr⟩ := lo_rest c (fcrEffect c h (moved c s)) 1
  obtain ⟨-, -, -, -, hgpr⟩ := hi_rest c (loEffect c (fcrEffect c h (moved c s))) 1
  rw [← moved_scratch hs, passed, hgpr, lgpr, fgpr]
  by_cases hhi : c.hi = 0
  · rw [if_neg fun h => h.2 hhi]
    by_cases hlo : c.lo = 0
    · rw [if_neg fun h => h.2 hlo]
      exact ⟨fun h => ⟨hhi, hlo, h⟩, fun h => h.2.2⟩
    · rw [if_pos ⟨rfl, hlo⟩]
      exact ⟨fun h => absurd h hlo, fun h => absurd h.2.1 hlo⟩
  · rw [if_pos ⟨rfl, hhi⟩]
    exact ⟨fun h => absurd h hhi, fun h => absurd h.1 hhi⟩

end Cleared

/-! ## The run -/

theorem steps_eq_runMips (n : ℕ) (s : IssState) : (machine h depth).steps n s =
    IssState.runMips (depth + 1) (some s) (List.replicate n h) := by
  induction n generalizing s with
  | zero => rfl
  | succ n ih =>
    rw [List.replicate_succ, IssState.runMips, Clocked.run_cons]
    change ((machine h depth).step s).bind _ =
      Clocked.run _ ((machine h depth).step s) (List.replicate n h)
    cases (machine h depth).step s with
    | none => exact (Clocked.run_attempt_none _).symm
    | some t => exact ih t

/-- From a machine that has been set up the interpreter gets to the BREAK, and every register has
what the checkpoint gives it but two: register 1, which carried the constants, when the checkpoint
has zero there, and the condition codes, of which only the first comes back. -/
theorem bootstrap_restores (h : Host) (depth : ℕ) {m : BitVec 32 → BitVec 8} {c s : IssState}
    (hzero : c.gpr 0 = 0) (hs : Cleared s) (hpc : s.pc = base)
    (hmem : s.mem = writeWords m base (bootstrap c)) :
    ∃ t, IssState.runMips (depth + 1) (some s) (List.replicate ((restore c).length + 1) h) =
        some t ∧
      t.brk = true ∧ t.fetch = some brk ∧ t.mem = s.mem ∧ t.lo = c.lo ∧ t.hi = c.hi ∧
      (∀ f, t.single f = c.single f) ∧ (∀ r, r ≠ 1 → t.gpr r = c.gpr r) ∧
      (t.gpr 1 = c.gpr 1 ↔
        c.gpr 1 ≠ 0 ∨ c.hi = 0 ∧ c.lo = 0 ∧ ∀ f, c.single f = 0) ∧
      (t.fcr25 = c.fcr25 ↔
        c.fcr25 = 0 ∨ c.fcr25 = 1 ∧ h.spCmp .EQ (c.single 0) (c.single 0) = true) := by
  have hlen := length_restore c
  have hholds : (machine h depth).Holds ((machine h depth).image s) s.pc (bootstrap c) := by
    rw [hpc]
    refine holds_writeWords ?_ hmem
    rw [bootstrap, List.length_append, List.length_append, List.length_replicate,
      List.length_singleton]
    change 0xd0000 + _ < _
    omega
  obtain ⟨hfront, -⟩ := StraightLine.Machine.holds_append.mp hholds
  obtain ⟨hrestore, hbrk, -⟩ := StraightLine.Machine.holds_append.mp hfront
  have hblock : Block h depth (restore c) (effect c h) := block_restore c
  have hfetch : (effect c h s).fetch = some brk := by
    change (machine h depth).image (effect c h s) ((machine h depth).pc (effect c h s)) = _
    rw [hblock.image, hblock.pc]
    exact hbrk
  have hstep : (machine h depth).step (effect c h s) =
      some { effect c h s with brk := true } := by
    have himage : (machine h depth).image (effect c h s) ((machine h depth).pc (effect c h s)) =
        some brk := hfetch
    rw [StraightLine.Machine.step, himage, Option.bind_some]
    exact exec_brk (h := h) (IssState.execMips h depth) _
  obtain ⟨hlo, hhi, hcpr, hfcr⟩ := effect_rest (h := h) c s
  obtain ⟨plo, phi, psingle, pfcr⟩ := passed_rest (h := h) (c := c) hs
  refine ⟨{ effect c h s with brk := true }, ?_, rfl, hfetch, effect_mem c s,
    hlo.trans plo, hhi.trans phi, fun f => ?_, fun r hr => ?_, ?_, ?_⟩
  · rw [← steps_eq_runMips, StraightLine.Machine.steps_add, hblock.runs s hrestore,
      Option.bind_some]
    change ((machine h depth).step (effect c h s)).bind _ = _
    rw [hstep]
    rfl
  · rw [← psingle f]
    exact congrFun hcpr _
  · change (effect c h s).gpr r = _
    rw [effect_gpr c s hzero, passed_gpr hs hr]
    split
    · rfl
    · next h0 => exact (not_not.mp h0).symm
  · change (effect c h s).gpr 1 = _ ↔ _
    rw [effect_gpr c s hzero, ← passed_scratch (h := h) hs]
    split
    · next h1 => exact ⟨fun _ => .inl h1, fun _ => rfl⟩
    · next h1 => 
      rw [not_not.mp h1]
      exact ⟨fun hp => .inr hp, fun hp => hp.resolve_left (not_not.mpr rfl)⟩
  · change (effect c h s).fcr25 = _ ↔ _
    rw [hfcr, pfcr, fcr_fcr25 c (moved_rest hs).2.2.1, moved_single hs]

/-- A machine with all registers zero that has the program of a checkpoint in its memory. -/
def fresh : IssState where
  toIss := { Iss.zeroed with pc := base }
  cpr1 _ := 0
  brk := false
  mem := writeWords (fun _ => 0) base (bootstrap c)

theorem cleared_fresh : Cleared (fresh c) :=
  ⟨fun _ => rfl, rfl, rfl, fun _ => rfl, rfl⟩

theorem mem_fresh : (fresh c).mem = writeWords (fun _ => 0) base (bootstrap c) := rfl

/-- A value in LO and one in the FPU, with zero in register 1. -/
def checkpoint : IssState where
  toIss := { Iss.zeroed with lo := 3 }
  cpr1 := Function.update (fun _ => 0) 2 0x3f800000
  brk := false
  mem _ := 0

theorem bootstrap_restores_checkpoint :
    ∃ t, IssState.runMips 1 (some (fresh checkpoint)) (List.replicate 7 Host.modular) = some t ∧
      t.lo = 3 ∧ t.single 2 = 0x3f800000 ∧ t.gpr 1 ≠ 0 := by
  have hlen : (restore checkpoint).length = 6 := by decide
  obtain ⟨t, hrun, -, -, -, hlo, -, hsingle, -, hscratch, -⟩ :=
    bootstrap_restores Host.modular 0 (c := checkpoint) rfl (cleared_fresh checkpoint) rfl
      (mem_fresh checkpoint)
  rw [hlen] at hrun
  refine ⟨t, hrun, hlo, hsingle 2, fun h0 => ?_⟩
  rcases hscratch.mp h0 with h1 | ⟨-, h1, -⟩
  · exact h1 rfl
  · exact absurd h1 (by decide)

end Top
end MipsCore
