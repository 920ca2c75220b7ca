import MipsCore.Chip.FrontEnd
import MipsCore.Core.RobPointers

/-! # Calls and returns

The instruction words that wait in the decode queue and in the reorder buffer, and
the words that have retired.  The call and return flags of an entry are those of
its word, and the return stack of the instruction cache counts the calls and
returns among the retired words, as long as the second entry of a pair is not a
JR whose source differs from the first one's.
-/
namespace MipsCore
open BitMask Clocked

/-! ## Instruction words -/

namespace Decode
variable (insn : BitVec 32) {u : Uop}

/-- `JR $31` -/
def isReturn : Bool := opcode insn == 0 && funct insn == 8 && rs insn == 31
/-- `JAL`, `JALR` and `BAL`, which is `BGEZAL $0` -/
def isCall : Bool :=
  opcode insn == 3 || opcode insn == 0 && funct insn == 9 ||
    opcode insn == 1 && insn.extractLsb' 16 5 == 17 && rs insn == 0

/-- The call and return flags of an instruction word. -/
def insnFlags : Bool × Bool := (isCall insn, isReturn insn)

/-- What allocation computes as the flags of a uop from its own fields. -/
def uopFlags (u : Uop) : Bool × Bool :=
  (u.op == .JAL || u.op == .JALR || u.op == .BAL, u.op == .JR && u.srcA == 31)

theorem beq_eq_toNat {w : ℕ} (x y : BitVec w) : (x == y) = decide (x.toNat = y.toNat) := by
  rw [Bool.eq_iff_iff, beq_iff_eq, decide_eq_true_iff, BitVec.toNat_inj]

theorem regimm_uopFlags (p : Bool) :
    uopFlags (regimm insn p u) = (insn.extractLsb' 16 5 == 17 && rs insn == 0, false) := by
  rw [beq_eq_toNat (insn.extractLsb' 16 5)]
  unfold regimm
  split <;> rename_i hf
  case h_5 =>
    rw [hf]
    by_cases h0 : rs insn = 0
    · simp only [uopFlags, branchOne, if_pos h0, beq_iff_eq.mpr h0]
      rfl
    · simp only [uopFlags, branchOne, if_neg h0, beq_eq_false_iff_ne.mpr h0]
      rfl
  case h_6 =>
    have h17 : decide ((insn.extractLsb' 16 5).toNat = BitVec.toNat (17 : BitVec 5)) = false :=
      decide_eq_false hf
    rw [h17]
    rfl
  all_goals
    rw [hf]
    rfl

/-- Neither a call nor a jump through a register. -/
def isPlain (op : Opcode) : Bool := op != .JAL && op != .JALR && op != .BAL && op != .JR

theorem uopFlags_plain (h : isPlain u.op = true) : uopFlags u = (false, false) := by
  simp only [isPlain, Bool.and_eq_true, bne_iff_ne] at h
  simp [uopFlags, h]

theorem isPlain_rdOp {op : Opcode} (h : isPlain op = true) : isPlain (rdOp insn op u).op = true := by
  unfold rdOp
  split_ifs
  · rfl
  · exact h

theorem isPlain_rtImm {op : Opcode} (h : isPlain op = true) : isPlain (rtImm insn op u).op = true := by
  unfold rtImm
  split_ifs
  · rfl
  · exact h

theorem rtype_plain (t : Word) (h : isPlain u.op = true) (h8 : funct insn ≠ 8)
    (h9 : funct insn ≠ 9) : isPlain (rtype insn t u).op = true := by
  unfold rtype
  split
  case h_9 hf => exact absurd (BitVec.eq_of_toNat_eq hf) h8
  case h_10 hf => exact absurd (BitVec.eq_of_toNat_eq hf) h9
  all_goals
    (try split_ifs) <;> first
      | rfl
      | exact h
      | exact isPlain_rdOp insn rfl

theorem rtype_uopFlags (t : Word) (h : u.op = .II) :
    uopFlags (rtype insn t u) = (funct insn == 9, funct insn == 8 && rs insn == 31) := by
  by_cases h8 : funct insn = 8
  · rw [rtype, h8]
    rfl
  by_cases h9 : funct insn = 9
  · rw [rtype, h9]
    rfl
  rw [uopFlags_plain (rtype_plain insn t (by rw [h]; rfl) h8 h9), beq_eq_false_iff_ne.mpr h8,
    beq_eq_false_iff_ne.mpr h9]
  rfl

theorem isPlain_fmtOp (fmt : BitVec 5) {sp dp : Opcode} (hs : isPlain sp = true)
    (hd : isPlain dp = true) : isPlain (fmtOp fmt sp dp) = true := by
  unfold fmtOp
  split
  · exact hs
  · exact hd
  · rfl

theorem coproc0_plain (h : isPlain u.op = true) : isPlain (coproc0 insn u).op = true := by
  unfold coproc0
  split_ifs <;> (try split) <;> first | rfl | exact h

theorem fpOps_plain (m : Bool) (h : isPlain u.op = true) : isPlain (fpOps insn m u).op = true := by
  unfold fpOps
  split <;> (try simp only [fpArith, fpCompare, fpOne]) <;> (try split_ifs) <;> first
    | rfl
    | exact h
    | exact isPlain_fmtOp _ rfl rfl

theorem coproc1_plain (m p : Bool) (h : isPlain u.op = true) :
    isPlain (coproc1 insn m p u).op = true := by
  unfold coproc1
  split_ifs
  · unfold fpBranch
    cases insn.getLsbD 17 <;> cases insn.getLsbD 16 <;> rfl
  all_goals first
    | exact fpOps_plain insn m h
    | rfl

theorem special2_plain (h : isPlain u.op = true) : isPlain (special2 insn u).op = true := by
  unfold special2
  split <;> (try simp only [rdOp, twoSrc, hiloOp]) <;> (try split_ifs) <;> first | rfl | exact h

theorem special3_plain (h : isPlain u.op = true) : isPlain (special3 insn u).op = true := by
  unfold special3
  split <;> (try simp only) <;> (try split_ifs) <;> first | rfl | exact h

theorem majorOp_plain (m p : Bool) (t : Word) (h : isPlain u.op = true) (h0 : opcode insn ≠ 0)
    (h1 : opcode insn ≠ 1) (h3 : opcode insn ≠ 3) : isPlain (majorOp insn m p t u).op = true := by
  unfold majorOp
  split
  case h_1 ho => exact absurd (BitVec.eq_of_toNat_eq ho) h0
  case h_2 ho => exact absurd (BitVec.eq_of_toNat_eq ho) h1
  case h_4 ho => exact absurd (BitVec.eq_of_toNat_eq ho) h3
  case h_16 => exact coproc0_plain insn h
  case h_17 => exact coproc1_plain insn m p h
  case h_25 => exact special2_plain insn h
  case h_26 => exact special3_plain insn h
  all_goals
    (try split_ifs) <;> first
      | rfl
      | exact h
      | exact isPlain_rtImm insn rfl

theorem majorOp_uopFlags (m p : Bool) (t : Word) (h : u.op = .II) :
    uopFlags (majorOp insn m p t u) = insnFlags insn := by
  by_cases h0 : opcode insn = 0
  · have hr := rtype_uopFlags insn t h
    rw [majorOp, insnFlags, isCall, isReturn, h0]
    refine hr.trans ?_
    simp
  by_cases h1 : opcode insn = 1
  · have hr := regimm_uopFlags (u := u) insn p
    rw [majorOp, insnFlags, isCall, isReturn, h1]
    exact hr
  by_cases h3 : opcode insn = 3
  · rw [majorOp, insnFlags, isCall, isReturn, h3]
    rfl
  have hplain := majorOp_plain insn m p t (by rw [h]; rfl) h0 h1 h3
  rw [uopFlags_plain hplain, insnFlags, isCall, isReturn, beq_eq_false_iff_ne.mpr h0,
    beq_eq_false_iff_ne.mpr h1, beq_eq_false_iff_ne.mpr h3]
  rfl

end Decode

theorem decode_uopFlags (m : Bool) (f : InsnFetch) :
    Decode.uopFlags (decodeMips32 m f) = Decode.insnFlags f.data :=
  Decode.majorOp_uopFlags _ _ _ _ rfl

/-! ## The flags of the reorder buffer -/

namespace Core
open Decode (isCall isReturn insnFlags uopFlags)
variable {s : Core} {i : CoreIn} {live : List (BitVec 32)}

def entryFlags (e : RobEntry) : Bool × Bool := (e.isCall, e.isRet)

theorem entryFlags_stable : Stable entryFlags := ⟨fun _ _ => rfl, fun _ _ => rfl⟩

/-- When a pair is allocated whose second uop is a JR, both uops name the link register as their
first source, or neither does. -/
def RetsAgree (s : Core) (i : CoreIn) : Prop :=
  s.allocatesTwo i = true → s.tUop2.op = .JR → (s.tUop.srcA = 31 ↔ s.tUop2.srcA = 31)

instance : Decidable (s.RetsAgree i) := inferInstanceAs (Decidable (_ → _ → _))

theorem entryFlags_foldEntry (fold : Bool) (op : Opcode) (e : RobEntry) :
    entryFlags (foldEntry fold op e) = entryFlags e := by
  unfold foldEntry
  split_ifs <;> rfl

theorem entryFlags_tRobTail : entryFlags s.tRobTail = uopFlags s.tUop := by
  rw [tRobTail, entryFlags_foldEntry]
  unfold destEntry
  split_ifs <;> rfl

theorem entryFlags_tRobNextTail (h : s.RetsAgree i) (ha : s.allocatesTwo i = true) :
    entryFlags s.tRobNextTail = uopFlags s.tUop2 := by
  have hret : (s.tUop2.op == .JR && s.tUop.srcA == 31) = (s.tUop2.op == .JR && s.tUop2.srcA == 31) := by
    cases hop : s.tUop2.op == .JR with
    | false => rfl
    | true =>
      have hiff := h ha (beq_iff_eq.mp hop)
      rw [Bool.true_and, Bool.true_and, Bool.eq_iff_iff, beq_iff_eq, beq_iff_eq, hiff]
  rw [tRobNextTail, entryFlags_foldEntry, hret]
  unfold destEntry2
  split_ifs <;> rfl

/-- The entries that a cycle allocates have the flags of their uops. -/
theorem newEntries_flags (h : s.RetsAgree i) :
    (s.newEntries i).map entryFlags = (s.allocUops i).map uopFlags := by
  unfold newEntries allocUops
  split_ifs with h1 h2
  · rw [List.map_cons, List.map_singleton, entryFlags_tRobTail, entryFlags_tRobNextTail h h2]
    rfl
  · rw [List.map_singleton, entryFlags_tRobTail]
    rfl
  · rfl

/-- The words that the cycle decodes into the queue. -/
def newInsns (s : Core) (i : CoreIn) : List (BitVec 32) :=
  if dqPush s i then if dqPushTwo s i then [i.insn.data, i.insnTwo.data] else [i.insn.data] else []

theorem newUops_flags : (newUops s i).map uopFlags = (s.newInsns i).map insnFlags := by
  unfold newUops newInsns
  split_ifs <;> simp [tDecUop, tDecUop2, decode_uopFlags]

/-- Of the entries that a cycle retires the head alone can have a property that keeps an entry out
of the second slot. -/
theorem countP_retired (hp : s.Pointers) (hm : s.MonitorAllocated i) {f : RobEntry → Bool}
    (h2 : s.retiresTwo = true → f s.tRobNextHead = false) :
    (s.window.take (s.retireCount i)).countP f = (f s.tRobHead && s.retires i).toNat := by
  unfold retireCount
  split_ifs with hr ht
  · obtain ⟨-, -, hne, hnn⟩ := retiresTwo_retires (i := i) ht
    obtain ⟨rest, hw⟩ := window_cons_cons hp hne hnn
    rw [hw, hr, List.take_succ_cons, List.take_succ_cons, List.take_zero, List.countP_cons,
      List.countP_singleton, h2 ht, Bool.and_true]
    cases f s.tRobHead <;> rfl
  · obtain ⟨rest, hw⟩ := window_cons (robCount_pos.mpr (retires_nonempty hp hm hr))
    rw [hw, hr, List.take_succ_cons, List.take_zero, List.countP_singleton, Bool.and_true]
    cases f s.tRobHead <;> rfl
  · rw [List.take_zero, eq_false_of_ne_true hr, Bool.and_false]
    rfl

theorem retiresTwo_flags (h : s.retiresTwo = true) : entryFlags s.tRobNextHead = (false, false) := by
  simp only [retiresTwo, canRetireTwo, Bool.and_eq_true, Bool.not_eq_true'] at h
  rw [entryFlags, h.2.1.1.2, h.2.1.1.1.2]

/-- A property of the flags counted over the retired words. -/
theorem countP_retired_insns (hp : s.Pointers) (hm : s.MonitorAllocated i)
    (hl : s.window.map entryFlags = live.map insnFlags) {g : Bool × Bool → Bool}
    (hg : g (false, false) = false) :
    (live.take (s.retireCount i)).countP (g ∘ insnFlags) =
      (g (entryFlags s.tRobHead) && s.retires i).toNat := by
  have hcount := countP_retired hp hm (f := g ∘ entryFlags) fun h => by
    rw [Function.comp_apply, retiresTwo_flags h, hg]
  rw [← List.countP_map, List.map_take, ← hl, ← List.map_take, List.countP_map, hcount]
  rfl

/-- The words of the queue and of the buffer after a cycle. -/
theorem step_queue_flags {waiting : List (BitVec 32)} (hp : s.DqPointers)
    (hc : s.clearsQueue i = false) (hq : s.queue.map uopFlags = waiting.map insnFlags) :
    (s.step i).queue.map uopFlags =
      ((waiting ++ s.newInsns i).drop (s.allocCount i)).map insnFlags := by
  rw [step_queue hp hc, List.map_drop, List.map_append, hq, newUops_flags, ← List.map_append,
    ← List.map_drop]

theorem step_window_flags {waiting : List (BitVec 32)} (hp : s.Pointers) (hm : s.MonitorAllocated i)
    (hg : s.RetsAgree i) (hf : s.flushes = false)
    (hq : s.queue.map uopFlags = waiting.map insnFlags)
    (hl : s.window.map entryFlags = live.map insnFlags) :
    (s.step i).window.map entryFlags =
      ((live ++ waiting.take (s.allocCount i)).drop (s.retireCount i)).map insnFlags := by
  have hnew : (s.allocUops i).map uopFlags = (waiting.take (s.allocCount i)).map insnFlags := by
    obtain ⟨rest, hrest⟩ := queue_eq_allocUops (i := i) hp.toDqPointers
    rw [List.map_take, ← hq, hrest, ← List.map_take, ← length_allocUops, List.take_left]
  exact step_window_view entryFlags_stable hp hm hf hl ((newEntries_flags hg).trans hnew)

end Core

/-! ## Retired words and the return stack -/

/-- The front end, the words of its queue and of its reorder buffer, and the words that have
retired. -/
structure ReturnLedger where
  front : FrontEnd
  waiting : List (BitVec 32)
  live : List (BitVec 32)
  retired : List (BitVec 32)

namespace ReturnLedger
open Decode (isCall isReturn insnFlags uopFlags)
open MipsCore.Core (entryFlags)
variable (h : ReturnLedger) (i : FrontEndIn)

def reset (rob : RobPtr → RobEntry) (dq : BitVec 2 → Uop) (m : ExecInit) (d : L1iInit) :
    ReturnLedger where
  front := FrontEnd.reset rob dq m d
  waiting := []
  live := []
  retired := []

def core : Core := h.front.pipe.core
def coreIn : CoreIn := h.front.coreIn i

/-- The words that the cycle retires. -/
def retiring : List (BitVec 32) := h.live.take (h.core.retireCount (h.coreIn i))

def step : ReturnLedger where
  front := h.front.step i
  waiting :=
    if h.core.clearsQueue (h.coreIn i) then []
    else (h.waiting ++ h.core.newInsns (h.coreIn i)).drop (h.core.allocCount (h.coreIn i))
  live :=
    if h.core.flushes then []
    else (h.live ++ h.waiting.take (h.core.allocCount (h.coreIn i))).drop
      (h.core.retireCount (h.coreIn i))
  retired := h.retired ++ h.retiring i

theorem step_core : (h.step i).core = h.core.step (h.coreIn i) := rfl

/-- The top of the return stack once the reports of the last cycle have arrived. -/
def archTop : BitVec 2 := h.front.l1i.nArchRsTos (h.front.l1iIn {})

theorem step_archRsTos : (h.step i).front.l1i.archRsTos = h.archTop := rfl

/-- Where the top of the stack stands after these words: a call pushes and a return pops. -/
def topAfter (words : List (BitVec 32)) : BitVec 2 :=
  3 - BitVec.ofNat 2 (words.countP isCall) + BitVec.ofNat 2 (words.countP isReturn)

/-- The return address bookkeeping of a cycle: every live entry has the flags of its word, the
cycle reports a retired call and a retired return exactly as often as it retires one, at most one of
them, and the stack has moved once for each of all retired ones. -/
structure Bookkeeping : Prop where
  flags : h.core.window.map entryFlags = h.live.map insnFlags
  calls : ((h.retiring i).countP isCall) = ((h.step i).core.retiredCall).toNat
  returns : ((h.retiring i).countP isReturn) = ((h.step i).core.retiredRet).toNat
  top : (h.step i).front.l1i.archRsTos = topAfter h.retired

/-- The allocation of a monitor call is not refused, and pairs agree on the link register. -/
def Agrees : Prop :=
  h.core.MonitorRoom (h.coreIn i) ∧ h.core.RetsAgree (h.coreIn i)

instance : Decidable (h.Agrees i) := inferInstanceAs (Decidable (_ ∧ _))

structure Inv : Prop where
  rob : h.core.RobInv
  waiting : h.core.queue.map uopFlags = h.waiting.map insnFlags
  live : h.core.window.map entryFlags = h.live.map insnFlags
  valid : h.core.retiredCall = true ∨ h.core.retiredRet = true → h.core.retireValid = true
  top : h.archTop = topAfter h.retired

variable {h : ReturnLedger} {i : FrontEndIn}

theorem reset_inv (rob : RobPtr → RobEntry) (dq : BitVec 2 → Uop) (m : ExecInit) (d : L1iInit) :
    (reset rob dq m d).Inv where
  rob := Core.reset_robInv rob dq
  waiting := by rw [core, reset, FrontEnd.reset, Pipeline.reset, Core.reset_queue]; rfl
  live := by
    have hcount : (Core.reset rob dq).robCount = 0 := by simp [Core.robCount, Core.reset]
    change ((Core.reset rob dq).window).map entryFlags = []
    rw [Core.window, hcount]
    rfl
  valid := by rintro (hc | hr) <;> contradiction
  top := by
    change (3 : BitVec 2) = 3 - BitVec.ofNat 2 0 + BitVec.ofNat 2 0
    decide

theorem step_retiredCall :
    (h.step i).core.retiredCall = (h.core.tRobHead.isCall && h.core.retires (h.coreIn i)) := by
  rw [← Core.comb_tRetire]
  rfl

theorem step_retiredRet :
    (h.step i).core.retiredRet = (h.core.tRobHead.isRet && h.core.retires (h.coreIn i)) := by
  rw [← Core.comb_tRetire]
  rfl

/-- The cycle reports as many calls, and as many returns, as it retires. -/
theorem Inv.reports (hi : h.Inv) :
    (h.retiring i).countP isCall = ((h.step i).core.retiredCall).toNat ∧
      (h.retiring i).countP isReturn = ((h.step i).core.retiredRet).toNat := by
  have hp := hi.rob.pointers
  have hm := hi.rob.monitorAllocated (i := h.coreIn i)
  have hcall := Core.countP_retired_insns hp hm hi.live (g := Prod.fst) rfl
  have hret := Core.countP_retired_insns hp hm hi.live (g := Prod.snd) rfl
  rw [step_retiredCall, step_retiredRet]
  exact ⟨hcall, hret⟩

theorem not_call_of_return {insn : BitVec 32} (hr : isReturn insn = true) : isCall insn = false := by
  simp only [isReturn, Bool.and_eq_true, beq_iff_eq] at hr
  simp [isCall, hr.1.1, hr.1.2]

/-- No word is both a call and a return. -/
theorem insnFlags_one (insn : BitVec 32) : ((insnFlags insn).1 && (insnFlags insn).2) = false := by
  cases hr : isReturn insn with
  | false => rw [insnFlags, hr, Bool.and_false]
  | true => rw [insnFlags, hr, not_call_of_return hr]; rfl

/-- No cycle reports both a call and a return. -/
theorem Inv.reports_one (hi : h.Inv) :
    ¬((h.step i).core.retiredCall = true ∧ (h.step i).core.retiredRet = true) := by
  have hboth := Core.countP_retired_insns hi.rob.pointers
    (hi.rob.monitorAllocated (i := h.coreIn i)) hi.live (g := fun p => p.1 && p.2) rfl
  rw [List.countP_eq_zero.mpr fun w _ => by
    rw [Function.comp_apply, insnFlags_one]
    exact Bool.false_ne_true] at hboth
  have hnone : (h.core.tRobHead.isCall && h.core.tRobHead.isRet && h.core.retires (h.coreIn i)) = false :=
    Bool.toNat_eq_zero.mp hboth.symm
  rw [step_retiredCall, step_retiredRet, Bool.and_eq_true, Bool.and_eq_true]
  rintro ⟨⟨hc, hr⟩, ht, -⟩
  rw [hc, ht, hr] at hnone
  cases hnone

theorem step_archTop (hone : ¬((h.step i).core.retiredCall = true ∧ (h.step i).core.retiredRet = true))
    (hv : (h.step i).core.retiredCall = true ∨ (h.step i).core.retiredRet = true →
      (h.step i).core.retireValid = true) :
    (h.step i).archTop =
      h.archTop - BitVec.ofNat 2 ((h.step i).core.retiredCall).toNat +
        BitVec.ofNat 2 ((h.step i).core.retiredRet).toNat := by
  have htop : (h.step i).archTop =
      if (h.step i).core.retireValid && (h.step i).core.retiredCall then h.archTop - 1
      else if (h.step i).core.retireValid && (h.step i).core.retiredRet then h.archTop + 1
      else h.archTop := rfl
  rw [htop]
  cases hc : (h.step i).core.retiredCall <;> cases hr : (h.step i).core.retiredRet <;> simp_all

theorem topAfter_append (xs ys : List (BitVec 32)) :
    topAfter (xs ++ ys) =
      topAfter xs - BitVec.ofNat 2 (ys.countP isCall) + BitVec.ofNat 2 (ys.countP isReturn) := by
  simp only [topAfter, List.countP_append, BitVec.ofNat_add, BitVec.sub_eq_add_neg, BitVec.neg_add]
  ac_rfl

theorem step_inv (hi : h.Inv) (hg : h.Agrees i) : (h.step i).Inv := by
  have hp := hi.rob.pointers
  have hm := hi.rob.monitorAllocated (i := h.coreIn i)
  have hv : (h.step i).core.retiredCall = true ∨ (h.step i).core.retiredRet = true →
      (h.step i).core.retireValid = true := by
    change (_ && _) = true ∨ (_ && _) = true → _
    rintro (hc | hr)
    · exact (Bool.and_eq_true _ _ ▸ hc).2
    · exact (Bool.and_eq_true _ _ ▸ hr).2
  refine ⟨Core.step_robInv hi.rob hg.1, ?_, ?_, hv, ?_⟩
  · cases hc : h.core.clearsQueue (h.coreIn i) with
    | true => rw [step_core, (Core.step_clearQueue hc).2, step, hc]; rfl
    | false =>
      rw [step_core, Core.step_queue_flags hp.toDqPointers hc hi.waiting, step, hc]
      rfl
  · cases hf : h.core.flushes with
    | true => rw [step_core, (Core.step_flush hf).2.2.2, step, hf]; rfl
    | false =>
      rw [step_core, Core.step_window_flags hp hm hg.2 hf hi.waiting hi.live, step, hf]
      rfl
  · obtain ⟨hcall, hret⟩ := hi.reports (i := i)
    rw [step_archTop hi.reports_one hv, hi.top, ← hcall, ← hret, ← topAfter_append]
    rfl

theorem Inv.bookkeeping (hi : h.Inv) : h.Bookkeeping i where
  flags := hi.live
  calls := (hi.reports (i := i)).1
  returns := (hi.reports (i := i)).2
  top := by rw [step_archRsTos, hi.top]

/-- In every run in which pairs agree on the link register and no monitor call is refused, the call
and return flags are those of the instructions, and the return stack of the instruction cache moves
once for each retired call and return. -/
theorem run_bookkeeping (rob : RobPtr → RobEntry) (dq : BitVec 2 → Uop) (m : ExecInit) (d : L1iInit)
    (inputs : List FrontEndIn) (i : FrontEndIn)
    (hg : Guarded step Agrees (reset rob dq m d) inputs) :
    (run step (reset rob dq m d) inputs).Bookkeeping i :=
  (hg.invariant (fun _ _ hi hs => step_inv hi hs) (reset_inv rob dq m d)).bookkeeping

/-- A line that begins with `first` and JR $31, entered at the J 0 behind them, and a line of NOPs
in front of it, so that both arrive in the decode queue together. -/
def pairRun (first : BitVec 32) : List FrontEndIn :=
  ([{ outside := { resume := true, resumePc := 0x18 } }, {}, {}, {},
    { memRspValid := true, memRspLoadData := 0x08#64 ++ bswap32 0x03e00008 ++ bswap32 first }, {}, {},
    {}, {}, { memRspValid := true }] : List FrontEndIn) ++ List.replicate 6 ({} : FrontEndIn)

theorem step_eval : step = fun h i => { h.step i with front := h.front.stepEval i } := by
  rw [← FrontEnd.step_eq_stepEval]
  rfl

/-- The pair ADDU $2, $3, $31 and JR $31. -/
theorem run_bookkeeping_pair :
    (run step (reset (fun _ => {}) (fun _ => {}) {} {}) (pairRun 0x007f1021)).Bookkeeping {} :=
  run_bookkeeping _ _ _ _ _ _ (by rw [step_eval]; decide +kernel)

/-- Behind ADDU $2, $3, $4 in one pair, JR $31 is not flagged as a return. -/
theorem exists_not_bookkeeping :
    ¬∀ (rob : RobPtr → RobEntry) (dq : BitVec 2 → Uop) (m : ExecInit) (d : L1iInit)
      (inputs : List FrontEndIn) (i : FrontEndIn),
      (run step (reset rob dq m d) inputs).Bookkeeping i := by
  intro h
  have hflags := (h (fun _ => {}) (fun _ => {}) {} {} (pairRun 0x00641021) {}).flags
  obtain ⟨hrob, hlive⟩ :
      (run step (reset (fun _ => {}) (fun _ => {}) {} {}) (pairRun 0x00641021)).core.window.map
          entryFlags = [(false, false), (false, false)] ∧
        (run step (reset (fun _ => {}) (fun _ => {}) {} {}) (pairRun 0x00641021)).live.map
          insnFlags = [(false, false), (false, true)] := by
    rw [step_eval]
    exact ⟨by decide +kernel, by decide +kernel⟩
  exact absurd (hrob.symm.trans (hflags.trans hlive)) (by decide)

end ReturnLedger
end MipsCore
