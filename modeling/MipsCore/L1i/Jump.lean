import MipsCore.L1i.Fetch
import MipsCore.Iss.Link

/-! # Absolute jumps

J and JAL from the fetch that predicts them to the completion that does not check
them: the stream goes on at a target in the region of the jump, where the
interpreter and the integer unit take the region of the delay slot.
-/
namespace MipsCore
open Clocked (Guarded run)

/-! ## The words and their targets -/

namespace Iss

/-- J and JAL. -/
def JumpWord (w : BitVec 32) : Prop := (opcode w).toNat = 2 ∨ (opcode w).toNat = 3

instance (w : BitVec 32) : Decidable (JumpWord w) := inferInstanceAs (Decidable (_ ∨ _))

/-- The J arm of the interpreter: `slot` is the recursive call of `execMips`. -/
def j (slot : Iss → Option Iss) (s : Iss) (inst : BitVec 32) : Option Iss :=
  let t := s.next
  let jaddr := (inst.extractLsb' 0 26).setWidth 32 <<< 2 ||| t.pc &&& 0xf0000000
  (slot t).map fun t => { t with pc := jaddr }

/-- `execMips` on J and JAL. -/
def execJump (slot : Iss → Option Iss) (s : Iss) (inst : BitVec 32) : Option Iss :=
  match (opcode inst).toNat with
  | 2 => s.j slot inst
  | _ => s.jal slot inst

end Iss

open Iss (JumpWord)

/-- `{(pc + 4)[63:28], index, 00}` -/
def jumpDest (pc : Word) (w : BitVec 32) : Word :=
  (pc + 4).extractLsb' 28 36 ++ w.extractLsb' 0 26 ++ 0#2

/-- The jump and its delay slot lie in one region of 256 MB. -/
def SameRegion (pc : Word) : Prop := (pc + 4).extractLsb' 28 36 = pc.extractLsb' 28 36

instance (pc : Word) : Decidable (SameRegion pc) := inferInstanceAs (Decidable (_ = _))

/-- Only the last word of a region has its delay slot in the next one. -/
theorem sameRegion_iff (pc : Word) : SameRegion pc ↔ (pc.extractLsb' 0 28).toNat + 4 < 2 ^ 28 := by
  rw [SameRegion, ← BitVec.toNat_inj]
  simp only [BitVec.extractLsb'_toNat, BitVec.toNat_add, Nat.shiftRight_eq_div_pow]
  have := pc.isLt
  change (pc.toNat + 4) % _ / _ % _ = _ ↔ _
  omega

theorem append_region_inj {x y : BitVec 36} {w : BitVec 32} :
    (x ++ w.extractLsb' 0 26 ++ 0#2 : Word) = y ++ w.extractLsb' 0 26 ++ 0#2 ↔ x = y := by
  refine ⟨fun h => ?_, fun h => by rw [h]⟩
  have hx (x : BitVec 36) : ((x ++ w.extractLsb' 0 26 ++ 0#2 : Word)).extractLsb' 28 36 = x := by
    ext k hk
    simp
    grind
  rw [← hx x, h, hx]

/-- The interpreter continues at the target, whatever the delay slot does. -/
theorem execJump_pc (slot : Iss → Option Iss) (s : Iss) {pc : Word} {w : BitVec 32}
    (hpc : s.pc = lo32 pc) (hw : JumpWord w) :
    ∃ t, s.execJump slot w = (slot t).map fun t => { t with pc := lo32 (jumpDest pc w) } := by
  have hdest : (w.extractLsb' 0 26).setWidth 32 <<< 2 ||| (s.pc + 4) &&& 0xf0000000 =
      lo32 (jumpDest pc w) := by
    have h4 : s.pc + 4 = lo32 (pc + 4) := by rw [hpc, lo32_add]; rfl
    rw [h4, jumpDest]
    have hmask : ∀ k : Fin 32, (0xf0000000 : BitVec 32).getLsbD k = decide (28 ≤ k.val) := by decide
    refine BitVec.eq_of_getLsbD_eq fun k hk => ?_
    have hm : (0xf0000000 : BitVec 32).getLsbD k = decide (28 ≤ k) := hmask ⟨k, hk⟩
    simp only [BitVec.getLsbD_or, BitVec.getLsbD_and, BitVec.getLsbD_shiftLeft, lo32_eq, hm,
      BitVec.getLsbD_setWidth, BitVec.getLsbD_extractLsb', BitVec.getLsbD_append, hk]
    by_cases h2 : k < 2
    · simp [h2, show ¬28 ≤ k by omega]
    · by_cases h28 : 28 ≤ k
      · have : 28 + (k - 2 - 26) = k := by omega
        simp [h2, h28, this, show ¬k - 2 < 26 by omega, show k - 2 - 26 < 36 by omega]
      · simp [h2, h28, show k - 2 < 26 by omega, show k - 2 < 32 by omega]
  rcases hw with hw | hw
  · exact ⟨s.next, by rw [Iss.execJump, hw, ← hdest]; rfl⟩
  · exact ⟨(s.set 31 (s.pc + 8)).next, by rw [Iss.execJump, hw, ← hdest]; rfl⟩

/-! ## The completion -/

/-- J is folded, and what the unit makes of JAL is not a misprediction, at its target. -/
def Unchecked (f : InsnFetch) : Prop :=
  ∀ (m : Bool) (v : RegView) (a : AluIn), Executes v (decodeMips32 m f) a →
    Core.folds (decodeMips32 m f) = true ∨
      (Alu.run a).mispredBr = false ∧ (Alu.run a).pc = jumpDest f.pc f.data

theorem unchecked_of_jump {f : InsnFetch} (hw : JumpWord f.data) : Unchecked f := by
  intro m v a hx
  rcases hw with hw | hw <;> have hw' : (Decode.opcode f.data).toNat = _ := hw
  · left
    simp only [decodeMips32, Decode.majorOp, hw']
    rfl
  · right
    have hop : a.uop.op = .JAL := by
      rw [hx.op]
      simp only [decodeMips32, Decode.majorOp, hw']
    have hpred : a.uop.brPred = true := by
      rw [hx.brPred]
      simp only [decodeMips32, Decode.majorOp, hw']
    have hpc : a.uop.pc = f.pc := hx.pc.trans (decode_pc m f)
    have himm : a.uop.imm = f.data.extractLsb' 0 16 := by
      rw [hx.imm]
      simp only [decodeMips32, Decode.majorOp, hw']
      rfl
    have hjmp : a.uop.jmpImm = (f.data.extractLsb' 16 10).setWidth 48 := by
      rw [hx.jmpImm]
      simp only [decodeMips32, Decode.majorOp, hw']
    refine ⟨?_, ?_⟩
    · simp only [Alu.run, hop, Alu.branch, hpred]
      rfl
    · simp only [Alu.run, hop, Alu.pc4, hpc, himm, hjmp, jumpDest]
      ext k hk
      simp
      grind

/-! ## The prediction -/

namespace L1i
variable {s : L1i} {i : L1iIn}

theorem predecode_jump {w : BitVec 32} (hw : JumpWord w) :
    predecode w = .IS_J ∨ predecode w = .IS_JAL := by
  rcases hw with hw | hw <;> have hw' : (w.extractLsb' 26 6).toNat = _ := hw
  · exact .inl (by simp only [predecode, hw'])
  · exact .inr (by simp only [predecode, hw'])

/-- The words before the first marker, but for the first one, are no transfers. -/
theorem firstMarker_clear : ∀ (k : BitVec 2) (n : Fin 4) (c3 c2 c1 c0 c : Bool), 0 < n.val →
    n.val < firstMarker (((1#1 ++ BitVec.ofBool c3 ++ BitVec.ofBool c2 ++ BitVec.ofBool c1 ++
      BitVec.ofBool c0) >>> k.toNat) &&& (0xf#4 ++ BitVec.ofBool c)) →
    (match (k + BitVec.ofNat 2 n.val).toNat with
      | 0 => c0 | 1 => c1 | 2 => c2 | _ => c3) = false := by
  decide

theorem isCflow_clear {n : ℕ} (h0 : 0 < n) (h4 : n < 4) (hn : n < s.tFirstBranch) :
    s.isCflow (s.tInsnIdx + BitVec.ofNat 2 n) = false := by
  have h := firstMarker_clear s.tInsnIdx ⟨n, h4⟩ _ _ _ _ _ h0 hn
  generalize s.tInsnIdx + BitVec.ofNat 2 n = k at h ⊢
  revert h
  have hk : k = 0 ∨ k = 1 ∨ k = 2 ∨ k = 3 := by revert k; decide
  rcases hk with rfl | rfl | rfl | rfl <;> exact id

theorem pushWidth_marker (h : 1 < s.pushWidth) : s.tFirstBranch = s.pushWidth := by
  unfold pushWidth at h ⊢
  split_ifs at h ⊢ <;> simp_all

section Push
variable {image : Word → Line}

/-- A record behind the first one is no transfer. -/
theorem tInsnNext_clear (ha : Agrees image s) (hl : s.Lookup) (hh : s.tHit = true) {n : ℕ}
    (h0 : 0 < n) (hn : n < s.pushWidth) (h4 : n < 4) :
    predecode (s.tInsnNext (BitVec.ofNat 2 n)).data = .NOT_CFLOW := by
  have hclear := @isCflow_clear s n h0 h4 (by rw [pushWidth_marker (by omega)]; exact hn)
  have hline := hit_line ha hl hh
  rw [isCflow, hline.2, bne_eq_false_iff_eq] at hclear
  rw [← hclear, tInsnNext, tInsnData, hline.1, selectCl32_insnLine]
  rfl

variable (hs : s.state = .ACTIVE) (hp : s.action i = .push)
include hs hp

theorem mem_pushed_cases {f : InsnFetch} (ha : Agrees image s) (hl : s.Lookup)
    (hh : s.tHit = true) (hf : f ∈ s.pushed i) :
    f = s.tInsn i ∨ predecode f.data = .NOT_CFLOW := by
  have hnext {n : ℕ} := @tInsnNext_clear s image ha hl hh n
  rw [pushed, if_pos (push_pushes hs hp)] at hf
  have hw := s.pushWidth_cases
  generalize s.pushWidth = w at hw hf hnext
  cases hw with
  | one => exact .inl (by simpa using hf)
  | two =>
    simp only [List.mem_cons, List.not_mem_nil, or_false] at hf
    rcases hf with rfl | rfl
    · exact .inl rfl
    · exact .inr (hnext (n := 1) (by omega) (by omega) (by omega))
  | three =>
    simp only [List.mem_cons, List.not_mem_nil, or_false] at hf
    rcases hf with rfl | rfl | rfl
    · exact .inl rfl
    · exact .inr (hnext (n := 1) (by omega) (by omega) (by omega))
    · exact .inr (hnext (n := 2) (by omega) (by omega) (by omega))
  | four =>
    simp only [List.mem_cons, List.not_mem_nil, or_false] at hf
    rcases hf with rfl | rfl | rfl | rfl
    · exact .inl rfl
    · exact .inr (hnext (n := 1) (by omega) (by omega) (by omega))
    · exact .inr (hnext (n := 2) (by omega) (by omega) (by omega))
    · exact .inr (hnext (n := 3) (by omega) (by omega) (by omega))

/-- A jump is pushed alone, and the stream goes on at its delay slot and its predicted target. -/
theorem push_jump {e : Expect} {f : InsnFetch} (hat : s.At s.cachePc e) (ha : Agrees image s)
    (hl : s.Lookup) (hh : s.tHit = true)
    (hslot : ∀ pc target, e = .slot pc target → predecode (wordAt image pc) = .NOT_CFLOW)
    (hf : f ∈ s.pushed i) (hw : JumpWord f.data) :
    s.nExpect i e = .slot (f.pc + 4) (f.pc.extractLsb' 28 36 ++ f.data.extractLsb' 0 26 ++ 0#2) := by
  have hpd := predecode_jump hw
  have hfirst : f = s.tInsn i := by
    rcases mem_pushed_cases hs hp ha hl hh hf with h | h
    · exact h
    · rw [h] at hpd
      rcases hpd with h | h <;> cases h
  have hdata : f.data = wordAt image s.cachePc := by
    have hidx := s.tInsnIdx.isLt
    rw [hfirst]
    exact (tInsnData_eq ha hl hh (k := 0) (by omega)).trans (by rw [Nat.mul_zero, BitVec.add_zero])
  have hpred : s.predict = taken s.jumpTarget (s.tPd == .IS_JAL) false := by
    rw [predict, tPd_eq ha hl hh, ← hdata]
    rcases hpd with h | h <;> simp only [h] <;> rfl
  have hone : s.pushWidth = 1 := by
    rw [pushWidth, if_pos]
    simp [hpred, taken]
  have hpc : f.pc = s.cachePc := by rw [hfirst]; rfl
  have htarget : (s.tInsn i).predTarget = s.jumpTarget := by
    change s.nPc i = _
    rw [push_nPc hs hp, nPushPc, hone, hpred]
    rfl
  have hrec : s.pushed i = [s.tInsn i] := by simp [pushed, push_pushes hs hp, hone]
  have htake : (s.tInsn i).pred = true := by
    rw [push_pred hs hp, hpred]
    rfl
  have hjump : s.jumpTarget = f.pc.extractLsb' 28 36 ++ f.data.extractLsb' 0 26 ++ 0#2 := by
    rw [hpc, hfirst]
    rfl
  rw [nExpect, push_flushes hs hp, push_restarts hs hp, hrec]
  cases hat with
  | slot =>
    have hno := hslot _ _ rfl
    rw [← hdata] at hno
    rw [hno] at hpd
    rcases hpd with h | h <;> cases h
  | next =>
    simp only [Bool.false_eq_true, if_false, List.foldl_cons, List.foldl_nil, Expect.after, htake,
      if_true, htarget, hjump]
    rw [hfirst]

end Push

end L1i

namespace Fetch
variable {s : Fetch} {i : FetchIn}

/-- After the jump the stream goes on at its delay slot, and behind that at the target. -/
def Continues (s : Fetch) (i : FetchIn) (f : InsnFetch) : Prop :=
  (s.step i).expect = .slot (f.pc + 4) (jumpDest f.pc f.data)

/-- The interpreter goes on at the target that the core should take. -/
def IssContinues (f : InsnFetch) : Prop :=
  ∀ (slot : Iss → Option Iss) (s : Iss), s.pc = lo32 f.pc →
    ∃ t, s.execJump slot f.data = (slot t).map fun t => { t with pc := lo32 (jumpDest f.pc f.data) }

theorem step_jump (h : s.StreamInv) (he : s.Env i) {f : InsnFetch}
    (hf : f ∈ s.l1i.pushed i.toL1iIn) (hw : JumpWord f.data) :
    (s.step i).expect =
      .slot (f.pc + 4) (f.pc.extractLsb' 28 36 ++ f.data.extractLsb' 0 26 ++ 0#2) := by
  have hp : s.l1i.pushes i.toL1iIn = true := by
    by_contra hn
    rw [L1i.pushed_of_not (by simpa using hn)] at hf
    cases hf
  simp only [L1i.pushes, Bool.and_eq_true, beq_iff_eq] at hp
  obtain ⟨hs, hp⟩ := hp
  have hspec := L1i.action_spec (s := s.l1i) (i := i.toL1iIn) h.bubble
  rw [hp] at hspec
  obtain ⟨hfl, hhit, -⟩ := hspec
  have hreq : s.l1i.req = true := by
    simp only [L1i.tHit, Bool.and_eq_true] at hhit
    exact hhit.1
  obtain ⟨hat, hl⟩ : s.l1i.At s.l1i.cachePc s.expect ∧ s.l1i.Lookup := by
    simpa [L1i.Tracks, hs, hreq] using h.tracks
  have ha : s.l1i.Agrees s.image := by
    refine h.arrays ?_ (by rw [hs]; decide)
    simp only [L1i.wantsFlush, Bool.or_eq_false_iff] at hfl
    exact hfl.1
  exact L1i.push_jump hs hp hat ha hl hhit he.slot hf hw

/-- While the idle state takes no restart with the delay-slot flag set, the stream goes on after a
jump and its delay slot at the target that the interpreter takes exactly when both lie in one
region; the completion of the jump changes nothing, as J is folded and JAL is not mispredicted. -/
theorem guarded_jumps (m : L1iInit) (image : Word → Line) (inputs : List FetchIn)
    (h : Guarded step (fun s i => s.Env i ∧ s.SlotClear i) (reset m image) inputs) :
    Guarded step
      (fun s i => s.Streams i ∧ ∀ f ∈ s.l1i.pushed i.toL1iIn, JumpWord f.data →
        (s.Continues i f ↔ SameRegion f.pc) ∧ Unchecked f ∧ IssContinues f)
      (reset m image) inputs := by
  refine @Guarded.of_invariant _ _ step _ StreamInv _
    (fun _ _ hs hi => (step_streamInv hs hi.1 hi.2).1) (fun s i hs hi => ?_) _
    (reset_streamInv m image) _ h
  refine ⟨(step_streamInv hs hi.1 hi.2).2, fun f hf hw => ⟨?_, unchecked_of_jump hw, ?_⟩⟩
  · rw [Continues, step_jump hs hi.1 hf hw, Expect.slot.injEq, and_iff_right rfl, jumpDest,
      append_region_inj]
    exact eq_comm
  · exact fun slot s hpc => execJump_pc slot s hpc hw

/-- The stream of `guarded_streams_jump`, in which J 0x40 is pushed at 0. -/
theorem guarded_jumps_first : (run step (reset {} jumpImage) jumpRun).expect = .slot 4 0x40 := by
  have hsplit : jumpRun = jumpRun.take 5 ++ [quiet] := rfl
  have h := guarded_jumps {} jumpImage jumpRun (by rw [step_eval]; decide +kernel)
  rw [hsplit, Clocked.guarded_append] at h
  have hc := (h.2.1.2 { data := 0x08000010, predTarget := 0x40, pred := true }
    (by rw [step_eval]; decide +kernel) (by decide)).1.mpr (by decide)
  rw [hsplit, Clocked.run_concat]
  exact hc.trans (by decide)

/-- J 0x40 in the last word of every line. -/
def lastImage (_ : Word) : Line := 0x10000008 <<< 96

/-- A restart at the last word of the first region. -/
def lastRun : List FetchIn :=
  [{ restartValid := true, restartPc := 0x0ffffffc }, quiet, quiet,
    { memRspValid := true, memRspLoadData := 0x10000008 <<< 96 }, quiet, quiet]

/-- The jump in the last word of a region goes on in its own region. -/
theorem exists_not_continues :
    ¬∀ (m : L1iInit) (image : Word → Line) (inputs : List FetchIn),
      Guarded step (fun s i => s.Env i ∧ s.SlotClear i) (reset m image) inputs →
        Guarded step (fun s i => ∀ f ∈ s.l1i.pushed i.toL1iIn, JumpWord f.data → s.Continues i f)
          (reset m image) inputs := by
  intro h
  have hall := h {} lastImage lastRun (by rw [step_eval]; decide +kernel)
  have hsplit : lastRun = lastRun.take 5 ++ [quiet] := rfl
  rw [hsplit, Clocked.guarded_append] at hall
  have hc := hall.2.1
    { data := 0x08000010, pc := 0x0ffffffc, predTarget := 0x40, pred := true, phtIdx := 0xffff }
    (by rw [step_eval]; decide +kernel) (by decide)
  have hreal : (run step (reset {} lastImage) (lastRun.take 5 ++ [quiet])).expect =
    .slot 0x10000000 0x40 := by rw [step_eval]; decide +kernel
  rw [Clocked.run_concat] at hreal
  exact absurd (hreal.symm.trans hc) (by decide)

end Fetch
end MipsCore
