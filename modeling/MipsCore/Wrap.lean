import Mathlib.Tactic.IntervalCases
import MipsCore.Arbiter

/-! # The narrow bus

`wrap.sv` serves the line requests of the core over a bus of halfwords: one register counts the
beats of a line, one holds the address of the beat and one says that the halfword shown is valid.
-/
namespace MipsCore
open Clocked (run run_invariant)

/-- The halfword `t_buf_rd[k]` of a line. -/
def half (l : Line) (k : ℕ) : BitVec 16 := l.extractLsb' (16 * k) 16

/-- A line with one halfword replaced. -/
def setHalf (l : Line) (k : ℕ) (h : BitVec 16) : Line :=
  match k with
  | 0 => l.extractLsb' 16 112 ++ h
  | 1 => l.extractLsb' 32 96 ++ h ++ l.extractLsb' 0 16
  | 2 => l.extractLsb' 48 80 ++ h ++ l.extractLsb' 0 32
  | 3 => l.extractLsb' 64 64 ++ h ++ l.extractLsb' 0 48
  | 4 => l.extractLsb' 80 48 ++ h ++ l.extractLsb' 0 64
  | 5 => l.extractLsb' 96 32 ++ h ++ l.extractLsb' 0 80
  | 6 => l.extractLsb' 112 16 ++ h ++ l.extractLsb' 0 96
  | _ => h ++ l.extractLsb' 0 112

inductive WrapFsm
  | IDLE | WRITE | READ
  deriving DecidableEq, Repr

structure Wrap where
  state : WrapFsm := .IDLE
  buf : Line := 0
  isWrite : Bool := false
  addr : Word := 0
  memReqOpcode : BitVec 5 := 0
  cnt : BitVec 4 := 0
  valid : Bool := false
  memRspValid : Bool := false
  deriving DecidableEq, Repr

/-- What the core asks and what the bus delivers. -/
structure WrapIn where
  memReqValid : Bool := false
  memReq : MemRequest := {}
  dIn : BitVec 16 := 0
  dInValid : Bool := false
  deriving DecidableEq, Repr

namespace Wrap
variable (w : Wrap) (i : WrapIn)

/-- `d_out`; no halfword is selected by a count that is not that of one. -/
def dOut : Option (BitVec 16) := if w.cnt.toNat < 8 then some (half w.buf w.cnt.toNat) else none

/-- `t_buf` -/
def tBuf : Line := if i.dInValid then setHalf w.buf w.cnt.toNat i.dIn else w.buf

def step : Wrap :=
  let w' := { w with valid := false, memRspValid := false }
  match w.state with
  | .IDLE =>
    if i.memReqValid then
      { w' with
        buf := i.memReq.storeData
        memReqOpcode := i.memReq.opcode
        cnt := 0
        isWrite := i.memReq.opcode != opcodeLW
        state := if i.memReq.opcode = opcodeLW then .READ else .WRITE }
    else w'
  | .READ =>
    if i.dInValid then
      { w' with
        buf := w.tBuf i
        cnt := w.cnt + 1
        addr := w.addr + 2
        state := if w.cnt = 7 then .IDLE else .READ
        memRspValid := w.cnt = 7 }
    else { w' with buf := w.tBuf i }
  | .WRITE =>
    { w' with
      cnt := w.cnt + 1
      addr := w.addr + 2
      valid := true
      state := if w.cnt = 7 then .IDLE else .WRITE
      memRspValid := w.cnt = 7 }

end Wrap

/-! ## Transfers -/

/-- A halfword on the bus, with the address shown beside it. -/
structure Beat where
  addr : Word
  data : Option (BitVec 16)
  deriving DecidableEq, Repr

/-- The beat of one halfword of the line at an address. -/
def beatAt (a : Word) (l : Line) (k : ℕ) : Beat := ⟨a + BitVec.ofNat 64 (2 * k), some (half l k)⟩

/-- The beats of a line. -/
def lineBeats (a : Word) (l : Line) : List Beat := (List.range 8).map (beatAt a l)

/-- A request with its beats and the line that it is answered with. -/
structure Transfer where
  req : MemRequest
  beats : List Beat := []
  line : Line := 0
  deriving DecidableEq, Repr

/-- The beats are those of the line that is returned or is to be written. -/
def Transfer.Correct (t : Transfer) : Prop :=
  t.beats = lineBeats t.req.addr (if t.req.opcode = opcodeLW then t.line else t.req.storeData)

instance (t : Transfer) : Decidable t.Correct := inferInstanceAs (Decidable (_ = _))

/-- A memory of halfwords after the beats of a write. -/
def storeBeats (m : Word → Option (BitVec 16)) (beats : List Beat) : Word → Option (BitVec 16) :=
  beats.foldl (fun m b => Function.update m b.addr b.data) m

/-- The wrapper beside the transfer under way and those that have been answered. -/
structure Transfers where
  wrap : Wrap := {}
  cur : Option Transfer := none
  done : List Transfer := []
  deriving DecidableEq, Repr

namespace Transfers
variable (s : Transfers) (i : WrapIn)

/-- The beats of a cycle: what is shown as valid, and what a read takes. -/
def beats : List Beat :=
  (if s.wrap.valid then [⟨s.wrap.addr, s.wrap.dOut⟩] else []) ++
    if s.wrap.state = .READ ∧ i.dInValid = true then [⟨s.wrap.addr, some i.dIn⟩] else []

/-- The transfer under way with the beats of the cycle. -/
def nCur : Option Transfer := s.cur.map fun t => { t with beats := t.beats ++ s.beats i }

def step : Transfers where
  wrap := s.wrap.step i
  cur :=
    if s.wrap.state = .IDLE ∧ i.memReqValid = true then some { req := i.memReq }
    else if s.wrap.memRspValid then none else s.nCur i
  done :=
    if s.wrap.memRspValid then
      s.done ++ (s.nCur i).toList.map fun t => { t with line := s.wrap.buf }
    else s.done

/-- A read of what the write before it has stored returns the line written. -/
def RoundTrips : Prop :=
  ∀ n t t' m, s.done[n]? = some t → s.done[n + 1]? = some t' → t.req.opcode ≠ opcodeLW →
    t'.req.opcode = opcodeLW → t'.req.addr = t.req.addr →
    (∀ b ∈ t'.beats, storeBeats m t.beats b.addr = b.data) → t'.line = t.req.storeData

/-- Every request is answered at its eighth beat and has been served, and nothing is shown as valid
outside of one. -/
structure Serves : Prop where
  correct : ∀ t ∈ s.done, t.Correct
  roundTrips : s.RoundTrips
  answers : ∀ t, s.cur = some t → t.beats.length = 8 → s.wrap.memRspValid = true
  quiet : s.wrap.valid = true → s.cur.isSome = true

/-- Every request is a read, and each is of the line after the one before it, from zero on. -/
def ReadsInOrder : Prop :=
  ∀ n t, s.done[n]? = some t → t.req.opcode = opcodeLW ∧ t.req.addr = BitVec.ofNat 64 (16 * n)

/-! ## Halfwords -/

theorem getLsbD_setHalf (l : Line) {k : ℕ} (hk : k < 8) (h : BitVec 16) (b : ℕ) :
    (setHalf l k h).getLsbD b =
      if 16 * k ≤ b ∧ b < 16 * k + 16 then h.getLsbD (b - 16 * k) else l.getLsbD b := by
  by_cases hb : b < 128
  · interval_cases k <;> simp only [setHalf, BitVec.getLsbD_append, BitVec.getLsbD_extractLsb'] <;>
      grind
  · rw [if_neg (by omega), BitVec.getLsbD_of_ge _ _ (by omega), BitVec.getLsbD_of_ge _ _ (by omega)]

theorem half_setHalf (l : Line) {j k : ℕ} (hk : k < 8) (h : BitVec 16) :
    half (setHalf l k h) j = if j = k then h else half l j := by
  refine BitVec.eq_of_getLsbD_eq fun b hb => ?_
  rw [half, BitVec.getLsbD_extractLsb', getLsbD_setHalf l hk]
  by_cases hj : j = k
  · subst hj
    rw [if_pos rfl, if_pos (by omega), Nat.add_sub_cancel_left]
    simp [hb]
  · rw [if_neg hj, if_neg (by omega), half, BitVec.getLsbD_extractLsb']

/-! ## Runs -/

variable {s : Transfers} {i : WrapIn}

/-- Where the address register is when `n` transfers are over. -/
def lineBase (n : ℕ) : Word := BitVec.ofNat 64 (16 * n)

/-- What the beats of the transfer `n` come to: those of a read begin at the address register, and
those of a write are one beat late. -/
def Finished (n : ℕ) (t : Transfer) : Prop :=
  t.beats = if t.req.opcode = opcodeLW then lineBeats (lineBase n) t.line
    else (lineBeats (lineBase n) t.req.storeData).tail ++ [⟨lineBase (n + 1), none⟩]

/-- The transfer under way, by the state of the wrapper. -/
def Phase (s : Transfers) : Prop :=
  let a := lineBase s.done.length
  match s.wrap.state with
  | .IDLE =>
    if s.wrap.memRspValid then
      ∃ t, s.cur = some t ∧ s.wrap.addr = lineBase (s.done.length + 1) ∧
        if t.req.opcode = opcodeLW then s.wrap.valid = false ∧ t.beats = lineBeats a s.wrap.buf
        else s.wrap.valid = true ∧ s.wrap.cnt = 8 ∧ t.beats = (lineBeats a t.req.storeData).tail
    else s.cur = none ∧ s.wrap.valid = false ∧ s.wrap.addr = a
  | .READ => s.wrap.memRspValid = false ∧ s.wrap.valid = false ∧
      ∃ t k, s.cur = some t ∧ t.req.opcode = opcodeLW ∧ k < 8 ∧ s.wrap.cnt = BitVec.ofNat 4 k ∧
        s.wrap.addr = a + BitVec.ofNat 64 (2 * k) ∧
        t.beats = (List.range k).map (beatAt a s.wrap.buf)
  | .WRITE => s.wrap.memRspValid = false ∧
      ∃ t k, s.cur = some t ∧ t.req.opcode ≠ opcodeLW ∧ k < 8 ∧ s.wrap.cnt = BitVec.ofNat 4 k ∧
        s.wrap.addr = a + BitVec.ofNat 64 (2 * k) ∧ s.wrap.buf = t.req.storeData ∧
        s.wrap.valid = decide (k ≠ 0) ∧
        t.beats = ((List.range k).map (beatAt a t.req.storeData)).tail

structure Inv (s : Transfers) : Prop where
  phase : s.Phase
  finished : ∀ n t, s.done[n]? = some t → Finished n t

theorem reset_inv : Inv {} := ⟨⟨rfl, rfl, rfl⟩, fun n t h => by simp at h⟩

theorem lineBase_succ (n : ℕ) : lineBase (n + 1) = lineBase n + BitVec.ofNat 64 (2 * 8) := by
  rw [lineBase, lineBase, BitVec.ofNat_add_ofNat, Nat.mul_succ]

theorem addr_succ (a : Word) (k : ℕ) :
    a + BitVec.ofNat 64 (2 * k) + 2 = a + BitVec.ofNat 64 (2 * (k + 1)) := by
  rw [Nat.mul_succ, BitVec.ofNat_add, BitVec.add_assoc]
  rfl

theorem cnt_eq {k : ℕ} (hk : k < 8) : (BitVec.ofNat 4 k).toNat = k ∧
    (BitVec.ofNat 4 k = 7 ↔ k = 7) := by
  interval_cases k <;> decide

/-- The beats that a write has shown before its count moves on. -/
theorem tail_beats (g : ℕ → Beat) (k : ℕ) :
    ((List.range k).map g).tail ++ (if decide (k ≠ 0) = true then [g k] else []) =
      ((List.range (k + 1)).map g).tail := by
  cases k with
  | zero => rfl
  | succ k =>
    rw [List.range_succ (n := k + 1), List.map_append, List.tail_append_of_ne_nil]
    · simp
    · simp [List.range_succ]

/-- In the idle state a transfer that has been answered is over. -/
theorem step_done (h : s.Inv) (hs : s.wrap.state = .IDLE) :
    s.wrap.addr = lineBase (s.step i).done.length ∧
      (∀ n t, (s.step i).done[n]? = some t → Finished n t) ∧
      (i.memReqValid = false → (s.step i).cur = none) := by
  have hp := h.phase
  simp only [Phase, hs] at hp
  cases hr : s.wrap.memRspValid with
  | false =>
    rw [hr, if_neg Bool.false_ne_true] at hp
    obtain ⟨hc, -, ha⟩ := hp
    refine ⟨by simpa [step, hr] using ha, fun n t ht => h.finished n t ?_, fun hv => ?_⟩
    · simpa [step, hr] using ht
    · simp [step, hs, hv, hr, nCur, hc]
  | true =>
    rw [hr, if_pos rfl] at hp
    obtain ⟨t, hc, ha, ht⟩ := hp
    have hbeats : s.beats i = if s.wrap.valid then [⟨s.wrap.addr, s.wrap.dOut⟩] else [] := by
      simp [beats, hs]
    have hdone : (s.step i).done =
        s.done ++ [{ t with beats := t.beats ++ s.beats i, line := s.wrap.buf }] := by
      simp [step, hr, nCur, hc]
    refine ⟨by rw [hdone, ha]; simp, fun n u hu => ?_, fun hv => by simp [step, hs, hv, hr]⟩
    rw [hdone] at hu
    rcases Nat.lt_trichotomy n s.done.length with hn | rfl | hn
    · rw [List.getElem?_append_left hn] at hu
      exact h.finished n u hu
    · rw [List.getElem?_concat_length] at hu
      obtain rfl := Option.some.inj hu
      unfold Finished
      by_cases hop : t.req.opcode = opcodeLW
      · rw [if_pos hop] at ht ⊢
        simp [hbeats, ht]
      · rw [if_neg hop] at ht ⊢
        simp [hbeats, ht, ha, Wrap.dOut]
    · rw [List.getElem?_eq_none (by simp; omega)] at hu
      cases hu

/-- A request that is taken opens its transfer where the address register is. -/
theorem step_idle (h : s.Inv) (hs : s.wrap.state = .IDLE) : (s.step i).Inv := by
  obtain ⟨ha, hf, hc⟩ := step_done (i := i) h hs
  refine ⟨?_, hf⟩
  unfold Phase
  generalize (s.step i).done.length = m at ha
  cases hv : i.memReqValid with
  | false =>
    rw [hc hv]
    simp only [step, Wrap.step, hs, hv, Bool.false_eq_true, if_false]
    exact ⟨trivial, trivial, ha⟩
  | true =>
    by_cases hop : i.memReq.opcode = opcodeLW
    · simp only [step, Wrap.step, hs, hv, hop, if_true]
      exact ⟨trivial, trivial, _, 0, rfl, hop, by decide, rfl, by simpa using ha, rfl⟩
    · simp only [step, Wrap.step, hs, hv, hop, if_true, if_false]
      exact ⟨trivial, _, 0, rfl, hop, by decide, rfl, by simpa using ha, rfl, rfl, rfl⟩

/-- A halfword that a read takes joins those before it. -/
theorem read_beats (a : Word) (l : Line) {k : ℕ} (hk : k < 8) (h : BitVec 16) :
    (List.range k).map (beatAt a l) ++ [⟨a + BitVec.ofNat 64 (2 * k), some h⟩] =
      (List.range (k + 1)).map (beatAt a (setHalf l k h)) := by
  rw [List.range_succ, List.map_append]
  congr 1
  · refine List.map_congr_left fun j hj => ?_
    have hne : j ≠ k := (List.mem_range.mp hj).ne
    rw [beatAt, beatAt, half_setHalf l hk, if_neg hne]
  · rw [List.map_singleton, beatAt, half_setHalf l hk, if_pos rfl]

theorem step_read (h : s.Inv) (hs : s.wrap.state = .READ) : (s.step i).Inv := by
  have hp := h.phase
  simp only [Phase, hs] at hp
  obtain ⟨hr, hvalid, t, k, hc, hop, hk, hcnt, ha, hb⟩ := hp
  have hdone : (s.step i).done = s.done := by simp [step, hr]
  refine ⟨?_, by rw [hdone]; exact h.finished⟩
  unfold Phase
  rw [hdone]
  obtain ⟨hnat, h7⟩ := cnt_eq hk
  cases hd : i.dInValid with
  | false =>
    have hcur : (s.step i).cur = some t := by simp [step, hs, hr, nCur, hc, beats, hvalid, hd]
    rw [hcur]
    simp only [step, Wrap.step, hs, hd, Wrap.tBuf, Bool.false_eq_true, if_false]
    exact ⟨trivial, trivial, t, k, rfl, hop, hk, hcnt, ha, hb⟩
  | true =>
    have hbeats : t.beats ++ s.beats i =
        (List.range (k + 1)).map (beatAt (lineBase s.done.length) (s.wrap.tBuf i)) := by
      simp only [Wrap.tBuf, hd, if_true, hcnt, hnat, ← read_beats _ _ hk, hb, ← ha]
      simp [beats, hs, hvalid, hd]
    have hcur : (s.step i).cur = some { t with beats := t.beats ++ s.beats i } := by
      simp [step, hs, hr, nCur, hc]
    rw [hcur, hbeats]
    by_cases hlast : k = 7
    · simp only [step, Wrap.step, hs, hd, hcnt, h7.mpr hlast, if_true, decide_true]
      refine ⟨_, rfl, ?_, ?_⟩
      · rw [ha, addr_succ, lineBase_succ, hlast]
      · rw [if_pos hop, hlast]
        exact ⟨trivial, rfl⟩
    · simp only [step, Wrap.step, hs, hd, hcnt, mt h7.mp hlast, if_true, if_false, decide_false]
      refine ⟨trivial, trivial, _, k + 1, rfl, hop, by omega, ?_, ?_, rfl⟩
      · exact (BitVec.ofNat_add _ _).symm
      · rw [ha, addr_succ]

theorem step_write (h : s.Inv) (hs : s.wrap.state = .WRITE) : (s.step i).Inv := by
  have hp := h.phase
  simp only [Phase, hs] at hp
  obtain ⟨hr, t, k, hc, hop, hk, hcnt, ha, hbuf, hvalid, hb⟩ := hp
  have hdone : (s.step i).done = s.done := by simp [step, hr]
  refine ⟨?_, by rw [hdone]; exact h.finished⟩
  unfold Phase
  rw [hdone]
  obtain ⟨hnat, h7⟩ := cnt_eq hk
  have hbeats : t.beats ++ s.beats i =
      ((List.range (k + 1)).map (beatAt (lineBase s.done.length) t.req.storeData)).tail := by
    rw [← tail_beats, hb]
    simp [beats, hs, hvalid, beatAt, Wrap.dOut, hcnt, hnat, hk, hbuf, ha]
  have hcur : (s.step i).cur = some { t with beats := t.beats ++ s.beats i } := by
    simp [step, hs, hr, nCur, hc]
  rw [hcur, hbeats]
  by_cases hlast : k = 7
  · simp only [step, Wrap.step, hs, hcnt, h7.mpr hlast, if_true, decide_true]
    refine ⟨_, rfl, ?_, ?_⟩
    · rw [ha, addr_succ, lineBase_succ, hlast]
    · rw [if_neg hop, hlast]
      exact ⟨trivial, by decide, rfl⟩
  · simp only [step, Wrap.step, hs, hcnt, mt h7.mp hlast, if_false, decide_false]
    refine ⟨trivial, _, k + 1, rfl, hop, by omega, ?_, ?_, hbuf, ?_, rfl⟩
    · exact (BitVec.ofNat_add _ _).symm
    · rw [ha, addr_succ]
    · simp

theorem step_inv (h : s.Inv) : (s.step i).Inv := by
  cases hs : s.wrap.state with
  | IDLE => exact step_idle h hs
  | READ => exact step_read h hs
  | WRITE => exact step_write h hs

theorem run_inv (inputs : List WrapIn) : (run step {} inputs).Inv :=
  run_invariant (fun _ _ => step_inv) reset_inv inputs

/-! ## Correctness -/

theorem beatAt_addr_inj {a : Word} {l l' : Line} {j k : ℕ} (hj : j < 8) (hk : k < 8)
    (h : (beatAt a l j).addr = (beatAt a l' k).addr) : j = k := by
  have h : a + BitVec.ofNat 64 (2 * j) = a + BitVec.ofNat 64 (2 * k) := h
  have h := congrArg BitVec.toNat (BitVec.add_right_inj a |>.mp h)
  rw [BitVec.toNat_ofNat, BitVec.toNat_ofNat] at h
  omega

theorem line_ext {l l' : Line} (h : ∀ k < 8, half l k = half l' k) : l = l' := by
  refine BitVec.eq_of_getLsbD_eq fun b hb => ?_
  have hk := congrArg (fun x => x.getLsbD (b % 16)) (h (b / 16) (by omega))
  have hmod : b % 16 < 16 := Nat.mod_lt _ (by decide)
  simpa [half, BitVec.getLsbD_extractLsb', hmod, Nat.div_add_mod] using hk

/-- The memory holds the line after the beats of its first halfwords. -/
theorem storeBeats_beatAt (m : Word → Option (BitVec 16)) (a : Word) (l : Line) {j : ℕ} :
    ∀ n ≤ 8, j < n → storeBeats m ((List.range n).map (beatAt a l)) (beatAt a l j).addr =
      some (half l j) := by
  intro n
  induction n with
  | zero => exact fun _ h => absurd h (Nat.not_lt_zero j)
  | succ n ih =>
    intro hn hj
    rw [storeBeats, List.range_succ, List.map_append, List.foldl_append]
    by_cases hjn : j = n
    · subst hjn
      simp [beatAt]
    · have hne : (beatAt a l j).addr ≠ (beatAt a l n).addr := fun h =>
        hjn (beatAt_addr_inj (by omega) (by omega) h)
      simp only [List.map_singleton, List.foldl_cons, List.foldl_nil]
      rw [Function.update_of_ne hne]
      exact ih (by omega) (by omega)

/-- A read whose beats are right returns what a write whose beats are right has stored. -/
theorem roundTrips_of_correct (h : ∀ t ∈ s.done, t.Correct) : s.RoundTrips := by
  intro n t t' m ht ht' hop hop' haddr hm
  have hw := h t (List.mem_of_getElem? ht)
  have hr := h t' (List.mem_of_getElem? ht')
  rw [Transfer.Correct, if_neg hop] at hw
  rw [Transfer.Correct, if_pos hop', haddr] at hr
  refine line_ext fun k hk => ?_
  have hmem : beatAt t.req.addr t'.line k ∈ t'.beats := by
    rw [hr]
    exact List.mem_map_of_mem (List.mem_range.mpr hk)
  have hload := hm _ hmem
  have hstore := storeBeats_beatAt m t.req.addr t.req.storeData 8 le_rfl hk
  rw [hw] at hload
  exact (Option.some.inj (hstore.symm.trans hload)).symm

/-- A transfer that is over has been served just when it is a read that begins at the address
register. -/
theorem Finished.correct_iff {n : ℕ} {t : Transfer} (h : Finished n t) :
    t.Correct ↔ t.req.opcode = opcodeLW ∧ t.req.addr = lineBase n := by
  unfold Finished at h
  unfold Transfer.Correct
  by_cases hop : t.req.opcode = opcodeLW
  · rw [if_pos hop] at h ⊢
    rw [h, and_iff_right hop]
    constructor
    · intro he
      have h0 := congrArg (fun l => l[0]?.map Beat.addr) he
      simpa [lineBeats, beatAt] using h0.symm
    · intro he
      rw [he]
  · rw [if_neg hop] at h ⊢
    rw [h]
    refine iff_of_false (fun he => ?_) (fun hc => hop hc.1)
    have h7 := congrArg (fun l => l.getLast?.map Beat.data) he
    simp [lineBeats, List.range_succ, beatAt] at h7

theorem Inv.answers (h : s.Inv) {t : Transfer} (hc : s.cur = some t) (hl : t.beats.length = 8) :
    s.wrap.memRspValid = true := by
  have hp := h.phase
  cases hs : s.wrap.state with
  | IDLE =>
    simp only [Phase, hs] at hp
    cases hr : s.wrap.memRspValid with
    | true => rfl
    | false =>
      rw [hr, if_neg Bool.false_ne_true, hc] at hp
      cases hp.1
  | READ =>
    simp only [Phase, hs] at hp
    obtain ⟨-, -, u, k, hu, -, hk, -, -, hb⟩ := hp
    obtain rfl := Option.some.inj (hc.symm.trans hu)
    rw [hb, List.length_map, List.length_range] at hl
    omega
  | WRITE =>
    simp only [Phase, hs] at hp
    obtain ⟨-, u, k, hu, -, hk, -, -, -, -, hb⟩ := hp
    obtain rfl := Option.some.inj (hc.symm.trans hu)
    rw [hb, List.length_tail, List.length_map, List.length_range] at hl
    omega

theorem Inv.quiet (h : s.Inv) (hv : s.wrap.valid = true) : s.cur.isSome = true := by
  have hp := h.phase
  cases hs : s.wrap.state with
  | IDLE =>
    simp only [Phase, hs] at hp
    cases hr : s.wrap.memRspValid with
    | true =>
      rw [hr, if_pos rfl] at hp
      obtain ⟨t, hc, -⟩ := hp
      rw [hc]
      rfl
    | false =>
      rw [hr, if_neg Bool.false_ne_true, hv] at hp
      cases hp.2.1
  | READ =>
    simp only [Phase, hs] at hp
    obtain ⟨-, hf, -⟩ := hp
    rw [hv] at hf
    cases hf
  | WRITE =>
    simp only [Phase, hs] at hp
    obtain ⟨-, t, k, hc, -⟩ := hp
    rw [hc]
    rfl

/-- After any requests and any beats, every request has been served just when each of them was a
read of the line after the one before it, from zero on. -/
theorem run_serves_iff (inputs : List WrapIn) :
    (run step {} inputs).Serves ↔ (run step {} inputs).ReadsInOrder := by
  have h := run_inv inputs
  have hiff : (∀ t ∈ (run step {} inputs).done, t.Correct) ↔
      (run step {} inputs).ReadsInOrder := by
    constructor
    · intro hc n t ht
      exact (h.finished n t ht).correct_iff.mp (hc t (List.mem_of_getElem? ht))
    · intro hr t ht
      obtain ⟨n, hn⟩ := List.getElem?_of_mem ht
      exact (h.finished n t hn).correct_iff.mpr (hr n t hn)
  rw [← hiff]
  exact ⟨fun hs => hs.correct, fun hc => ⟨hc, roundTrips_of_correct hc,
    fun _ => h.answers, h.quiet⟩⟩

/-- A line is written to address zero: its first halfword is not shown, and the eighth beat shows
none. -/
theorem exists_not_serves : ¬∀ inputs : List WrapIn, (run step {} inputs).Serves := by
  intro h
  let req : MemRequest := ⟨0, opcodeSW, 0, 0x00070006000500040003000200010000⟩
  have hc := (h ({ memReqValid := true, memReq := req } :: List.replicate 9 {})).correct
  exact absurd hc (by decide)

end Transfers
end MipsCore
