import MipsCore.CacheLine
import MipsCore.Lib.Clocked

/-! # The memory arbiter

The grant state machine of `core_l1d_l1i.sv` between the two caches and the memory
side.  Requests are one-cycle pulses, the payload stays on the outputs of the cache
until it is answered, and memory latches a request in the first cycle that shows it.
-/
namespace MipsCore
open Clocked (Guarded)

/-- What a cache asks of memory: the address, opcode, tag and store data outputs. -/
structure MemRequest where
  addr : Word := 0
  opcode : BitVec 5 := 0
  tag : BitVec 2 := 0
  storeData : Line := 0
  deriving DecidableEq, Repr

/-- `MEM_LW`, which reads a line, and `MEM_SW`, which writes one. -/
def opcodeLW : BitVec 5 := 4
def opcodeSW : BitVec 5 := 7

inductive GntState
  | IDLE | GNT_L1D | GNT_L1I
  deriving DecidableEq, Repr

structure Arbiter where
  state : GntState := .IDLE
  lastGnt : Bool := false
  l1dReq : Bool := false
  l1iReq : Bool := false
  req : Bool := false
  deriving DecidableEq, Repr

/-- The request outputs of the caches and the answer of memory. -/
structure ArbiterIn where
  l1dMemReqValid : Bool := false
  l1iMemReqValid : Bool := false
  l1d : MemRequest := {}
  l1i : MemRequest := {}
  memRspValid : Bool := false
  deriving DecidableEq, Repr

namespace Arbiter
variable (s : Arbiter) (i : ArbiterIn)

def wantsL1d : Bool := s.l1dReq || i.l1dMemReqValid
def wantsL1i : Bool := s.l1iReq || i.l1iMemReqValid

def nState : GntState :=
  match s.state with
  | .IDLE =>
    if s.wantsL1d i && !s.wantsL1i i then .GNT_L1D
    else if !s.wantsL1d i && s.wantsL1i i then .GNT_L1I
    else if s.wantsL1d i && s.wantsL1i i then if s.lastGnt then .GNT_L1D else .GNT_L1I
    else .IDLE
  | .GNT_L1D => if i.memRspValid then .IDLE else .GNT_L1D
  | .GNT_L1I => if i.memRspValid then .IDLE else .GNT_L1I

def nReq : Bool :=
  match s.state with
  | .IDLE => s.req || s.wantsL1d i || s.wantsL1i i
  | _ => s.req && !i.memRspValid

/-- `mem_req_valid` is assigned from `n_req` before the grant changes it. -/
def memReqValid : Bool := s.req

/-- What memory is shown: the state selects the payload. -/
def memReq : MemRequest where
  addr := if s.state = .GNT_L1I then i.l1i.addr else i.l1d.addr
  opcode := if s.state = .GNT_L1I then i.l1i.opcode else i.l1d.opcode
  tag := if s.state = .GNT_L1I then i.l1i.tag else i.l1d.tag
  storeData := i.l1d.storeData

def l1dMemRspValid : Bool := s.state == .GNT_L1D && i.memRspValid
def l1iMemRspValid : Bool := s.state == .GNT_L1I && i.memRspValid

def step : Arbiter where
  state := s.nState i
  lastGnt :=
    match s.state with
    | .IDLE => s.lastGnt
    | .GNT_L1D => false
    | .GNT_L1I => true
  l1dReq := s.state != .GNT_L1D && s.wantsL1d i
  l1iReq := s.state != .GNT_L1I && s.wantsL1i i
  req := s.nReq i

end Arbiter

/-! ## The caches and memory around the arbiter -/

inductive Client
  | l1d | l1i
  deriving DecidableEq, Repr

namespace Client

def other : Client → Client
  | .l1d => .l1i
  | .l1i => .l1d

/-- The state that serves a cache. -/
def grant : Client → GntState
  | .l1d => .GNT_L1D
  | .l1i => .GNT_L1I

/-- The last grant that puts a cache first. -/
def turn : Client → Bool
  | .l1d => true
  | .l1i => false

end Client

def Arbiter.reqOf (s : Arbiter) : Client → Bool
  | .l1d => s.l1dReq
  | .l1i => s.l1iReq

namespace ArbiterIn
variable (i : ArbiterIn)

def pulse : Client → Bool
  | .l1d => i.l1dMemReqValid
  | .l1i => i.l1iMemReqValid
def payload : Client → MemRequest
  | .l1d => i.l1d
  | .l1i => i.l1i

end ArbiterIn

/-- Two requests that memory serves alike: a read carries no store data. -/
def MemRequest.Serves (shown r : MemRequest) : Prop :=
  shown.addr = r.addr ∧ shown.opcode = r.opcode ∧ shown.tag = r.tag ∧
    (r.opcode = opcodeSW → shown.storeData = r.storeData)

/-- The arbiter beside the pulses that are not answered yet, the request that memory has latched
and how many answers have gone to the other cache meanwhile. -/
structure Arbitration where
  arb : Arbiter := {}
  pending : Client → Option MemRequest := fun _ => none
  latched : Option MemRequest := none
  waits : Client → ℕ := fun _ => 0

namespace Arbitration
variable (s : Arbitration) (i : ArbiterIn)

def rsp : Client → Bool
  | .l1d => s.arb.l1dMemRspValid i
  | .l1i => s.arb.l1iMemRspValid i

/-- The request of a cache that is to be answered, counting a pulse of this cycle. -/
def asked (c : Client) : Option MemRequest := if i.pulse c then some (i.payload c) else s.pending c

/-- The request that memory serves: the one that it has latched, or the one that it is shown. -/
def served : Option MemRequest :=
  match s.latched with
  | some r => some r
  | none => if s.arb.memReqValid then some (s.arb.memReq i) else none

def nLatched : Option MemRequest := if i.memRspValid then none else s.served i

def nWaits (c : Client) : ℕ :=
  if s.rsp i c || (s.asked i c).isNone then 0
  else if s.rsp i c.other then s.waits c + 1 else s.waits c

def step : Arbitration where
  arb := s.arb.step i
  pending c := if s.rsp i c then none else s.asked i c
  latched := s.nLatched i
  waits c := s.nWaits i c

/-- A cache pulses only when it has been answered and holds its outputs until then, the
instruction cache reads, and memory answers what it serves. -/
structure Env : Prop where
  pulse : ∀ c, i.pulse c = true → s.pending c = none
  hold : ∀ c r, s.pending c = some r → i.payload c = r
  reads : i.l1i.opcode = opcodeLW
  answer : i.memRspValid = true → (s.served i).isSome = true

/-- The cache that will be answered. -/
def target : Client := if s.arb.state = .GNT_L1I then .l1i else .l1d

/-- The right request is shown, and what memory answers goes to the cache that asked for it and to
no other; a request that is not answered is shown to memory in this cycle or in the next, and at
most one answer overtakes it. -/
structure Arbitrates : Prop where
  shows : s.arb.memReqValid = true →
    ∃ r, s.pending s.target = some r ∧ (s.arb.memReq i).Serves r
  routes : i.memRspValid = true → ∃ c r l, s.rsp i c = true ∧ s.rsp i c.other = false ∧
    s.pending c = some r ∧ s.served i = some l ∧ l.Serves r
  answers : ∀ c, s.rsp i c = true → i.memRspValid = true ∧ (s.pending c).isSome = true
  asks : ∀ c, (s.asked i c).isSome = true →
    s.arb.memReqValid = true ∨ (s.step i).arb.memReqValid = true
  fair : ∀ c, s.waits c ≤ 1

variable {s : Arbitration} {i : ArbiterIn}

/-- Memory is shown a request exactly in a grant and latches that of the cache that is granted, and
a request that waits is remembered. -/
structure Inv (s : Arbitration) : Prop where
  idle : s.arb.state = .IDLE → s.arb.req = false ∧ s.latched = none
  granted : ∀ c, s.arb.state = c.grant → s.arb.req = true ∧
    ∃ r, s.pending c = some r ∧ ∀ l, s.latched = some l → l.Serves r
  req : ∀ c, s.arb.state ≠ c.grant → s.arb.reqOf c = (s.pending c).isSome
  fair : ∀ c, s.waits c ≤ 1
  next : ∀ c, s.waits c ≠ 0 →
    s.arb.state = c.grant ∨ s.arb.state = .IDLE ∧ s.arb.lastGnt = c.turn

theorem reset_inv : Inv {} where
  idle _ := ⟨rfl, rfl⟩
  granted c h := by cases c <;> cases h
  req c _ := by cases c <;> rfl
  fair _ := Nat.zero_le 1
  next _ h := absurd rfl h

theorem rsp_iff {c : Client} : s.rsp i c = true ↔ s.arb.state = c.grant ∧ i.memRspValid = true := by
  cases c <;> simp [rsp, Arbiter.l1dMemRspValid, Arbiter.l1iMemRspValid, Client.grant]

theorem asked_isSome (c : Client) : (s.asked i c).isSome = (i.pulse c || (s.pending c).isSome) := by
  unfold asked
  cases i.pulse c <;> rfl

/-- A request to be answered is the payload that its cache shows. -/
theorem asked_eq (he : s.Env i) {c : Client} (ha : (s.asked i c).isSome = true) :
    s.asked i c = some (i.payload c) := by
  cases hp : i.pulse c with
  | true => rw [asked, hp]; rfl
  | false =>
    rw [asked, hp] at ha ⊢
    obtain ⟨r, hr⟩ := Option.isSome_iff_exists.mp ha
    exact hr.trans (congrArg some (he.hold c r hr).symm)

/-- In the idle state the request registers and the pulses are the requests to be answered. -/
theorem asked_idle (h : s.Inv) (hs : s.arb.state = .IDLE) :
    s.arb.wantsL1d i = (s.asked i .l1d).isSome ∧ s.arb.wantsL1i i = (s.asked i .l1i).isSome := by
  have hd := h.req .l1d (by rw [hs]; nofun)
  have hi := h.req .l1i (by rw [hs]; nofun)
  simp only [Arbiter.reqOf] at hd hi
  rw [asked_isSome, asked_isSome, Arbiter.wantsL1d, Arbiter.wantsL1i, hd, hi, Bool.or_comm,
    Bool.or_comm (s.pending .l1i).isSome]
  exact ⟨rfl, rfl⟩

/-- The idle state grants a cache that asks, and the one whose turn it is when both do. -/
theorem nState_idle (h : s.Inv) (hs : s.arb.state = .IDLE) :
    (∀ c, s.arb.nState i = c.grant → (s.asked i c).isSome = true) ∧
      (∀ c, (s.asked i c).isSome = true → s.arb.lastGnt = c.turn → s.arb.nState i = c.grant) ∧
      (∀ c, (s.asked i c).isSome = true → s.arb.nState i ≠ .IDLE) := by
  obtain ⟨hd, hi⟩ := asked_idle (i := i) h hs
  refine ⟨fun c hc => ?_, fun c hc ht => ?_, fun c hc => ?_⟩ <;>
    simp only [Arbiter.nState, hs, hd, hi] at * <;> cases c <;>
    cases hpd : (s.asked i .l1d).isSome <;> cases hpi : (s.asked i .l1i).isSome <;>
    cases hl : s.arb.lastGnt <;> simp_all [Client.grant, Client.turn]

/-- The request register follows the state. -/
theorem nReq_iff (h : s.Inv) : s.arb.nReq i = true ↔ s.arb.nState i ≠ .IDLE := by
  cases hs : s.arb.state with
  | IDLE =>
    simp only [Arbiter.nReq, Arbiter.nState, hs, (h.idle hs).1]
    cases s.arb.wantsL1d i <;> cases s.arb.wantsL1i i <;> cases s.arb.lastGnt <;> simp
  | GNT_L1D =>
    simp only [Arbiter.nReq, Arbiter.nState, hs, (h.granted .l1d hs).1]
    cases i.memRspValid <;> simp
  | GNT_L1I =>
    simp only [Arbiter.nReq, Arbiter.nState, hs, (h.granted .l1i hs).1]
    cases i.memRspValid <;> simp

theorem nState_grant {c : Client} (hs : s.arb.state = c.grant) :
    s.arb.nState i = if i.memRspValid then .IDLE else c.grant := by
  cases c <;> simp only [Client.grant] at hs <;> simp only [Arbiter.nState, hs, Client.grant]

theorem memReq_grant (he : s.Env i) {c : Client} (hs : s.arb.state = c.grant) :
    (s.arb.memReq i).Serves (i.payload c) := by
  cases c with
  | l1d => simp [Arbiter.memReq, hs, Client.grant, MemRequest.Serves, ArbiterIn.payload]
  | l1i =>
    have hne : i.l1i.opcode ≠ opcodeSW := by rw [he.reads]; decide
    simp [Arbiter.memReq, hs, Client.grant, MemRequest.Serves, ArbiterIn.payload, hne]

theorem state_cases (a : Arbiter) : a.state = .IDLE ∨ ∃ c : Client, a.state = c.grant := by
  cases h : a.state with
  | IDLE => exact .inl rfl
  | GNT_L1D => exact .inr ⟨.l1d, rfl⟩
  | GNT_L1I => exact .inr ⟨.l1i, rfl⟩

theorem grant_inj {c d : Client} (h : c.grant = d.grant) : c = d := by
  cases c <;> cases d <;> first | rfl | cases h

theorem grant_ne_idle (c : Client) : c.grant ≠ .IDLE := by cases c <;> nofun

theorem target_eq {c : Client} (hs : s.arb.state = c.grant) : s.target = c := by
  cases c <;> simp [target, hs, Client.grant]

/-- Nothing is served in the idle state. -/
theorem served_idle (h : s.Inv) (hs : s.arb.state = .IDLE) : s.served i = none := by
  simp [served, Arbiter.memReqValid, h.idle hs]

/-- Nothing is answered in the idle state. -/
theorem idle_quiet (h : s.Inv) (he : s.Env i) (hs : s.arb.state = .IDLE) :
    i.memRspValid = false := by
  cases hm : i.memRspValid with
  | false => rfl
  | true =>
    have := he.answer hm
    rw [served_idle h hs] at this
    cases this

/-- In a grant memory serves the request of the cache that is granted. -/
theorem served_grant (h : s.Inv) (he : s.Env i) {c : Client} (hs : s.arb.state = c.grant) :
    ∃ r l, s.pending c = some r ∧ s.served i = some l ∧ l.Serves r := by
  obtain ⟨hreq, r, hr, hl⟩ := h.granted c hs
  refine ⟨r, ?_⟩
  cases hlt : s.latched with
  | some l => exact ⟨l, hr, by simp [served, hlt], hl l hlt⟩
  | none =>
    refine ⟨s.arb.memReq i, hr, by simp [served, hlt, Arbiter.memReqValid, hreq], ?_⟩
    exact he.hold c r hr ▸ memReq_grant he hs

theorem asked_pending (he : s.Env i) {c : Client} {r : MemRequest} (hr : s.pending c = some r) :
    s.asked i c = some r := by
  cases hp : i.pulse c with
  | true =>
    rw [he.pulse c hp] at hr
    cases hr
  | false => rw [asked, hp]; exact hr

theorem step_granted (h : s.Inv) (he : s.Env i) (c : Client)
    (hn : s.arb.nState i = c.grant) : (s.step i).arb.req = true ∧
      ∃ r, (s.step i).pending c = some r ∧ ∀ l, (s.step i).latched = some l → l.Serves r := by
  refine ⟨(nReq_iff (i := i) h).mpr (hn ▸ grant_ne_idle c), ?_⟩
  rcases state_cases s.arb with hs | ⟨d, hs⟩
  · have hm := idle_quiet h he hs
    have hr : s.rsp i c = false := by
      rw [Bool.eq_false_iff, Ne, rsp_iff, hm]
      exact fun hc => Bool.false_ne_true hc.2
    have ha := asked_eq he ((nState_idle h hs).1 c hn)
    refine ⟨i.payload c, by simp [step, hr, ha], fun l hl => ?_⟩
    simp [step, nLatched, hm, served_idle h hs] at hl
  · have hm : i.memRspValid = false := by
      cases hm : i.memRspValid with
      | false => rfl
      | true =>
        rw [nState_grant hs, hm] at hn
        exact absurd hn.symm (grant_ne_idle c)
    rw [nState_grant hs, hm] at hn
    obtain rfl := grant_inj hn
    obtain ⟨r, l, hr, hl, hsv⟩ := served_grant h he hs
    have hrsp : s.rsp i d = false := by
      rw [Bool.eq_false_iff, Ne, rsp_iff, hm]
      exact fun hc => Bool.false_ne_true hc.2
    refine ⟨r, by simp [step, hrsp, asked_pending he hr], fun l' hl' => ?_⟩
    have hl' : s.served i = some l' := by simpa [step, nLatched, hm] using hl'
    rw [hl] at hl'
    exact Option.some.inj hl' ▸ hsv

theorem step_req (c : Client) (h : s.Inv) (hn : s.arb.nState i ≠ c.grant) :
    (s.step i).arb.reqOf c = ((s.step i).pending c).isSome := by
  by_cases hs : s.arb.state = c.grant
  · have hm : i.memRspValid = true := by
      rw [nState_grant hs] at hn
      by_contra hc
      exact hn (if_neg hc)
    have hr : s.rsp i c = true := rsp_iff.mpr ⟨hs, hm⟩
    have hpend : (s.step i).pending c = none := by simp [step, hr]
    rw [hpend]
    cases c <;> simp only [Client.grant] at hs <;> simp [step, Arbiter.step, Arbiter.reqOf, hs]
  · have hr : s.rsp i c = false := by
      rw [Bool.eq_false_iff, Ne, rsp_iff]
      exact fun hc => hs hc.1
    have hpend : (s.step i).pending c = s.asked i c := by simp [step, hr]
    rw [hpend, asked_isSome, ← h.req c hs]
    cases c <;> simp only [Client.grant] at hs <;>
      simp [step, Arbiter.step, Arbiter.reqOf, hs, Arbiter.wantsL1d, Arbiter.wantsL1i,
        ArbiterIn.pulse, Bool.or_comm]

/-- A request that has been overtaken once is served next. -/
theorem step_next (h : s.Inv) (c : Client) : (s.step i).waits c ≤ 1 ∧
    ((s.step i).waits c ≠ 0 → (s.step i).arb.state = c.grant ∨
      (s.step i).arb.state = .IDLE ∧ (s.step i).arb.lastGnt = c.turn) := by
  change s.nWaits i c ≤ 1 ∧ (s.nWaits i c ≠ 0 → s.arb.nState i = c.grant ∨
    s.arb.nState i = .IDLE ∧ (s.arb.step i).lastGnt = c.turn)
  unfold nWaits
  split
  · exact ⟨Nat.zero_le 1, fun hc => absurd rfl hc⟩
  · next hc =>
    simp only [Bool.or_eq_true, not_or, Bool.not_eq_true, Option.isNone_eq_false_iff] at hc
    split
    · next ho =>
      obtain ⟨hs, hm⟩ := rsp_iff.mp ho
      have h0 : s.waits c = 0 := by
        by_contra hw
        rcases h.next c hw with hg | ⟨hi, _⟩
        · exact absurd (hg.symm.trans hs) (by cases c <;> nofun)
        · exact grant_ne_idle _ (hs.symm.trans hi)
      refine ⟨by omega, fun _ => .inr ⟨by rw [nState_grant hs, hm]; rfl, ?_⟩⟩
      cases c <;> simp only [Client.other, Client.grant] at hs <;>
        simp [Arbiter.step, hs, Client.turn]
    · refine ⟨h.fair c, fun hw => .inl ?_⟩
      rcases h.next c hw with hg | ⟨hi, ht⟩
      · have hm : i.memRspValid = false := by
          cases hm : i.memRspValid with
          | false => rfl
          | true => exact absurd (rsp_iff.mpr ⟨hg, hm⟩) (by simp [hc.1])
        rw [nState_grant hg, hm]
        rfl
      · exact (nState_idle h hi).2.1 c hc.2 ht

theorem step_inv (h : s.Inv) (he : s.Env i) : (s.step i).Inv where
  idle hn := by
    have hn : s.arb.nState i = .IDLE := hn
    have hv : s.arb.nReq i = false := by
      rw [Bool.eq_false_iff, Ne, nReq_iff h]
      exact fun hc => hc hn
    refine ⟨hv, ?_⟩
    cases hm : i.memRspValid with
    | true => simp [step, nLatched, hm]
    | false =>
      rcases state_cases s.arb with hs | ⟨c, hs⟩
      · simp [step, nLatched, hm, served_idle h hs]
      · rw [nState_grant hs, hm] at hn
        exact absurd hn (grant_ne_idle c)
  granted c hn := step_granted h he c hn
  req c hn := step_req c h hn
  fair c := (step_next h c).1
  next c := (step_next h c).2

/-- A reachable cycle arbitrates. -/
theorem arbitrates (h : s.Inv) (he : s.Env i) : s.Arbitrates i := by
  refine ⟨fun hv => ?_, fun hm => ?_, fun c hc => ?_, fun c hc => ?_, h.fair⟩
  · rcases state_cases s.arb with hs | ⟨c, hs⟩
    · rw [Arbiter.memReqValid, (h.idle hs).1] at hv
      cases hv
    · obtain ⟨-, r, hr, -⟩ := h.granted c hs
      rw [target_eq hs]
      exact ⟨r, hr, he.hold c r hr ▸ memReq_grant he hs⟩
  · rcases state_cases s.arb with hs | ⟨c, hs⟩
    · rw [idle_quiet h he hs] at hm
      cases hm
    · obtain ⟨r, l, hr, hl, hsv⟩ := served_grant h he hs
      refine ⟨c, r, l, rsp_iff.mpr ⟨hs, hm⟩, ?_, hr, hl, hsv⟩
      rw [Bool.eq_false_iff, Ne, rsp_iff]
      exact fun ho => absurd (grant_inj (hs.symm.trans ho.1)) (by cases c <;> nofun)
  · obtain ⟨hs, hm⟩ := rsp_iff.mp hc
    obtain ⟨-, r, hr, -⟩ := h.granted c hs
    exact ⟨hm, by rw [hr]; rfl⟩
  · rcases state_cases s.arb with hs | ⟨d, hs⟩
    · exact .inr ((nReq_iff h).mpr ((nState_idle h hs).2.2 c hc))
    · exact .inl (h.granted d hs).1

/-- The promises as a check of one cycle. -/
def envCheck (s : Arbitration) (i : ArbiterIn) : Bool :=
  [Client.l1d, Client.l1i].all (fun c =>
    (!i.pulse c || (s.pending c).isNone) && (s.pending c).all (fun r => i.payload c == r)) &&
  i.l1i.opcode == opcodeLW && (!i.memRspValid || (s.served i).isSome)

theorem envCheck_iff (s : Arbitration) (i : ArbiterIn) : envCheck s i = true ↔ s.Env i := by
  constructor
  · intro h
    simp only [envCheck, List.all_cons, List.all_nil, Bool.and_true, Bool.and_eq_true] at h
    obtain ⟨⟨⟨⟨hd, hdp⟩, hi, hip⟩, ho⟩, hr⟩ := h
    refine ⟨fun c hc => ?_, fun c r hc => ?_, by simpa using ho, fun hm => by simpa [hm] using hr⟩
    · cases c <;> simp_all
    · cases c <;> simp_all
  · rintro ⟨hp, hh, ho, hr⟩
    have hc (c : Client) : ((!i.pulse c || (s.pending c).isNone) &&
        (s.pending c).all (fun r => i.payload c == r)) = true := by
      have hpc := hp c
      have hhc := hh c
      cases h : s.pending c <;> cases h' : i.pulse c <;> simp_all
    have hm : (!i.memRspValid || (s.served i).isSome) = true := by
      cases h : i.memRspValid <;> simp_all
    simp [envCheck, hc, ho, hm]

instance (s : Arbitration) (i : ArbiterIn) : Decidable (s.Env i) := decidable_of_iff _ (envCheck_iff s i)

def readLine (addr : Word) : MemRequest := { addr := addr, opcode := opcodeLW }

/-- The instruction cache asks for a line while the outputs of the data cache name another, and is
answered two cycles after it is shown; a pulse of the data cache overlaps and is answered at once. -/
def twoLinesRun : List ArbiterIn :=
  [{ l1d := readLine 0x40, l1i := readLine 0x80, l1iMemReqValid := true },
    { l1d := readLine 0x40, l1i := readLine 0x80, l1dMemReqValid := true },
    { l1d := readLine 0x40, l1i := readLine 0x80 },
    { l1d := readLine 0x40, l1i := readLine 0x80, memRspValid := true },
    { l1d := readLine 0x40, l1i := readLine 0x80 },
    { l1d := readLine 0x40, l1i := readLine 0x80, memRspValid := true }]

end Arbitration
end MipsCore
