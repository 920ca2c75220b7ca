import Mathlib.Data.BitVec
import Mathlib.Data.List.Basic
import Mathlib.Data.Set.Insert

/-! # Circular buffers with a wrap bit

A buffer of `2 ^ n` slots is addressed by pointers of `n + 1` bits: the low bits
name a slot and the top bit tells a full buffer from an empty one.  The contents
are read off from the head, oldest first.
-/
namespace Ring
variable {α β : Type*} {n : ℕ}

/-- The slot that a pointer names. -/
def slot (p : BitVec (n + 1)) : BitVec n := p.setWidth n

/-- How many slots lie from the head up to the tail. -/
def count (h t : BitVec (n + 1)) : ℕ := (t - h).toNat

/-- The first `c` elements from the head on. -/
def contents (mem : BitVec n → α) (h : BitVec (n + 1)) : ℕ → List α
  | 0 => []
  | c + 1 => mem (slot h) :: contents mem (h + 1) c

theorem slot_add (p q : BitVec (n + 1)) : slot (p + q) = slot p + slot q :=
  BitVec.setWidth_add _ _ (Nat.le_succ n)

theorem slot_ofNat (k : ℕ) : slot (BitVec.ofNat (n + 1) k) = BitVec.ofNat n k := by
  apply BitVec.eq_of_toNat_eq
  simp only [slot, BitVec.toNat_setWidth, BitVec.toNat_ofNat]
  exact Nat.mod_mod_of_dvd _ (Nat.pow_dvd_pow 2 (Nat.le_succ n))

theorem ofNat_inj {w j k : ℕ} (hj : j < 2 ^ w) (hk : k < 2 ^ w)
    (h : BitVec.ofNat w j = BitVec.ofNat w k) : j = k := by
  have := congrArg BitVec.toNat h
  simpa [Nat.mod_eq_of_lt hj, Nat.mod_eq_of_lt hk] using this

theorem slot_add_inj {h : BitVec (n + 1)} {j k : ℕ} (hj : j < 2 ^ n) (hk : k < 2 ^ n)
    (he : slot (h + BitVec.ofNat _ j) = slot (h + BitVec.ofNat _ k)) : j = k := by
  rw [slot_add, slot_add, slot_ofNat, slot_ofNat] at he
  exact ofNat_inj hj hk ((BitVec.add_right_inj (slot h)).mp he)

/-! ## The number of occupied slots -/

theorem tail_eq (h t : BitVec (n + 1)) : t = h + BitVec.ofNat _ (count h t) := by
  rw [count, BitVec.ofNat_toNat, BitVec.setWidth_eq, BitVec.add_comm, BitVec.sub_add_cancel]

theorem count_add (h : BitVec (n + 1)) {c : ℕ} (hc : c < 2 ^ (n + 1)) :
    count h (h + BitVec.ofNat _ c) = c := by
  have : h + BitVec.ofNat (n + 1) c - h = BitVec.ofNat _ c := by
    rw [BitVec.add_comm, BitVec.add_sub_cancel]
  rw [count, this, BitVec.toNat_ofNat, Nat.mod_eq_of_lt hc]

@[simp] theorem count_self (h : BitVec (n + 1)) : count h h = 0 := by simp [count]

theorem count_eq_zero {h t : BitVec (n + 1)} : count h t = 0 ↔ h = t := by
  refine ⟨fun hc => ?_, fun he => he ▸ count_self h⟩
  have := tail_eq h t
  rw [hc] at this
  simpa using this.symm

theorem count_push {h t : BitVec (n + 1)} {k : ℕ} (hc : count h t + k < 2 ^ (n + 1)) :
    count h (t + BitVec.ofNat _ k) = count h t + k := by
  conv_lhs => rw [tail_eq h t, BitVec.add_assoc, ← BitVec.ofNat_add]
  exact count_add h hc

theorem count_pop {h t : BitVec (n + 1)} {k : ℕ} (hk : k ≤ count h t) :
    count (h + BitVec.ofNat _ k) t = count h t - k := by
  have ht := tail_eq h t
  have hlt : count h t < 2 ^ (n + 1) := (t - h).isLt
  obtain ⟨c, hc⟩ := Nat.exists_eq_add_of_le hk
  rw [hc, BitVec.ofNat_add, ← BitVec.add_assoc] at ht
  rw [hc, Nat.add_sub_cancel_left]
  conv_lhs => rw [ht]
  exact count_add _ (by omega)

/-- With at most `2 ^ n` elements the slots coincide exactly when the buffer is empty or full. -/
theorem slot_eq_iff_full {h t : BitVec (n + 1)} (hc : count h t ≤ 2 ^ n) :
    slot h = slot t ∧ h ≠ t ↔ count h t = 2 ^ n := by
  have hpos : 0 < 2 ^ n := Nat.two_pow_pos n
  constructor
  · rintro ⟨hs, hne⟩
    have hne := mt count_eq_zero.mp hne
    by_contra hlt
    have h0 := slot_add_inj (h := h) (j := 0) (k := count h t) hpos (by omega)
      (by rw [← tail_eq]; simpa using hs)
    omega
  · intro hf
    refine ⟨?_, fun he => by rw [count_eq_zero.mpr he] at hf; omega⟩
    rw [tail_eq h t, slot_add, slot_ofNat, hf]
    have : BitVec.ofNat n (2 ^ n) = 0 := by
      apply BitVec.eq_of_toNat_eq
      rw [BitVec.toNat_ofNat, Nat.mod_self]
      rfl
    simp [this]

theorem count_eq_one {h t : BitVec (n + 1)} : h + 1 = t ↔ count h t = 1 := by
  have hlt : 1 < 2 ^ (n + 1) := Nat.one_lt_two_pow (Nat.succ_ne_zero n)
  constructor
  · rintro rfl
    exact count_add h hlt
  · intro hc
    have := tail_eq h t
    rw [hc] at this
    exact this.symm

/-- A buffer that is not full has room for one element. -/
theorem count_lt_of_not_full {h t : BitVec (n + 1)} (hc : count h t ≤ 2 ^ n)
    (hf : ¬(slot h = slot t ∧ h ≠ t)) : count h t + 1 ≤ 2 ^ n := by
  have := mt (slot_eq_iff_full hc).mpr hf
  omega

/-- Room for one more after `k` that fit, when the slot after them is not the head's. -/
theorem count_lt_of_not_full_at {h t : BitVec (n + 1)} {k : ℕ} (hc : count h t + k ≤ 2 ^ n)
    (hf : ¬(slot h = slot (t + BitVec.ofNat _ k) ∧ h ≠ t + BitVec.ofNat _ k)) :
    count h t + (k + 1) ≤ 2 ^ n := by
  have hpow : 2 ^ (n + 1) = 2 ^ n + 2 ^ n := by rw [← Nat.two_mul, ← pow_succ']
  have hpos : 0 < 2 ^ n := Nat.two_pow_pos n
  have hpush : count h (t + BitVec.ofNat _ k) = count h t + k := count_push (by omega)
  have := count_lt_of_not_full (h := h) (t := t + BitVec.ofNat _ k) (by omega) hf
  omega

theorem count_lt_of_not_next_full {h t : BitVec (n + 1)} (hc : count h t + 1 ≤ 2 ^ n)
    (hf : ¬(slot h = slot (t + 1) ∧ h ≠ t + 1)) : count h t + 2 ≤ 2 ^ n :=
  count_lt_of_not_full_at (k := 1) hc hf

/-! ## Contents -/

@[simp] theorem length_contents (mem : BitVec n → α) (h : BitVec (n + 1)) (c : ℕ) :
    (contents mem h c).length = c := by
  induction c generalizing h with
  | zero => rfl
  | succ c ih => simp [contents, ih]

theorem contents_map (f : α → β) (mem : BitVec n → α) (h : BitVec (n + 1)) (c : ℕ) :
    contents (fun i => f (mem i)) h c = (contents mem h c).map f := by
  induction c generalizing h with
  | zero => rfl
  | succ c ih => simp [contents, ih]

theorem add_ofNat_succ (h : BitVec (n + 1)) (k : ℕ) :
    h + BitVec.ofNat _ (k + 1) = h + 1 + BitVec.ofNat _ k := by
  rw [BitVec.add_assoc, BitVec.ofNat_add, BitVec.add_comm (BitVec.ofNat _ k)]
  rfl

theorem getElem?_contents (mem : BitVec n → α) (h : BitVec (n + 1)) {k c : ℕ} (hk : k < c) :
    (contents mem h c)[k]? = some (mem (slot (h + BitVec.ofNat _ k))) := by
  induction c generalizing h k with
  | zero => omega
  | succ c ih =>
    cases k with
    | zero => simp [contents]
    | succ k =>
      rw [contents, List.getElem?_cons_succ, ih (h + 1) (by omega), add_ofNat_succ]

theorem mem_contents {mem : BitVec n → α} {h : BitVec (n + 1)} {c : ℕ} {x : α} :
    x ∈ contents mem h c ↔ ∃ k < c, mem (slot (h + BitVec.ofNat _ k)) = x := by
  rw [List.mem_iff_getElem?]
  constructor
  · rintro ⟨k, hk⟩
    have hlt : k < c := by
      by_contra hge
      rw [List.getElem?_eq_none (by simp; omega)] at hk
      cases hk
    rw [getElem?_contents mem h hlt] at hk
    exact ⟨k, hlt, Option.some.inj hk⟩
  · rintro ⟨k, hk, rfl⟩
    exact ⟨k, getElem?_contents mem h hk⟩

/-- Two memories that agree on the occupied slots have the same contents. -/
theorem contents_congr {f g : BitVec n → α} {h : BitVec (n + 1)} {c : ℕ}
    (hfg : ∀ k < c, f (slot (h + BitVec.ofNat _ k)) = g (slot (h + BitVec.ofNat _ k))) :
    contents f h c = contents g h c := by
  induction c generalizing h with
  | zero => rfl
  | succ c ih =>
    have h0 := hfg 0 (by omega)
    rw [contents, contents, ih fun k hk => by simpa only [add_ofNat_succ] using hfg (k + 1) (by omega)]
    rw [show f (slot h) = g (slot h) by simpa using h0]

theorem contents_concat (mem : BitVec n → α) (h : BitVec (n + 1)) (c : ℕ) :
    contents mem h (c + 1) = contents mem h c ++ [mem (slot (h + BitVec.ofNat _ c))] := by
  induction c generalizing h with
  | zero => simp [contents]
  | succ c ih =>
    rw [contents, ih (h + 1), contents, add_ofNat_succ]
    rfl

/-- A write past the occupied slots is not seen. -/
theorem contents_update_of_le [DecidableEq (BitVec n)] {mem : BitVec n → α} {h : BitVec (n + 1)}
    {c k : ℕ} (hck : c ≤ k) (hk : k < 2 ^ n) (x : α) :
    contents (Function.update mem (slot (h + BitVec.ofNat _ k)) x) h c = contents mem h c := by
  refine contents_congr fun j hj => ?_
  refine Function.update_of_ne (fun he => ?_) _ _
  have := slot_add_inj (by omega) hk he
  omega

/-- Writing the slot at the tail appends. -/
theorem contents_push {mem : BitVec n → α} {h t : BitVec (n + 1)} (hc : count h t < 2 ^ n) (x : α) :
    contents (Function.update mem (slot t) x) h (count h t + 1) =
      contents mem h (count h t) ++ [x] := by
  rw [contents_concat, ← tail_eq, Function.update_self]
  congr 1
  conv_lhs => rw [show slot t = slot (h + BitVec.ofNat _ (count h t)) from by rw [← tail_eq]]
  exact contents_update_of_le le_rfl hc x

theorem contents_push_two {mem : BitVec n → α} {h t : BitVec (n + 1)} (hc : count h t + 2 ≤ 2 ^ n)
    (x y : α) :
    contents (Function.update (Function.update mem (slot t) x) (slot (t + 1)) y) h (count h t + 2) =
      contents mem h (count h t) ++ [x, y] := by
  have hpow : 2 ^ (n + 1) = 2 ^ n + 2 ^ n := by rw [← Nat.two_mul, ← pow_succ']
  have hpush : count h (t + 1) = count h t + 1 := count_push (k := 1) (by omega)
  have hy := @contents_push _ _ (Function.update mem (slot t) x) h (t + 1) (by omega) y
  rw [hpush] at hy
  rw [hy, contents_push (by omega), List.append_assoc]
  rfl

/-- A conditional write of a memory word. -/
def writeIf {w : ℕ} (v : Bool) (p : BitVec w) (x : α) (m : BitVec w → α) : BitVec w → α :=
  if v then Function.update m p x else m
theorem writeIf_apply {w : ℕ} (v : Bool) (p : BitVec w) (x : α) (m : BitVec w → α) (k : BitVec w) :
    writeIf v p x m k = if v = true ∧ k = p then x else m k := by
  cases v <;> simp [writeIf, Function.update_apply]

/-- A conditional update of a memory word. -/
def modifyIf {w : ℕ} (v : Bool) (p : BitVec w) (f : α → α) (m : BitVec w → α) : BitVec w → α :=
  writeIf v p (f (m p)) m

/-! ## Writes for evaluation

`Function.update` carries its value along an equality of indices, and to evaluate it the kernel
compares the two indices as terms: in a run these are pointers of different cycles, each an
expression over the whole state.  A condition on the index has it compare two numbers. -/

/-- `writeIf` as a condition on the index. -/
def putIf {w : ℕ} (v : Bool) (p : BitVec w) (x : α) (m : BitVec w → α) : BitVec w → α :=
  fun k => if v && k == p then x else m k
theorem writeIf_eq_putIf {w : ℕ} (v : Bool) (p : BitVec w) (x : α) (m : BitVec w → α) :
    writeIf v p x m = putIf v p x m := by
  funext k
  simp [writeIf_apply, putIf]

/-- `modifyIf` as a condition on the index. -/
def alterIf {w : ℕ} (v : Bool) (p : BitVec w) (f : α → α) (m : BitVec w → α) : BitVec w → α :=
  fun k => if v && k == p then f (m k) else m k
theorem modifyIf_eq_alterIf {w : ℕ} (v : Bool) (p : BitVec w) (f : α → α) (m : BitVec w → α) :
    modifyIf v p f m = alterIf v p f m := by
  funext k
  rw [modifyIf, writeIf_apply, alterIf]
  by_cases hk : k = p <;> simp [hk]

/-! ## Writes and contents -/

/-- Writing up to two slots at the tail appends up to two elements. -/
theorem contents_writeIf {mem : BitVec n → α} {h t t' : BitVec (n + 1)}
    {v v2 : Bool} (hv : v2 = true → v = true) (ht : t' = t + 1)
    (hroom : count h t + (if v then if v2 then 2 else 1 else 0) ≤ 2 ^ n) (x y : α) :
    contents (writeIf v2 (slot t') y (writeIf v (slot t) x mem)) h
        (count h t + if v then if v2 then 2 else 1 else 0) =
      contents mem h (count h t) ++ if v then if v2 then [x, y] else [x] else [] := by
  subst ht
  cases v with
  | false =>
    have hv2 : v2 = false := by cases v2 with
      | false => rfl
      | true => exact absurd (hv rfl) (by decide)
    simp [hv2, writeIf]
  | true =>
    cases v2 with
    | false => exact contents_push hroom x
    | true => exact contents_push_two hroom x y

/-- Writing a list at the tail, slot after slot. -/
def writeAll (mem : BitVec n → α) (t : BitVec (n + 1)) : List α → BitVec n → α
  | [] => mem
  | x :: xs => writeAll (Function.update mem (slot t) x) (t + 1) xs

/-- A list that fits is appended whole. -/
theorem contents_writeAll {mem : BitVec n → α} {h t : BitVec (n + 1)} {xs : List α}
    (hroom : count h t + xs.length ≤ 2 ^ n) :
    contents (writeAll mem t xs) h (count h t + xs.length) = contents mem h (count h t) ++ xs := by
  have hpow : 2 ^ (n + 1) = 2 ^ n + 2 ^ n := by rw [← Nat.two_mul, ← pow_succ']
  induction xs generalizing mem t with
  | nil => simp [writeAll]
  | cons x xs ih =>
    rw [List.length_cons] at hroom
    have hpush : count h (t + 1) = count h t + 1 := count_push (k := 1) (by omega)
    have hcont := @ih (Function.update mem (slot t) x) (t + 1) (by omega)
    rw [hpush, Nat.add_right_comm] at hcont
    rw [writeAll, List.length_cons, ← Nat.add_assoc, hcont, contents_push (by omega),
      List.append_assoc]
    rfl

/-- Advancing the head drops the oldest element. -/
theorem contents_pop (mem : BitVec n → α) (h : BitVec (n + 1)) {c : ℕ} (hc : 0 < c) :
    contents mem h c = mem (slot h) :: contents mem (h + 1) (c - 1) := by
  cases c with
  | zero => omega
  | succ c => rfl

theorem contents_drop (mem : BitVec n → α) (h : BitVec (n + 1)) (c k : ℕ) :
    (contents mem h c).drop k = contents mem (h + BitVec.ofNat _ k) (c - k) := by
  induction k generalizing h c with
  | zero => simp
  | succ k ih =>
    cases c with
    | zero => simp [contents]
    | succ c => rw [contents, List.drop_succ_cons, ih, add_ofNat_succ, Nat.add_sub_add_right]

/-! ## Occupied slots -/

/-- The slots of the `c` elements from the head on. -/
def occupied (h : BitVec (n + 1)) (c : ℕ) : Set (BitVec n) :=
  {k | ∃ j < c, slot (h + BitVec.ofNat _ j) = k}

@[simp] theorem occupied_zero (h : BitVec (n + 1)) : occupied h 0 = ∅ := by
  ext k
  simp [occupied]

theorem occupied_push (h : BitVec (n + 1)) (c : ℕ) :
    occupied h (c + 1) = insert (slot (h + BitVec.ofNat _ c)) (occupied h c) := by
  ext k
  constructor
  · rintro ⟨j, hj, hk⟩
    rcases Nat.lt_succ_iff_lt_or_eq.mp hj with hj | rfl
    · exact Or.inr ⟨j, hj, hk⟩
    · exact Or.inl hk.symm
  · rintro (rfl | ⟨j, hj, hk⟩)
    · exact ⟨c, by omega, rfl⟩
    · exact ⟨j, by omega, hk⟩

/-- A slot past the elements is not theirs. -/
theorem slot_notMem {h : BitVec (n + 1)} {c k : ℕ} (hck : c ≤ k) (hk : k < 2 ^ n) :
    slot (h + BitVec.ofNat _ k) ∉ occupied h c := by
  rintro ⟨j, hj, he⟩
  have := slot_add_inj (by omega) hk he
  omega

theorem occupied_pop {h : BitVec (n + 1)} {c : ℕ} (hc : c < 2 ^ n) :
    occupied (h + 1) c = occupied h (c + 1) \ {slot h} := by
  ext k
  constructor
  · rintro ⟨j, hj, rfl⟩
    rw [← add_ofNat_succ]
    refine ⟨⟨j + 1, by omega, rfl⟩, ?_⟩
    intro he
    have h0 : slot (h + BitVec.ofNat _ (j + 1)) = slot (h + BitVec.ofNat _ 0) := by simpa using he
    have := slot_add_inj (by omega) (by omega) h0
    omega
  · rintro ⟨⟨j, hj, rfl⟩, hne⟩
    cases j with
    | zero => exact absurd (by simp) hne
    | succ j => exact ⟨j, by omega, by rw [add_ofNat_succ]⟩

/-- One step of a pointer. -/
def bump {w : ℕ} (b : Bool) : BitVec w := if b then 1 else 0

theorem bump_eq {w : ℕ} (b : Bool) : (bump b : BitVec w) = BitVec.ofNat w b.toNat := by
  cases b <;> rfl

/-- A buffer that is pushed and popped in one step, with room and an element where needed. -/
theorem contents_step {mem : BitVec n → α} {h t : BitVec (n + 1)} {push pop : Bool}
    (hpop : pop = true → h ≠ t) (hroom : count h t + push.toNat ≤ 2 ^ n) (x : α) :
    count (h + bump pop) (t + bump push) = count h t + push.toNat - pop.toNat ∧
      contents (writeIf push (slot t) x mem) (h + bump pop) (count (h + bump pop) (t + bump push)) =
        (contents mem h (count h t)).drop pop.toNat ++ if push then [x] else [] := by
  have hpow : 2 ^ (n + 1) = 2 ^ n + 2 ^ n := by rw [← Nat.two_mul, ← pow_succ']
  have hpos : 0 < 2 ^ n := Nat.two_pow_pos n
  have hle : pop.toNat ≤ count h t := by
    cases hp : pop with
    | false => exact Nat.zero_le _
    | true => exact Nat.pos_of_ne_zero (mt count_eq_zero.mp (hpop hp))
  have hcnt : count h (t + BitVec.ofNat _ push.toNat) = count h t + push.toNat :=
    count_push (by omega)
  have happ : contents (writeIf push (slot t) x mem) h (count h t + push.toNat) =
      contents mem h (count h t) ++ if push then [x] else [] := by
    cases push with
    | false => simp [writeIf]
    | true => exact contents_push hroom x
  rw [bump_eq, bump_eq, count_pop (by omega), hcnt]
  refine ⟨rfl, ?_⟩
  rw [← contents_drop, happ, List.drop_append_of_le_length (by simpa using hle)]

end Ring
