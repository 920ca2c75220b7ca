import Mathlib.Logic.Function.Basic

/-! # Direct-mapped write-back caches

Every set holds at most one line.  A line and its memory word are addressed by tag
and set; the view of the cache is what a reader must find at an address.  Only a
store changes the view: lines may move between the cache and memory at any time.
-/
namespace WriteBack
variable {K T D : Type*} [DecidableEq T]

/-- A cache and the memory behind it. -/
@[ext] structure Cache (K T D : Type*) where
  valid : K → Bool
  dirty : K → Bool
  tag : K → T
  data : K → D
  mem : T → K → D

namespace Cache
variable (c : Cache K T D)

/-- The cache holds the line. -/
def Present (t : T) (k : K) : Prop := c.valid k = true ∧ c.tag k = t

instance (t : T) (k : K) : Decidable (c.Present t k) :=
  inferInstanceAs (Decidable (_ ∧ _))

/-- The latest contents of a line. -/
def view (t : T) (k : K) : D := if c.Present t k then c.data k else c.mem t k

/-- Only valid lines are dirty, and a clean line is a copy of memory. -/
structure Coherent : Prop where
  valid_of_dirty : ∀ k, c.dirty k = true → c.valid k = true
  clean : ∀ k, c.valid k = true → c.dirty k = false → c.data k = c.mem (c.tag k) k

section
variable {c}

theorem view_present {t : T} {k : K} (h : c.Present t k) : c.view t k = c.data k := if_pos h
theorem view_absent {t : T} {k : K} (h : ¬ c.Present t k) : c.view t k = c.mem t k := if_neg h

/-- A line that is not dirty has its contents in memory. -/
theorem Coherent.view_clean (h : c.Coherent) {k : K} (hd : c.dirty k = false) (t : T) :
    c.view t k = c.mem t k := by
  by_cases hp : c.Present t k
  · rw [view_present hp, h.clean k hp.1 hd, hp.2]
  · exact view_absent hp

end

/-! ## Moves -/

variable [DecidableEq K]

/-- A store into the line that the set holds. -/
def store (k : K) (d : D) : Cache K T D :=
  { c with data := Function.update c.data k d, dirty := Function.update c.dirty k true }

/-- The line goes to memory, and its set is left with any contents. -/
def writeBack (k : K) (d : D) : Cache K T D :=
  { c with
    valid := Function.update c.valid k false
    dirty := Function.update c.dirty k false
    data := Function.update c.data k d
    mem := Function.update c.mem (c.tag k) (Function.update (c.mem (c.tag k)) k (c.data k)) }

/-- The line comes from memory into its set. -/
def refill (t : T) (k : K) : Cache K T D :=
  { c with
    valid := Function.update c.valid k true
    dirty := Function.update c.dirty k false
    tag := Function.update c.tag k t
    data := Function.update c.data k (c.mem t k) }

/-- The line of the set is forgotten. -/
def drop (k : K) : Cache K T D := { c with valid := Function.update c.valid k false }

variable {c}

theorem view_store {k : K} {d : D} (hv : c.valid k = true) (t : T) (j : K) :
    (c.store k d).view t j = if j = k ∧ t = c.tag k then d else c.view t j := by
  by_cases hj : j = k
  · subst hj
    by_cases ht : t = c.tag j
    · subst ht
      have hp : (c.store j d).Present (c.tag j) j := ⟨hv, rfl⟩
      rw [if_pos ⟨rfl, rfl⟩, view_present hp]
      exact Function.update_self ..
    · have hp : ¬ c.Present t j := fun hp => ht hp.2.symm
      rw [if_neg fun h => ht h.2, view_absent hp]
      exact view_absent hp
  · rw [if_neg fun h => hj h.1]
    unfold view
    rw [show (c.store k d).data j = c.data j from Function.update_of_ne hj ..]
    rfl

omit [DecidableEq T] in
theorem Coherent.store (h : c.Coherent) {k : K} {d : D} (hv : c.valid k = true) :
    (c.store k d).Coherent where
  valid_of_dirty := fun j hj => by
    rcases eq_or_ne j k with rfl | hne
    · exact hv
    · exact h.valid_of_dirty j ((Function.update_of_ne hne ..).symm.trans hj)
  clean := fun j hj hd => by
    rcases eq_or_ne j k with rfl | hne
    · rw [show (c.store j d).dirty j = true from Function.update_self ..] at hd
      cases hd
    · rw [show (c.store k d).data j = c.data j from Function.update_of_ne hne ..]
      exact h.clean j hj ((Function.update_of_ne hne ..).symm.trans hd)

theorem writeBack_mem (k : K) (d : D) (t : T) (j : K) :
    (c.writeBack k d).mem t j = if j = k ∧ t = c.tag k then c.data k else c.mem t j := by
  change Function.update c.mem _ _ t j = _
  rcases eq_or_ne t (c.tag k) with rfl | ht
  · rw [Function.update_self, Function.update_apply]
    simp
  · rw [Function.update_of_ne ht, if_neg fun h => ht h.2]

theorem writeBack_valid (k : K) (d : D) (j : K) :
    (c.writeBack k d).valid j = if j = k then false else c.valid j := Function.update_apply ..

theorem Coherent.writeBack (h : c.Coherent) (k : K) (d : D) : (c.writeBack k d).Coherent where
  valid_of_dirty := fun j hj => by
    rcases eq_or_ne j k with rfl | hne
    · rw [show (c.writeBack j d).dirty j = false from Function.update_self ..] at hj
      cases hj
    · rw [writeBack_valid, if_neg hne]
      exact h.valid_of_dirty j ((Function.update_of_ne hne ..).symm.trans hj)
  clean := fun j hj hd => by
    rcases eq_or_ne j k with rfl | hne
    · rw [writeBack_valid, if_pos rfl] at hj
      cases hj
    · rw [writeBack_valid, if_neg hne] at hj
      rw [show (c.writeBack k d).data j = c.data j from Function.update_of_ne hne ..,
        writeBack_mem, if_neg fun hc => hne hc.1]
      exact h.clean j hj ((Function.update_of_ne hne ..).symm.trans hd)

/-- A valid line that is written back keeps its view. -/
theorem view_writeBack {k : K} {d : D} (hv : c.valid k = true) : (c.writeBack k d).view = c.view := by
  funext t j
  by_cases hj : j = k
  · subst hj
    have hp : ¬ (c.writeBack j d).Present t j := fun hp => by
      have := hp.1
      rw [writeBack_valid, if_pos rfl] at this
      cases this
    rw [view_absent hp, writeBack_mem]
    by_cases ht : t = c.tag j
    · rw [if_pos ⟨rfl, ht⟩, view_present ⟨hv, ht.symm⟩]
    · rw [if_neg fun h => ht h.2, view_absent fun hp => ht hp.2.symm]
  · have hpres : (c.writeBack k d).Present t j ↔ c.Present t j := by
      rw [Present, writeBack_valid, if_neg hj]
      rfl
    have hmem : (c.writeBack k d).mem t j = c.mem t j := by
      rw [writeBack_mem, if_neg fun h => hj h.1]
    unfold view
    rw [if_congr hpres (show (c.writeBack k d).data j = c.data j from Function.update_of_ne hj ..) rfl,
      hmem]

omit [DecidableEq T] in
theorem Coherent.refill (h : c.Coherent) (t : T) (k : K) : (c.refill t k).Coherent where
  valid_of_dirty := fun j hj => by
    rcases eq_or_ne j k with rfl | hne
    · exact Function.update_self ..
    · exact (Function.update_of_ne hne ..).trans
        (h.valid_of_dirty j ((Function.update_of_ne hne ..).symm.trans hj))
  clean := fun j hj hd => by
    rcases eq_or_ne j k with rfl | hne
    · change Function.update c.data j _ j = c.mem (Function.update c.tag j t j) j
      rw [Function.update_self, Function.update_self]
    · change Function.update c.data k _ j = c.mem (Function.update c.tag k t j) j
      rw [Function.update_of_ne hne, Function.update_of_ne hne]
      exact h.clean j ((Function.update_of_ne hne ..).symm.trans hj)
        ((Function.update_of_ne hne ..).symm.trans hd)

/-- A refill of a set whose line is not dirty keeps the view. -/
theorem Coherent.view_refill (h : c.Coherent) {t : T} {k : K} (hd : c.dirty k = false) :
    (c.refill t k).view = c.view := by
  have hmem : ∀ s j, (c.refill t k).mem s j = c.mem s j := fun _ _ => rfl
  funext s j
  by_cases hj : j = k
  · subst hj
    have hd' : (c.refill t j).dirty j = false := Function.update_self ..
    rw [h.view_clean hd, (h.refill t j).view_clean hd', hmem]
  · have hpres : (c.refill t k).Present s j ↔ c.Present s j := by
      change Function.update c.valid k true j = true ∧ Function.update c.tag k t j = s ↔ _
      rw [Function.update_of_ne hj, Function.update_of_ne hj]
      rfl
    unfold view
    rw [if_congr hpres (show (c.refill t k).data j = c.data j from Function.update_of_ne hj ..) rfl,
      hmem]

omit [DecidableEq T] in
theorem Coherent.drop (h : c.Coherent) {k : K} (hd : c.dirty k = false) : (c.drop k).Coherent where
  valid_of_dirty := fun j hj => by
    rcases eq_or_ne j k with rfl | hne
    · rw [show (c.drop j).dirty j = c.dirty j from rfl, hd] at hj
      cases hj
    · exact (Function.update_of_ne hne ..).trans (h.valid_of_dirty j hj)
  clean := fun j hj hdj => by
    rcases eq_or_ne j k with rfl | hne
    · rw [show (c.drop j).valid j = false from Function.update_self ..] at hj
      cases hj
    · exact h.clean j ((Function.update_of_ne hne ..).symm.trans hj) hdj

/-- A line that is not dirty can be forgotten. -/
theorem Coherent.view_drop (h : c.Coherent) {k : K} (hd : c.dirty k = false) :
    (c.drop k).view = c.view := by
  funext t j
  by_cases hj : j = k
  · subst hj
    rw [h.view_clean hd, (h.drop hd).view_clean hd]
    rfl
  · have hpres : (c.drop k).Present t j ↔ c.Present t j := by
      change Function.update c.valid k false j = true ∧ _ ↔ _
      rw [Function.update_of_ne hj]
      rfl
    unfold view
    rw [if_congr hpres rfl rfl]
    rfl

end Cache
end WriteBack
