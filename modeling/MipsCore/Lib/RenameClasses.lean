import MipsCore.Lib.RenameMap

/-! # Renaming several classes of names as one

Two classes of names with a map each are one class with one map, as long as no
entry renames in both.
-/
namespace Rename
open Function
variable {A B P Q γ : Type*}

/-- The rename of an entry in one class or in the other. -/
def either (f : γ → Option (Entry A P)) (g : γ → Option (Entry B Q)) (x : γ) :
    Option (Entry (A ⊕ B) (P ⊕ Q)) :=
  (f x).elim ((g x).map fun e => ⟨Sum.inr e.dst, Sum.inr e.new, Sum.inr e.old⟩) fun e =>
    some ⟨Sum.inl e.dst, Sum.inl e.new, Sum.inl e.old⟩

/-- The locations of both classes. -/
def both (s : Set P) (t : Set Q) : Set (P ⊕ Q) := {x | Sum.elim (· ∈ s) (· ∈ t) x}

variable {f : γ → Option (Entry A P)} {g : γ → Option (Entry B Q)} {l : List γ}

theorem forall_either {R : Entry (A ⊕ B) (P ⊕ Q) → Prop}
    (hf : ∀ e ∈ l.filterMap f, R ⟨Sum.inl e.dst, Sum.inl e.new, Sum.inl e.old⟩)
    (hg : ∀ e ∈ l.filterMap g, R ⟨Sum.inr e.dst, Sum.inr e.new, Sum.inr e.old⟩) :
    ∀ e ∈ l.filterMap (either f g), R e := by
  intro e he
  obtain ⟨x, hx, hxe⟩ := List.mem_filterMap.mp he
  unfold either at hxe
  cases h1 : f x with
  | some y =>
    rw [h1] at hxe
    exact Option.some.inj hxe ▸ hf y (List.mem_filterMap.mpr ⟨x, hx, h1⟩)
  | none =>
    rw [h1] at hxe
    obtain ⟨y, hy, rfl⟩ := Option.map_eq_some_iff.mp hxe
    exact hg y (List.mem_filterMap.mpr ⟨x, hx, hy⟩)

theorem nodup_either (hf : ((l.filterMap f).map Entry.new).Nodup)
    (hg : ((l.filterMap g).map Entry.new).Nodup) :
    ((l.filterMap (either f g)).map Entry.new).Nodup := by
  induction l with
  | nil => exact List.nodup_nil
  | cons x l ih =>
    cases h1 : f x with
    | some e =>
      rw [List.filterMap_cons_some h1, List.map_cons, List.nodup_cons] at hf
      have hg' : ((l.filterMap g).map Entry.new).Nodup := by
        cases h2 : g x with
        | none => rwa [List.filterMap_cons_none h2] at hg
        | some y =>
          rw [List.filterMap_cons_some h2, List.map_cons, List.nodup_cons] at hg
          exact hg.2
      rw [List.filterMap_cons_some (by simp [either, h1] : either f g x = some
        ⟨Sum.inl e.dst, Sum.inl e.new, Sum.inl e.old⟩), List.map_cons, List.nodup_cons]
      refine ⟨fun hm => ?_, ih hf.2 hg'⟩
      obtain ⟨y, hy, hye⟩ := List.mem_map.mp hm
      refine forall_either (R := fun z => z.new ≠ Sum.inl e.new) (fun z hz hze => hf.1 ?_)
        (fun z _ hze => by cases hze) y hy hye
      exact List.mem_map.mpr ⟨z, hz, Sum.inl.inj hze⟩
    | none =>
      rw [List.filterMap_cons_none h1] at hf
      cases h2 : g x with
      | none =>
        rw [List.filterMap_cons_none h2] at hg
        rw [List.filterMap_cons_none (by simp [either, h1, h2])]
        exact ih hf hg
      | some e =>
        rw [List.filterMap_cons_some h2, List.map_cons, List.nodup_cons] at hg
        rw [List.filterMap_cons_some (by simp [either, h1, h2] : either f g x = some
          ⟨Sum.inr e.dst, Sum.inr e.new, Sum.inr e.old⟩), List.map_cons, List.nodup_cons]
        refine ⟨fun hm => ?_, ih hf hg.2⟩
        obtain ⟨y, hy, hye⟩ := List.mem_map.mp hm
        refine forall_either (R := fun z => z.new ≠ Sum.inr e.new) (fun z _ hze => by cases hze)
          (fun z hz hze => hg.1 ?_) y hy hye
        exact List.mem_map.mpr ⟨z, hz, Sum.inr.inj hze⟩

theorem mem_range_sumMap {m : A → P} {n : B → Q} {x : P ⊕ Q} :
    x ∈ Set.range (Sum.map m n) ↔ x ∈ both (Set.range m) (Set.range n) := by
  constructor
  · rintro ⟨a | b, rfl⟩
    · exact ⟨a, rfl⟩
    · exact ⟨b, rfl⟩
  · cases x with
    | inl p =>
      rintro ⟨a, rfl⟩
      exact ⟨Sum.inl a, rfl⟩
    | inr q =>
      rintro ⟨b, rfl⟩
      exact ⟨Sum.inr b, rfl⟩

variable [DecidableEq A] [DecidableEq B]

theorem update_inl (m : A → P) (n : B → Q) (a : A) (p : P) :
    update (Sum.map m n) (Sum.inl a) (Sum.inl p) = Sum.map (update m a p) n := by
  funext x
  cases x with
  | inl y =>
    by_cases hy : y = a
    · rw [hy, update_self, Sum.map_inl, update_self]
    · rw [update_of_ne (fun h => hy (Sum.inl.inj h)), Sum.map_inl, Sum.map_inl, update_of_ne hy]
  | inr y => exact update_of_ne (fun h => by cases h) _ _

theorem update_inr (m : A → P) (n : B → Q) (b : B) (q : Q) :
    update (Sum.map m n) (Sum.inr b) (Sum.inr q) = Sum.map m (update n b q) := by
  funext x
  cases x with
  | inl y => exact update_of_ne (fun h => by cases h) _ _
  | inr y =>
    by_cases hy : y = b
    · rw [hy, update_self, Sum.map_inr, update_self]
    · rw [update_of_ne (fun h => hy (Sum.inr.inj h)), Sum.map_inr, Sum.map_inr, update_of_ne hy]

/-- A rename of one class leaves the map of the other. -/
theorem write_either {x : γ} (hx : f x = none ∨ g x = none) (m : A → P) (n : B → Q) :
    write (either f g x) (Sum.map m n) = Sum.map (write (f x) m) (write (g x) n) := by
  cases h1 : f x with
  | none =>
    cases h2 : g x with
    | none => simp [either, h1, h2, write]
    | some e => simpa [either, h1, h2, write] using update_inr m n e.dst e.new
  | some e =>
    have h2 : g x = none := hx.resolve_left (by simp [h1])
    simpa [either, h1, h2, write] using update_inl m n e.dst e.new

theorem apply_filterMap_cons (f : γ → Option (Entry A P)) (m : A → P) (x : γ)
    (l : List γ) : apply m ((x :: l).filterMap f) = apply (write (f x) m) (l.filterMap f) := by
  cases h : f x <;> simp [h, write, apply]

theorem apply_either (hl : ∀ x ∈ l, f x = none ∨ g x = none) (m : A → P) (n : B → Q) :
    apply (Sum.map m n) (l.filterMap (either f g)) =
      Sum.map (apply m (l.filterMap f)) (apply n (l.filterMap g)) := by
  induction l generalizing m n with
  | nil => rfl
  | cons x l ih =>
    have hx := write_either (hl x List.mem_cons_self) m n
    have ht := ih (fun y hy => hl y (List.mem_cons_of_mem _ hy)) (write (f x) m) (write (g x) n)
    rw [← hx] at ht
    rw [apply_filterMap_cons, apply_filterMap_cons, apply_filterMap_cons]
    exact ht

theorem chained_either (hl : ∀ x ∈ l, f x = none ∨ g x = none) {m : A → P} {n : B → Q}
    (hf : Chained m (l.filterMap f)) (hg : Chained n (l.filterMap g)) :
    Chained (Sum.map m n) (l.filterMap (either f g)) := by
  induction l generalizing m n with
  | nil => trivial
  | cons x l ih =>
    have ht : ∀ m n, Chained m (l.filterMap f) → Chained n (l.filterMap g) →
        Chained (Sum.map m n) (l.filterMap (either f g)) :=
      fun m n => ih (fun y hy => hl y (List.mem_cons_of_mem _ hy))
    cases h1 : f x with
    | none =>
      rw [List.filterMap_cons_none h1] at hf
      cases h2 : g x with
      | none =>
        rw [List.filterMap_cons_none h2] at hg
        rw [List.filterMap_cons_none (by simp [either, h1, h2])]
        exact ht m n hf hg
      | some e =>
        rw [List.filterMap_cons_some h2] at hg
        rw [List.filterMap_cons_some (by simp [either, h1, h2] : either f g x = some
          ⟨Sum.inr e.dst, Sum.inr e.new, Sum.inr e.old⟩)]
        refine ⟨congrArg Sum.inr hg.1, ?_⟩
        rw [update_inr]
        exact ht _ _ hf hg.2
    | some e =>
      have h2 : g x = none := (hl x List.mem_cons_self).resolve_left (by simp [h1])
      rw [List.filterMap_cons_none h2] at hg
      rw [List.filterMap_cons_some h1] at hf
      rw [List.filterMap_cons_some (by simp [either, h1] : either f g x = some
        ⟨Sum.inl e.dst, Sum.inl e.new, Sum.inl e.old⟩)]
      refine ⟨congrArg Sum.inl hf.1, ?_⟩
      rw [update_inl]
      exact ht _ _ hf.2 hg

/-- The renaming states of two classes as one. -/
theorem Coherent.sum {retire alloc : A → P} {free retireFree : Set P} {retire' alloc' : B → Q}
    {free' retireFree' : Set Q} (hl : ∀ x ∈ l, f x = none ∨ g x = none)
    (h : Coherent retire alloc (l.filterMap f) free retireFree)
    (h' : Coherent retire' alloc' (l.filterMap g) free' retireFree') :
    Coherent (Sum.map retire retire') (Sum.map alloc alloc') (l.filterMap (either f g))
      (both free free') (both retireFree retireFree') where
  alloc_eq := by rw [apply_either hl, ← h.alloc_eq, ← h'.alloc_eq]
  chained := chained_either hl h.chained h'.chained
  injective := h.injective.sumMap h'.injective
  nodup := nodup_either h.nodup h'.nodup
  fresh := forall_either (fun e he hm => h.fresh e he (mem_range_sumMap.mp hm))
    fun e he hm => h'.fresh e he (mem_range_sumMap.mp hm)
  retire_notMem := fun a => by
    cases a with
    | inl a => exact h.retire_notMem a
    | inr b => exact h'.retire_notMem b
  new_notMem := forall_either (fun e he => h.new_notMem e he) fun e he => h'.new_notMem e he
  retireFree_iff := fun p => by
    rw [mem_range_sumMap]
    cases p with
    | inl p => exact h.retireFree_iff p
    | inr q => exact h'.retireFree_iff q

end Rename
