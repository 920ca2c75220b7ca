import MipsCore.Lib.RenameMap

/-! # Renamed execution out of order

Instructions read and write names.  In order, each executes on the file that the ones before it
leave.  Renamed, each reads and writes locations, in any order in which no location is read while
an operation that writes it is pending; operations are committed in order, or all forgotten.
-/
namespace OutOfOrder
open Function Rename
variable {A P I V : Type*}

/-- The names that an instruction reads, the one that it writes, and the value that it writes. -/
structure Semantics (A I V : Type*) where
  srcs : I → List A
  dst : I → Option A
  sem : I → List V → V

/-- A renamed instruction: the locations that it reads, its rename, and whether it has executed. -/
structure Op (A P I : Type*) where
  inst : I
  reads : List P
  rename : Option (Entry A P)
  done : Bool

section InOrder
variable [DecidableEq A] (m : Semantics A I V)

/-- An instruction in order. -/
def exec (file : A → V) (i : I) : A → V :=
  (m.dst i).elim file fun a => update file a (m.sem i ((m.srcs i).map file))

/-- The file that a program leaves. -/
def seq (file : A → V) (is : List I) : A → V := is.foldl (exec m) file

variable {m}

theorem seq_append (file : A → V) (is js : List I) :
    seq m file (is ++ js) = seq m (seq m file is) js := List.foldl_append ..

end InOrder

/-- The pending renames. -/
def renames (ops : List (Op A P I)) : List (Entry A P) := ops.filterMap Op.rename
def insts (ops : List (Op A P I)) : List I := ops.map Op.inst

@[simp] theorem renames_nil : renames ([] : List (Op A P I)) = [] := rfl
@[simp] theorem renames_append (xs ys : List (Op A P I)) :
    renames (xs ++ ys) = renames xs ++ renames ys := List.filterMap_append ..
@[simp] theorem insts_append (xs ys : List (Op A P I)) : insts (xs ++ ys) = insts xs ++ insts ys :=
  List.map_append ..

/-- No pending operation writes a location that the operation reads. -/
def Ready (ops : List (Op A P I)) (o : Op A P I) : Prop :=
  ∀ q ∈ ops, q.done = false → ∀ e ∈ q.rename, e.new ∉ o.reads


/-! ## Pending operations -/

variable [DecidableEq A] {m : Semantics A I V} {file : P → V} {map : A → P} {vals : A → V}
  {ops xs ys : List (Op A P I)} {o : Op A P I}

/-- Each pending operation reads the locations of its names and has, once it is done, written the
value that it has in order. -/
def Sound (m : Semantics A I V) (file : P → V) : (A → P) → (A → V) → List (Op A P I) → Prop
  | _, _, [] => True
  | map, vals, o :: ops =>
    (o.reads = (m.srcs o.inst).map map ∧ o.rename.map Entry.dst = m.dst o.inst ∧
      (o.done = true → ∀ e ∈ o.rename, file e.new = m.sem o.inst ((m.srcs o.inst).map vals))) ∧
    Sound m file (write o.rename map) (exec m vals o.inst) ops

/-- The file behind a map holds the values. -/
def Holds (file : P → V) (map : A → P) (vals : A → V) : Prop := ∀ a, file (map a) = vals a

theorem exec_of_rename {e : Entry A P} (hd : o.rename.map Entry.dst = m.dst o.inst)
    (he : o.rename = some e) :
    exec m vals o.inst = update vals e.dst (m.sem o.inst ((m.srcs o.inst).map vals)) := by
  rw [he] at hd
  rw [exec, ← hd]
  rfl

theorem exec_of_none (hd : o.rename.map Entry.dst = m.dst o.inst) (he : o.rename = none) :
    exec m vals o.inst = vals := by
  rw [he] at hd
  rw [exec, ← hd]
  rfl

theorem apply_renames_cons (map : A → P) (o : Op A P I) (ops : List (Op A P I)) :
    apply map (renames (o :: ops)) = apply (write o.rename map) (renames ops) := by
  cases h : o.rename with
  | none => simp [renames, h, write]
  | some e => simp [renames, h, write, apply]

theorem apply_renames_concat (map : A → P) (ops : List (Op A P I)) (o : Op A P I) :
    apply map (renames (ops ++ [o])) = write o.rename (apply map (renames ops)) := by
  cases h : o.rename with
  | none => simp [renames, h, write]
  | some e =>
    have hr : renames (ops ++ [o]) = renames ops ++ [e] := by simp [renames, h]
    rw [hr, apply_concat]
    rfl

theorem sound_append : Sound m file map vals (xs ++ ys) ↔
    Sound m file map vals xs ∧ Sound m file (apply map (renames xs)) (seq m vals (insts xs)) ys := by
  induction xs generalizing map vals with
  | nil => simp [Sound, apply, seq, insts]
  | cons o xs ih =>
    rw [List.cons_append, Sound, Sound, ih, apply_renames_cons, ← and_assoc]
    rfl

/-- A new operation reads through the speculative map, and only one that writes nothing is done. -/
theorem Sound.issue (h : Sound m file map vals ops)
    (hr : o.reads = (m.srcs o.inst).map (apply map (renames ops)))
    (hd : o.rename.map Entry.dst = m.dst o.inst) (hn : o.done = true → o.rename = none) :
    Sound m file map vals (ops ++ [o]) := by
  refine sound_append.mpr ⟨h, ⟨hr, hd, fun hdone e he => ?_⟩, trivial⟩
  rw [hn hdone] at he
  cases he

/-- A location that no pending operation is still to write holds the value of its name. -/
theorem Sound.current {a : A} (h : Sound m file map vals xs)
    (hv : (∀ e ∈ renames xs, e.dst ≠ a) → file (map a) = vals a)
    (hp : ∀ q ∈ xs, q.done = false → ∀ e ∈ q.rename, e.new ≠ apply map (renames xs) a) :
    file (apply map (renames xs) a) = seq m vals (insts xs) a := by
  induction xs generalizing map vals with
  | nil => exact hv fun e he => absurd he List.not_mem_nil
  | cons o xs ih =>
    obtain ⟨⟨-, hd, hw⟩, ht⟩ := h
    rw [apply_renames_cons] at hp ⊢
    refine ih ht (fun hne => ?_) fun q hq => hp q (List.mem_cons_of_mem _ hq)
    cases he : o.rename with
    | none =>
      rw [exec_of_none hd he]
      refine hv fun e hm => hne e ?_
      simpa [renames, he] using hm
    | some e =>
      rw [exec_of_rename hd he]
      change file (update map e.dst e.new a) = _
      by_cases ha : a = e.dst
      · subst ha
        have hlast : apply (write o.rename map) (renames xs) e.dst = e.new := by
          rw [apply_of_forall_ne hne, he]
          exact update_self ..
        rw [update_self, update_self]
        refine hw ?_ e he
        by_contra hnd
        exact hp o List.mem_cons_self (by simpa using hnd) e he hlast.symm
      · rw [update_of_ne ha, update_of_ne ha]
        refine hv fun x hx => ?_
        rcases List.mem_cons.mp (by simpa [renames, he] using hx : x ∈ e :: renames xs) with rfl | hx
        · exact fun hxa => ha hxa.symm
        · exact hne x hx

/-- The oldest operations, once they are done, leave their values in the committed map. -/
theorem Sound.commit (h : Sound m file map vals (xs ++ ys)) (hv : Holds file map vals)
    (hdone : ∀ o ∈ xs, o.done = true) :
    Holds file (apply map (renames xs)) (seq m vals (insts xs)) ∧
      Sound m file (apply map (renames xs)) (seq m vals (insts xs)) ys := by
  obtain ⟨hx, hy⟩ := sound_append.mp h
  refine ⟨fun a => hx.current (fun _ => hv a) fun q hq hnd => ?_, hy⟩
  rw [hdone q hq] at hnd
  cases hnd

/-! ## Execution -/

variable [DecidableEq P]

/-- The file after an operation has executed. -/
def complete (m : Semantics A I V) (o : Op A P I) (file : P → V) : P → V :=
  o.rename.elim file fun e => update file e.new (m.sem o.inst (o.reads.map file))

/-- What is written elsewhere does not matter. -/
theorem Sound.frame {p : P} {v : V} (h : Sound m file map vals ops)
    (hp : ∀ e ∈ renames ops, e.new ≠ p) : Sound m (update file p v) map vals ops := by
  induction ops generalizing map vals with
  | nil => trivial
  | cons o ops ih =>
    obtain ⟨⟨hr, hd, hw⟩, ht⟩ := h
    refine ⟨⟨hr, hd, fun hdone e he => ?_⟩, ih ht fun e he => hp e ?_⟩
    · rw [update_of_ne (hp e (List.mem_filterMap.mpr ⟨o, List.mem_cons_self, he⟩))]
      exact hw hdone e he
    · obtain ⟨q, hq, hqe⟩ := List.mem_filterMap.mp he
      exact List.mem_filterMap.mpr ⟨q, List.mem_cons_of_mem _ hq, hqe⟩

/-- An operation executes once everything that it reads has been written. -/
theorem Sound.complete (h : Sound m file map vals (xs ++ o :: ys)) (hv : Holds file map vals)
    (hnd : ((renames (xs ++ o :: ys)).map Entry.new).Nodup)
    (hf : ∀ e ∈ renames (xs ++ o :: ys), e.new ∉ Set.range map) (hr : Ready (xs ++ o :: ys) o) :
    Sound m (OutOfOrder.complete m o file) map vals (xs ++ { o with done := true } :: ys) ∧
      Holds (OutOfOrder.complete m o file) map vals := by
  obtain ⟨hx, ⟨hreads, hd, -⟩, hy⟩ := sound_append.mp h
  have hvals : o.reads.map file = (m.srcs o.inst).map (seq m vals (insts xs)) := by
    rw [hreads, List.map_map]
    refine List.map_congr_left fun a ha => hx.current (fun _ => hv a) fun q hq hqd e he hn => ?_
    refine hr q (List.mem_append_left _ hq) hqd e he ?_
    rw [hreads, hn]
    exact List.mem_map_of_mem ha
  rcases Option.eq_none_or_eq_some o.rename with he | ⟨e, he⟩
  · have hfile : OutOfOrder.complete m o file = file := by
      rw [OutOfOrder.complete, he]
      rfl
    rw [hfile]
    refine ⟨sound_append.mpr ⟨hx, ⟨hreads, hd, fun _ e hm => ?_⟩, hy⟩, hv⟩
    change e ∈ o.rename at hm
    rw [he] at hm
    cases hm
  · have hsplit : renames (xs ++ o :: ys) = renames xs ++ e :: renames ys := by
      simp [renames, he]
    rw [hsplit] at hnd hf
    rw [List.map_append, List.map_cons, List.nodup_middle, List.nodup_cons] at hnd
    have hne : ∀ x ∈ renames xs ++ renames ys, x.new ≠ e.new := by
      intro x hx hxe
      refine hnd.1 ?_
      rw [← List.map_append, ← hxe]
      exact List.mem_map_of_mem hx
    have hfile : OutOfOrder.complete m o file =
        update file e.new (m.sem o.inst (o.reads.map file)) := by
      rw [OutOfOrder.complete, he]
      rfl
    rw [hfile]
    refine ⟨sound_append.mpr ⟨hx.frame fun x hx => hne x (List.mem_append_left _ hx),
      ⟨hreads, hd, fun _ x hm => ?_⟩, hy.frame fun x hx => hne x (List.mem_append_right _ hx)⟩,
      fun a => ?_⟩
    · change x ∈ o.rename at hm
      rw [he] at hm
      obtain rfl := Option.some.inj hm
      exact (update_self ..).trans (congrArg _ hvals)
    · have hmem : e ∈ renames xs ++ e :: renames ys := List.mem_append_right _ List.mem_cons_self
      have hna : map a ≠ e.new := fun hae => hf e hmem ⟨a, hae⟩
      exact (update_of_ne hna ..).trans (hv a)

end OutOfOrder
