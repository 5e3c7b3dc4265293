import Asupersync.Types.Basic
import Mathlib.Data.Finset.Card

/-!
# The scheduled set

Membership of tasks in a scheduler.  For arena-backed identifiers the set keeps
one tag per slot index in a dense vector; indices beyond the dense range, and
slots in which several generations are scheduled at once, fall back to a hash
set.

**Representation.**  Tag `0` is an empty slot, `generation + 1` a slot with that
generation scheduled, and `denseCollision` a slot whose members are in the
overflow set.  The hash set is a list without duplicates.

**Results.**  `insert_spec` and `remove_spec`: the representation behaves as the
finite set `elems`, and `len` is its cardinality.  `refines_finset`: so does every
sequence of calls.
-/

namespace Asupersync

open List

structure ScheduledSet where
  dense : List Nat
  overflow : List TaskId
  len : Nat
deriving Repr

namespace ScheduledSet

def denseCollision : Nat := u64Max

def maxDenseLen : Nat := 1048576

def minDenseLen : Nat := 64

def withCapacity (capacity : Nat) : ScheduledSet :=
  { dense := List.replicate
      (min (max (max capacity 1).nextPowerOfTwo minDenseLen) maxDenseLen) 0
    overflow := []
    len := 0 }

/-- The dense slot of a task. -/
def slot (task : TaskId) : Nat := task.arenaIndex.index.toNat

/-- The tag of a task in its slot. -/
def tag (task : TaskId) : Nat :=
  if task.arenaIndex.generation.toNat = u64Max then denseCollision
  else task.arenaIndex.generation.toNat + 1

def contains (s : ScheduledSet) (task : TaskId) : Bool :=
  match s.dense[slot task]? with
  | none => decide (task ∈ s.overflow)
  | some existing =>
    if existing = tag task then true
    else if existing = denseCollision then decide (task ∈ s.overflow)
    else false

/-- The doubling loop of `grow_dense_to_fit`; a `usize` doubles at most 64 times. -/
def grownLen (needed : Nat) : Nat → Nat → Nat
  | 0, newLen => newLen
  | fuel + 1, newLen =>
    if newLen < needed then grownLen needed fuel (min (newLen * 2) usizeMax) else newLen

def growDenseToFit (s : ScheduledSet) (idx : Nat) : ScheduledSet :=
  let newLen := min (max (grownLen (idx + 1) 64 (max s.dense.length 1)) minDenseLen) maxDenseLen
  if s.dense.length < newLen then
    { s with dense := s.dense ++ List.replicate (newLen - s.dense.length) 0 }
  else s

/-- Adds a task to the overflow set. -/
def insertOverflow (s : ScheduledSet) (task : TaskId) : ScheduledSet × Bool :=
  if task ∈ s.overflow then (s, false)
  else ({ s with overflow := task :: s.overflow, len := s.len + 1 }, true)

/-- The task that a dense tag stands for. -/
def taskOf (idx existing : Nat) : TaskId :=
  ⟨⟨UInt32.ofNat idx, UInt32.ofNat (existing - 1)⟩⟩

/-- The part of `insert` after the dense vector has grown. -/
def insertGrown (s : ScheduledSet) (task : TaskId) : ScheduledSet × Bool :=
  match s.dense[slot task]? with
  | none => s.insertOverflow task
  | some existing =>
    if existing = 0 then
      ({ s with dense := s.dense.set (slot task) (tag task), len := s.len + 1 }, true)
    else if existing = tag task then (s, false)
    else if existing = denseCollision then s.insertOverflow task
    else
      -- two generations of one slot: both go to the overflow set
      { s with
        dense := s.dense.set (slot task) denseCollision
        overflow := taskOf (slot task) existing :: s.overflow }.insertOverflow task

def insert (s : ScheduledSet) (task : TaskId) : ScheduledSet × Bool :=
  if slot task < maxDenseLen ∧ s.dense.length ≤ slot task then
    (s.growDenseToFit (slot task)).insertGrown task
  else s.insertGrown task

/-- Returns a collision slot to dense tracking once at most one of its tasks is
left. -/
def collapseCollisionSlot (s : ScheduledSet) (idx : Nat) : ScheduledSet :=
  if s.dense[idx]? ≠ some denseCollision then s
  else
    match s.overflow.filter (fun candidate => slot candidate = idx) with
    | [] => { s with dense := s.dense.set idx 0 }
    | [task] =>
      { s with
        dense := s.dense.set idx (task.arenaIndex.generation.toNat + 1)
        overflow := s.overflow.erase task }
    | _ => s

def remove (s : ScheduledSet) (task : TaskId) : ScheduledSet × Bool :=
  match s.dense[slot task]? with
  | none =>
    if task ∈ s.overflow then
      ({ s with overflow := s.overflow.erase task, len := s.len - 1 }, true)
    else (s, false)
  | some existing =>
    if existing = 0 then (s, false)
    else if existing = tag task then
      ({ s with dense := s.dense.set (slot task) 0, len := s.len - 1 }, true)
    else if existing = denseCollision then
      if task ∈ s.overflow then
        ({ s with
            overflow := s.overflow.erase task
            len := s.len - 1 }.collapseCollisionSlot (slot task), true)
      else (s, false)
    else (s, false)

def clear (s : ScheduledSet) : ScheduledSet :=
  { dense := s.dense.map fun _ => 0, overflow := [], len := 0 }

/-- The calls that change the set. -/
inductive SetOp where
  | insert (task : TaskId)
  | remove (task : TaskId)
  | clear

/-- A call and its answer; `clear` has none. -/
def call (s : ScheduledSet) : SetOp → ScheduledSet × Option Bool
  | .insert task => ((s.insert task).1, some (s.insert task).2)
  | .remove task => ((s.remove task).1, some (s.remove task).2)
  | .clear => (s.clear, none)

/-- The set after some calls. -/
def after (capacity : Nat) (ops : List SetOp) : ScheduledSet :=
  ops.foldl (fun s op => (s.call op).1) (withCapacity capacity)

/-- The same call on a finite set. -/
def SetOp.apply (t : Finset TaskId) : SetOp → Finset TaskId × Option Bool
  | .insert task => (Insert.insert task t, some (decide (task ∉ t)))
  | .remove task => (t.erase task, some (decide (task ∈ t)))
  | .clear => (∅, none)

/-- The finite set after some calls. -/
def members (ops : List SetOp) : Finset TaskId := ops.foldl (fun t op => (op.apply t).1) ∅

/-- The tasks with a tag of their own in the dense vector. -/
def denseTasks (s : ScheduledSet) : List TaskId :=
  (List.range s.dense.length).map fun idx => taskOf idx (s.dense[idx]?.getD 0)

/-- The set that is represented. -/
def elems (s : ScheduledSet) : Finset TaskId :=
  ((s.overflow ++ s.denseTasks).filter s.contains).toFinset

theorem tag_eq (task : TaskId) : tag task = task.arenaIndex.generation.toNat + 1 := by
  have hlt := task.arenaIndex.generation.toNat_lt
  unfold tag u64Max
  rw [if_neg]
  omega

theorem tag_pos (task : TaskId) : tag task ≠ 0 := by
  rw [tag_eq]
  omega

theorem tag_ne_collision (task : TaskId) : tag task ≠ denseCollision := by
  have hlt := task.arenaIndex.generation.toNat_lt
  rw [tag_eq]
  unfold denseCollision u64Max
  omega

theorem taskOf_slot_tag (task : TaskId) : taskOf (slot task) (tag task) = task := by
  rw [tag_eq]
  simp [taskOf, slot]

theorem eq_of_slot_tag {a b : TaskId} (hslot : slot a = slot b) (htag : tag a = tag b) : a = b := by
  rw [← taskOf_slot_tag a, ← taskOf_slot_tag b, hslot, htag]

/-- Membership in the represented set is what `contains` answers. -/
theorem mem_elems (s : ScheduledSet) (task : TaskId) : task ∈ s.elems ↔ s.contains task = true := by
  rw [elems, mem_toFinset, mem_filter]
  constructor
  · exact fun h => h.2
  intro h
  refine ⟨?_, h⟩
  rw [mem_append]
  unfold contains at h
  cases hslot : s.dense[slot task]? with
  | none =>
    rw [hslot] at h
    exact .inl (by simpa using h)
  | some existing =>
    rw [hslot] at h
    by_cases htag : existing = tag task
    · refine .inr ?_
      rw [denseTasks, List.mem_map]
      refine ⟨slot task, ?_, ?_⟩
      · rw [mem_range]
        exact (List.getElem?_eq_some_iff.mp hslot).1
      · rw [hslot, Option.getD_some, htag, taskOf_slot_tag]
    · by_cases hcol : existing = denseCollision
      · simp only [hcol, if_true] at h
        have hne : denseCollision ≠ tag task := (tag_ne_collision task).symm
        rw [if_neg hne] at h
        exact .inl (by simpa using h)
      · simp [htag, hcol] at h

section Refinement

/-- The representation invariant, the length apart. -/
structure Shape (s : ScheduledSet) : Prop where
  denseLen : s.dense.length ≤ maxDenseLen
  tags : ∀ i e, s.dense[i]? = some e →
    e = 0 ∨ e = denseCollision ∨ ∃ task, slot task = i ∧ tag task = e
  overflowSlot : ∀ task ∈ s.overflow,
    maxDenseLen ≤ slot task ∨ s.dense[slot task]? = some denseCollision
  overflowNodup : s.overflow.Nodup

/-- The representation invariant. -/
structure Valid (s : ScheduledSet) : Prop extends Shape s where
  len : s.len = s.elems.card

variable {s : ScheduledSet} {task : TaskId} {s' : ScheduledSet} {i e : Nat}

theorem Shape.dense_none (h : Shape s) (hslot : maxDenseLen ≤ slot task) :
    s.dense[slot task]? = none := by
  rw [getElem?_eq_none_iff]
  have := h.denseLen
  omega

/-- A task is a member if it has its own tag or is in overflow. -/
theorem Shape.mem_iff (h : Shape s) (task : TaskId) :
    task ∈ s.elems ↔ task ∈ s.overflow ∨ s.dense[slot task]? = some (tag task) := by
  rw [mem_elems]
  unfold contains
  have hne : denseCollision ≠ tag task := (tag_ne_collision task).symm
  cases hslot : s.dense[slot task]? with
  | none => simp
  | some e =>
    by_cases htag : e = tag task
    · simp [htag]
    by_cases hcol : e = denseCollision
    · simp [hcol, hne]
    · have hnot : task ∉ s.overflow := by
        intro hmem
        rcases h.overflowSlot task hmem with hbig | hs
        · rw [h.dense_none hbig] at hslot
          cases hslot
        · rw [hslot] at hs
          exact hcol (Option.some.inj hs)
      simp [htag, hcol, hnot]

/-- A shape whose members and length are those of the set after an insertion. -/
theorem Valid.of_insert (h : Valid s) (hshape : Shape s')
    (hnew : task ∉ s.elems) (hmem : ∀ x, x ∈ s'.elems ↔ x = task ∨ x ∈ s.elems)
    (hlen : s'.len = s.len + 1) :
    Valid s' ∧ s'.elems = Insert.insert task s.elems := by
  have heq : s'.elems = Insert.insert task s.elems := by
    ext x
    rw [hmem, Finset.mem_insert]
  refine ⟨⟨hshape, ?_⟩, heq⟩
  rw [hlen, heq, Finset.card_insert_of_notMem hnew, h.len]

theorem Valid.of_remove (h : Valid s) (hshape : Shape s')
    (hold : task ∈ s.elems) (hmem : ∀ x, x ∈ s'.elems ↔ x ≠ task ∧ x ∈ s.elems)
    (hlen : s'.len = s.len - 1) :
    Valid s' ∧ s'.elems = s.elems.erase task := by
  have heq : s'.elems = s.elems.erase task := by
    ext x
    rw [hmem, Finset.mem_erase]
  refine ⟨⟨hshape, ?_⟩, heq⟩
  rw [hlen, heq, Finset.card_erase_of_mem hold, h.len]

/-- Writing one slot of the dense vector. -/
theorem getElem?_set_slot (dense : List Nat) (i j e : Nat) (hi : i < dense.length) :
    (dense.set i e)[j]? = if j = i then some e else dense[j]? := by
  split_ifs with hji
  · rw [hji, getElem?_set_self hi]
  · rw [getElem?_set_ne (Ne.symm hji)]

/-- Enough doublings reach the needed length. -/
theorem grownLen_ge (needed fuel : Nat) {newLen : Nat} (hneeded : needed ≤ maxDenseLen)
    (hpow : needed ≤ newLen * 2 ^ fuel) :
    needed ≤ grownLen needed fuel newLen := by
  induction fuel generalizing newLen with
  | zero => simpa [grownLen] using hpow
  | succ fuel ih =>
    simp only [grownLen]
    split_ifs with hlt
    · have hsmall : min (newLen * 2) usizeMax = newLen * 2 := by
        unfold maxDenseLen at hneeded
        unfold usizeMax
        omega
      rw [hsmall]
      refine ih ?_
      calc needed ≤ newLen * (2 ^ fuel * 2) := hpow
        _ = newLen * 2 * 2 ^ fuel := by rw [Nat.mul_comm (2 ^ fuel) 2, Nat.mul_assoc]
    · omega

/-- Growing the dense vector keeps the members and makes room for the slot. -/
theorem growDenseToFit_spec {idx : Nat} (h : Valid s) (hidx : idx < maxDenseLen) :
    Valid (s.growDenseToFit idx) ∧ (s.growDenseToFit idx).elems = s.elems ∧
      idx < (s.growDenseToFit idx).dense.length := by
  have hreach : idx + 1 ≤ grownLen (idx + 1) 64 (max s.dense.length 1) := by
    refine grownLen_ge _ _ hidx ?_
    have hone : 1 ≤ max s.dense.length 1 := le_max_right _ _
    calc idx + 1 ≤ maxDenseLen := hidx
      _ ≤ 1 * 2 ^ 64 := by decide
      _ ≤ max s.dense.length 1 * 2 ^ 64 := Nat.mul_le_mul_right _ hone
  unfold growDenseToFit
  generalize hnew : min (max (grownLen _ _ _) _) maxDenseLen = newLen
  have hidxNew : idx < newLen := by
    rw [← hnew, lt_min_iff]
    exact ⟨lt_of_lt_of_le hreach (le_max_left _ _), hidx⟩
  by_cases hgrow : s.dense.length < newLen
  · rw [if_pos hgrow]
    generalize hzeros : List.replicate (newLen - s.dense.length) 0 = zeros
    -- the new slots are empty
    have hkeep : ∀ (j e : Nat), s.dense[j]? = some e → (s.dense ++ zeros)[j]? = some e :=
      fun j e he =>
      (getElem?_append_left (List.getElem?_eq_some_iff.mp he).1).trans he
    have hread : ∀ (j e : Nat), (s.dense ++ zeros)[j]? = some e →
        s.dense[j]? = some e ∨ e = 0 := by
      intro j e he
      rw [getElem?_append] at he
      split at he
      · exact .inl he
      · exact .inr (eq_of_mem_replicate (hzeros ▸ mem_of_getElem? he))
    have hshape : Shape { s with dense := s.dense ++ zeros } := by
      constructor
      case denseLen =>
        simp only [← hzeros, length_append, length_replicate]
        omega
      case tags =>
        intro i e he
        rcases hread i e he with hold | hzero
        · exact h.tags i e hold
        · exact .inl hzero
      case overflowSlot => exact fun task hmem => (h.overflowSlot task hmem).imp_right (hkeep _ _)
      case overflowNodup => exact h.overflowNodup
    have helems : elems { s with dense := s.dense ++ zeros } = s.elems := by
      ext task
      rw [hshape.mem_iff, h.mem_iff]
      refine or_congr_right ⟨fun htag => ?_, hkeep _ _⟩
      exact (hread _ _ htag).resolve_right (tag_pos task)
    refine ⟨⟨hshape, ?_⟩, helems, ?_⟩
    · rw [helems]
      exact h.len
    · simp only [← hzeros, length_append, length_replicate]
      omega
  · rw [if_neg hgrow]
    exact ⟨h, rfl, hidxNew.trans_le (Nat.le_of_not_lt hgrow)⟩

/-- Inserting through the overflow set. -/
theorem insertOverflow_spec {s₀ : ScheduledSet} (h₀ : Valid s₀) (hshape : Shape s)
    (helems : s.elems = s₀.elems) (hlen : s.len = s₀.len)
    (hslot : maxDenseLen ≤ slot task ∨ s.dense[slot task]? = some denseCollision) :
    Valid (s.insertOverflow task).1 ∧
      (s.insertOverflow task).1.elems = Insert.insert task s₀.elems ∧
      (s.insertOverflow task).2 = decide (task ∉ s₀.elems) := by
  have hown : s.dense[slot task]? ≠ some (tag task) := by
    rcases hslot with hbig | hcol
    · rw [hshape.dense_none hbig]
      simp
    · rw [hcol]
      intro heq
      exact tag_ne_collision task (Option.some.inj heq).symm
  have hiff : task ∈ s₀.elems ↔ task ∈ s.overflow := by
    rw [← helems, hshape.mem_iff]
    simp [hown]
  unfold insertOverflow
  split_ifs with hmem
  · refine ⟨⟨hshape, ?_⟩, ?_, ?_⟩
    · rw [hlen, helems, h₀.len]
    · rw [helems, Finset.insert_eq_of_mem (hiff.mpr hmem)]
    · simp [hiff.mpr hmem]
  have hnew : task ∉ s₀.elems := fun hin => hmem (hiff.mp hin)
  have hshape' : Shape { s with overflow := task :: s.overflow, len := s.len + 1 } := by
    refine ⟨hshape.denseLen, hshape.tags, ?_, nodup_cons.mpr ⟨hmem, hshape.overflowNodup⟩⟩
    intro x hx
    rcases mem_cons.mp hx with rfl | hx
    · exact hslot
    · exact hshape.overflowSlot x hx
  have hvalid := h₀.of_insert hshape' hnew
    (by
      intro x
      rw [hshape'.mem_iff, ← helems, hshape.mem_iff, mem_cons, or_assoc])
    (by simp [hlen])
  exact ⟨hvalid.1, hvalid.2, by simp [hnew]⟩

theorem Shape.mem_slot (h : Shape s) (hget : s.dense[i]? = some e)
    (hslot : slot task = i) : task ∈ s.elems ↔ task ∈ s.overflow ∨ e = tag task := by
  rw [h.mem_iff, hslot, hget, Option.some.injEq]

/-- One slot of the dense vector rewritten, with the overflow set of the others kept. -/
theorem Shape.set (h : Shape s) (overflow : List TaskId) (hi : i < s.dense.length)
    (he : e = 0 ∨ e = denseCollision ∨ ∃ task, slot task = i ∧ tag task = e)
    (hhere : e = denseCollision ∨ ∀ task ∈ overflow, slot task ≠ i)
    (hothers : ∀ task, slot task ≠ i → (task ∈ overflow ↔ task ∈ s.overflow))
    (hnodup : overflow.Nodup) (len : Nat) :
    Shape { dense := s.dense.set i e, overflow := overflow, len := len } ∧
      ∀ task, task ∈ elems { dense := s.dense.set i e, overflow := overflow, len := len } ↔
        if slot task = i then task ∈ overflow ∨ e = tag task else task ∈ s.elems := by
  have hread := fun j => getElem?_set_slot s.dense i j e hi
  have hshape : Shape { dense := s.dense.set i e, overflow := overflow, len := len } := by
    refine ⟨(length_set ..).trans_le h.denseLen, fun j e' he' => ?_, fun task hmem => ?_, hnodup⟩
    · simp only [hread] at he'
      split_ifs at he' with hji
      · cases he'
        exact hji ▸ he
      · exact h.tags j e' he'
    · simp only [hread]
      split_ifs with hslot
      · exact .inr (congrArg some (hhere.resolve_right fun hnone => hnone task hmem hslot))
      · exact h.overflowSlot task ((hothers task hslot).mp hmem)
  refine ⟨hshape, fun task => ?_⟩
  rw [hshape.mem_iff]
  simp only [hread]
  split_ifs with hslot
  · rw [Option.some.injEq]
  · rw [h.mem_iff, hothers task hslot]

/-- A slot with a tag of its own has no task in overflow. -/
theorem Shape.slot_ne_of_overflow (h : Shape s) (hget : s.dense[i]? = some e)
    (hne : e ≠ denseCollision) (hmem : task ∈ s.overflow) :
    slot task ≠ i := by
  intro heq
  subst heq
  rcases h.overflowSlot task hmem with hbig | hcol
  · rw [h.dense_none hbig] at hget
    cases hget
  · rw [hcol] at hget
    exact hne (Option.some.inj hget).symm

theorem insertGrown_spec (h : Valid s)
    (hroom : slot task < s.dense.length ∨ maxDenseLen ≤ slot task) :
    Valid (s.insertGrown task).1 ∧
      (s.insertGrown task).1.elems = Insert.insert task s.elems ∧
      (s.insertGrown task).2 = decide (task ∉ s.elems) := by
  unfold insertGrown
  cases hget : s.dense[slot task]? with
  | none =>
    have hbig : maxDenseLen ≤ slot task := by
      have hout := List.getElem?_eq_none_iff.mp hget
      omega
    exact insertOverflow_spec h h.toShape rfl rfl (.inl hbig)
  | some existing =>
    have hlt := (List.getElem?_eq_some_iff.mp hget).1
    simp only
    split_ifs with hzero htag hcol
    · -- an empty slot takes the tag
      subst hzero
      have hover : ∀ x ∈ s.overflow, slot x ≠ slot task := fun x hx =>
        h.slot_ne_of_overflow hget (by decide) hx
      have hfree : ∀ x, slot x = slot task → x ∉ s.elems := by
        intro x hx
        rw [h.mem_slot hget hx]
        rintro (hmem | htag)
        · exact hover x hmem hx
        · exact tag_pos x htag.symm
      obtain ⟨hshape, hmem⟩ := h.toShape.set s.overflow hlt (.inr (.inr ⟨task, rfl, rfl⟩)) (.inr hover)
        (fun _ _ => Iff.rfl) h.overflowNodup (s.len + 1)
      have hvalid := h.of_insert hshape (hfree task rfl)
        (by
          intro x
          rw [hmem]
          split_ifs with hx
          · rw [or_iff_right fun hin => hover x hin hx, or_iff_left (hfree x hx)]
            exact ⟨fun htag => eq_of_slot_tag hx htag.symm, fun heq => heq ▸ rfl⟩
          · rw [or_iff_right fun heq => hx (congrArg slot heq)])
        rfl
      exact ⟨hvalid.1, hvalid.2, by simp [hfree task rfl]⟩
    · have hin : task ∈ s.elems := by
        rw [h.mem_iff, hget, htag]
        exact .inr rfl
      exact ⟨h, (Finset.insert_eq_of_mem hin).symm, by simp [hin]⟩
    · exact insertOverflow_spec h h.toShape rfl rfl (.inr (by rw [hget, hcol]))
    -- a second generation of the slot: the first one moves to overflow
    obtain ⟨first, hfirstSlot, hfirstTag⟩ : ∃ first, slot first = slot task ∧
        tag first = existing := by
      rcases h.tags _ _ hget with h0 | hc | hex
      · exact absurd h0 hzero
      · exact absurd hc hcol
      · exact hex
    have hfirst : taskOf (slot task) existing = first := by
      rw [← hfirstSlot, ← hfirstTag, taskOf_slot_tag]
    rw [hfirst]
    have hover : ∀ x ∈ s.overflow, slot x ≠ slot task := fun x hx =>
      h.slot_ne_of_overflow hget hcol hx
    obtain ⟨hshape, hmem⟩ := h.toShape.set (first :: s.overflow) hlt (.inr (.inl rfl))
      (.inl rfl) (fun x hx => mem_cons.trans (or_iff_right fun heq => hx (heq ▸ hfirstSlot)))
      (nodup_cons.mpr ⟨fun hin => hover first hin hfirstSlot, h.overflowNodup⟩) s.len
    refine insertOverflow_spec h hshape ?_ rfl (.inr ?_)
    · ext x
      rw [hmem]
      split_ifs with hx
      · have hnot : x ∉ s.overflow := fun hin => hover x hin hx
        rw [h.mem_slot hget hx, mem_cons, or_iff_left hnot, or_iff_right hnot,
          or_iff_left (tag_ne_collision x).symm, ← hfirstTag]
        exact ⟨fun heq => heq ▸ rfl, fun htag => eq_of_slot_tag (hx.trans hfirstSlot.symm) htag.symm⟩
      · rfl
    · simp only [getElem?_set_slot s.dense _ _ _ hlt, if_true]

/-- `insert` adds the task and answers whether it was new. -/
theorem insert_spec (task : TaskId) (h : Valid s) :
    Valid (s.insert task).1 ∧
      (s.insert task).1.elems = Insert.insert task s.elems ∧
      (s.insert task).2 = decide (task ∉ s.elems) := by
  unfold insert
  split_ifs with hgrow
  · obtain ⟨hvalid, helems, hroom⟩ := growDenseToFit_spec h hgrow.1
    rw [← helems]
    exact insertGrown_spec hvalid (.inl hroom)
  · exact insertGrown_spec h (by omega)

/-- Collapsing a slot keeps the members. -/
theorem collapseCollisionSlot_spec (idx : Nat) (h : Shape s) :
    Shape (s.collapseCollisionSlot idx) ∧
      (s.collapseCollisionSlot idx).elems = s.elems ∧
      (s.collapseCollisionSlot idx).len = s.len := by
  unfold collapseCollisionSlot
  by_cases hcol : s.dense[idx]? = some denseCollision
  swap
  · rw [if_pos hcol]
    exact ⟨h, rfl, rfl⟩
  rw [if_neg (not_not.mpr hcol)]
  have hlt := (List.getElem?_eq_some_iff.mp hcol).1
  have hfilter : ∀ x, x ∈ s.overflow.filter (fun candidate => slot candidate = idx) ↔
      x ∈ s.overflow ∧ slot x = idx := by
    intro x
    rw [mem_filter, decide_eq_true_iff]
  split
  case h_1 hnil =>
    -- no task is left in the slot
    have hover : ∀ x ∈ s.overflow, slot x ≠ idx := by
      intro x hx heq
      have hin := (hfilter x).mpr ⟨hx, heq⟩
      rw [hnil] at hin
      cases hin
    obtain ⟨hshape, hmem⟩ := h.set s.overflow hlt (.inl rfl) (.inr hover) (fun _ _ => Iff.rfl)
      h.overflowNodup s.len
    refine ⟨hshape, ?_, rfl⟩
    ext x
    rw [hmem]
    split_ifs with hx
    · rw [h.mem_slot hcol hx, or_iff_left (tag_pos x).symm, or_iff_left (tag_ne_collision x).symm]
    · rfl
  case h_2 task hone =>
    -- one task is left: it gets its tag back
    have hiff : ∀ x, x ∈ s.overflow ∧ slot x = idx ↔ x = task := by
      intro x
      rw [← hfilter, hone, mem_singleton]
    obtain ⟨htask, hslot⟩ := (hiff task).mpr rfl
    have herase := fun x => h.overflowNodup.mem_erase_iff (a := x) (b := task)
    have hgone : ∀ x ∈ s.overflow.erase task, slot x ≠ idx := fun x hx heq =>
      ((herase x).mp hx).1 ((hiff x).mp ⟨((herase x).mp hx).2, heq⟩)
    obtain ⟨hshape, hmem⟩ := h.set (s.overflow.erase task) hlt (.inr (.inr ⟨task, hslot, rfl⟩)) (.inr hgone)
      (fun x hx => (herase x).trans (and_iff_right fun heq => hx (heq ▸ hslot)))
      (h.overflowNodup.erase task) s.len
    rw [← tag_eq]
    refine ⟨hshape, ?_, rfl⟩
    ext x
    rw [hmem]
    split_ifs with hx
    · rw [h.mem_slot hcol hx, or_iff_right fun hin => hgone x hin hx,
        or_iff_left (tag_ne_collision x).symm]
      exact ⟨fun htag => eq_of_slot_tag (hx.trans hslot.symm) htag.symm ▸ htask,
        fun hin => (hiff x).mp ⟨hin, hx⟩ ▸ rfl⟩
    · rfl
  case h_3 => exact ⟨h, rfl, rfl⟩

/-- Taking a task out of the overflow set. -/
theorem eraseOverflow_spec (h : Valid s) (hmem : task ∈ s.overflow) :
    Valid { s with overflow := s.overflow.erase task, len := s.len - 1 } ∧
      elems { s with overflow := s.overflow.erase task, len := s.len - 1 } =
        s.elems.erase task := by
  have hshape : Shape { s with overflow := s.overflow.erase task, len := s.len - 1 } :=
    ⟨h.denseLen, h.tags, fun x hx => h.overflowSlot x (mem_of_mem_erase hx),
      h.overflowNodup.erase task⟩
  refine h.of_remove hshape ((h.mem_iff task).mpr (.inl hmem)) ?_ rfl
  intro x
  rw [hshape.mem_iff, h.mem_iff, h.overflowNodup.mem_erase_iff]
  have hnot : s.dense[slot task]? ≠ some (tag task) := by
    intro htag
    exact h.slot_ne_of_overflow htag (tag_ne_collision task) hmem rfl
  constructor
  · rintro (⟨hne, hin⟩ | htag)
    · exact ⟨hne, .inl hin⟩
    · exact ⟨fun heq => hnot (heq ▸ htag), .inr htag⟩
  · rintro ⟨hne, hin | htag⟩
    · exact .inl ⟨hne, hin⟩
    · exact .inr htag

/-- `remove` takes the task out and answers whether it was a member. -/
theorem remove_spec (task : TaskId) (h : Valid s) :
    Valid (s.remove task).1 ∧
      (s.remove task).1.elems = s.elems.erase task ∧
      (s.remove task).2 = decide (task ∈ s.elems) := by
  have habsent : task ∉ s.elems →
      Valid s ∧ s.elems = s.elems.erase task ∧ false = decide (task ∈ s.elems) :=
    fun hout => ⟨h, (Finset.erase_eq_of_notMem hout).symm, by simp [hout]⟩
  unfold remove
  cases hget : s.dense[slot task]? with
  | none =>
    split_ifs with hmem
    · obtain ⟨hvalid, helems⟩ := eraseOverflow_spec h hmem
      exact ⟨hvalid, helems, by simp [(h.mem_iff task).mpr (.inl hmem)]⟩
    · exact habsent (by simp [mem_elems, contains, hget, hmem])
  | some existing =>
    have hlt := (List.getElem?_eq_some_iff.mp hget).1
    simp only
    split_ifs with hzero htag hcol hmem
    · have hempty : (0 : Nat) ≠ denseCollision := by decide
      exact habsent (by simp [mem_elems, contains, hget, hzero, (tag_pos task).symm, hempty])
    · subst htag
      have hover : ∀ x ∈ s.overflow, slot x ≠ slot task := fun x hx =>
        h.slot_ne_of_overflow hget (tag_ne_collision task) hx
      have hin : task ∈ s.elems := (h.mem_iff task).mpr (.inr hget)
      obtain ⟨hshape, hmem⟩ := h.toShape.set s.overflow hlt (.inl rfl) (.inr hover) (fun _ _ => Iff.rfl)
        h.overflowNodup (s.len - 1)
      have hvalid := h.of_remove hshape hin
        (by
          intro x
          rw [hmem]
          split_ifs with hx
          · have hnot : x ∉ s.overflow := fun hin => hover x hin hx
            rw [h.mem_slot hget hx, or_iff_right hnot, or_iff_right hnot]
            refine iff_of_false (tag_pos x).symm fun ⟨hne, htag⟩ => hne ?_
            exact eq_of_slot_tag hx htag.symm
          · rw [and_iff_right fun heq => hx (congrArg slot heq)])
        rfl
      exact ⟨hvalid.1, hvalid.2, by simp [hin]⟩
    · obtain ⟨hvalid, helems⟩ := eraseOverflow_spec h hmem
      obtain ⟨hshape, hsame, hlen⟩ := collapseCollisionSlot_spec (slot task) hvalid.toShape
      refine ⟨⟨hshape, ?_⟩, hsame.trans helems, ?_⟩
      · rw [hlen, hsame]
        exact hvalid.len
      · simp [(h.mem_iff task).mpr (.inl hmem)]
    · exact habsent (by simp [mem_elems, contains, hget, htag, hmem])
    · exact habsent (by simp [mem_elems, contains, hget, htag, hcol])

/-- A set whose slots are all empty has no members. -/
theorem Valid.of_empty (hlength : s.dense.length ≤ maxDenseLen)
    (hread : ∀ (i e : Nat), s.dense[i]? = some e → e = 0) (hoverflow : s.overflow = [])
    (hlen : s.len = 0) : Valid s ∧ s.elems = ∅ := by
  have hshape : Shape s := by
    refine ⟨hlength, fun i e he => .inl (hread i e he), ?_, ?_⟩
    · rw [hoverflow]
      exact nofun
    · rw [hoverflow]
      exact nodup_nil
  have hempty : s.elems = ∅ := by
    ext x
    rw [hshape.mem_iff, hoverflow]
    simp only [Finset.notMem_empty, iff_false]
    rintro (hmem | htag)
    · cases hmem
    · exact tag_pos x (hread _ _ htag)
  exact ⟨⟨hshape, by rw [hempty]; exact hlen⟩, hempty⟩

/-- A new set is empty. -/
theorem withCapacity_spec (capacity : Nat) :
    Valid (withCapacity capacity) ∧ (withCapacity capacity).elems = ∅ := by
  refine Valid.of_empty ?_ (fun i e he => ?_) rfl rfl
  · simp only [withCapacity, length_replicate]
    exact min_le_right _ _
  · exact (mem_replicate.mp (mem_of_getElem? he)).2

/-- A call does to the members what it does to a finite set. -/
theorem call_spec (op : SetOp) (h : Valid s) :
    Valid (s.call op).1 ∧ (s.call op).1.elems = (op.apply s.elems).1 ∧
      (s.call op).2 = (op.apply s.elems).2 := by
  cases op with
  | insert task =>
    obtain ⟨hvalid, helems, hanswer⟩ := insert_spec task h
    exact ⟨hvalid, helems, congrArg some hanswer⟩
  | remove task =>
    obtain ⟨hvalid, helems, hanswer⟩ := remove_spec task h
    exact ⟨hvalid, helems, congrArg some hanswer⟩
  | clear =>
    obtain ⟨hvalid, hempty⟩ : Valid s.clear ∧ s.clear.elems = ∅ := by
      refine Valid.of_empty ((length_map _).trans_le h.denseLen) (fun i e he => ?_) rfl rfl
      obtain ⟨_, -, rfl⟩ := mem_map.mp (mem_of_getElem? he)
      rfl
    exact ⟨hvalid, hempty, rfl⟩

theorem after_spec (capacity : Nat) (ops : List SetOp) :
    Valid (after capacity ops) ∧ (after capacity ops).elems = members ops := by
  induction ops using reverseRecOn with
  | nil => exact withCapacity_spec capacity
  | append_singleton ops op ih =>
    obtain ⟨hvalid, helems, -⟩ := call_spec op ih.1
    simp only [after, members, foldl_append, foldl_cons, foldl_nil]
    exact ⟨hvalid, helems.trans (congrArg (fun t => (op.apply t).1) ih.2)⟩

/-- After any calls, whatever slots collided or collapsed, the set answers membership, its
length and the next call as a finite set does. -/
theorem refines_finset (capacity : Nat) (ops : List SetOp) (op : SetOp) :
    (∀ task, (after capacity ops).contains task = decide (task ∈ members ops)) ∧
      (after capacity ops).len = (members ops).card ∧
      ((after capacity ops).call op).2 = (op.apply (members ops)).2 := by
  obtain ⟨hvalid, helems⟩ := after_spec capacity ops
  rw [← helems]
  refine ⟨fun task => ?_, hvalid.len, (call_spec op hvalid).2.2⟩
  rw [Bool.eq_iff_iff, decide_eq_true_iff, mem_elems]

end Refinement

end ScheduledSet

end Asupersync
