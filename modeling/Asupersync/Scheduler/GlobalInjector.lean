import Asupersync.Scheduler.Priority

/-!
# The global injection queue

The queue through which tasks reach the workers from outside: a FIFO cancel lane,
a timed lane ordered by deadline and a FIFO ready lane.

**Representation.**  A FIFO queue is the list of its items, front first, with
the two counters that the source keeps beside it.  The timed lane is a heap, and
beside it stand an advisory count and a cached earliest deadline, which let a
caller skip the lock.

**Results.**  `Valid` says how counters and caches relate to the contents; every
injection and every pop keeps it, and under it a pop answers nothing only when
the lane has nothing to give (`popTimedIfDue_none`, `FaaFifoQueue.pop_none`).
-/

namespace Asupersync

open Lib List

/-- A FIFO queue with an advisory count and the number of published items. -/
structure FaaFifoQueue (α : Type) where
  items : List α
  count : Nat
  published : Nat
deriving Repr

namespace FaaFifoQueue

variable {α : Type}

def empty : FaaFifoQueue α := { items := [], count := 0, published := 0 }

def push (q : FaaFifoQueue α) (item : α) : FaaFifoQueue α :=
  { items := q.items ++ [item], count := q.count + 1, published := q.published + 1 }

def pop (q : FaaFifoQueue α) : Option α × FaaFifoQueue α :=
  if q.published = 0 then (none, q)
  else
    match q.items with
    | [] => (none, q)
    | item :: items =>
      (some item, { items := items, count := q.count - 1, published := q.published - 1 })

/-- The drained items, in FIFO order. -/
def popBatchInto (q : FaaFifoQueue α) (max : Nat) : List α × FaaFifoQueue α :=
  let reserved := min max q.published
  let drained := q.items.take reserved
  (drained,
    { items := q.items.drop reserved
      count := q.count - drained.length
      published := q.published - drained.length })

def len (q : FaaFifoQueue α) : Nat := q.count

def isEmpty (q : FaaFifoQueue α) : Bool := decide (q.count = 0)

/-- Every item is published. -/
def Valid (q : FaaFifoQueue α) : Prop := q.published = q.items.length

variable {q : FaaFifoQueue α}

theorem push_valid (h : q.Valid) (item : α) : (q.push item).Valid := by
  have h : q.published = q.items.length := h
  simp [Valid, push, h]

theorem pop_valid (h : q.Valid) : q.pop.2.Valid := by
  obtain ⟨items, count, published⟩ := q
  have h : published = items.length := h
  subst h
  unfold pop
  cases items with
  | nil => exact rfl
  | cons item items => simp [Valid]

theorem pop_none (h : q.Valid) (hnone : q.pop.1 = none) : q.items = [] := by
  obtain ⟨items, count, published⟩ := q
  have h : published = items.length := h
  subst h
  unfold pop at hnone
  cases items with
  | nil => rfl
  | cons item items => simp at hnone

/-- An unsuccessful pop changes nothing. -/
theorem pop_none_same : q.pop.1 = none → q.pop.2 = q := by
  unfold pop
  split
  · exact fun _ => rfl
  split
  · exact fun _ => rfl
  · exact nofun

theorem popBatchInto_valid (h : q.Valid) (max : Nat) : (q.popBatchInto max).2.Valid := by
  have h : q.published = q.items.length := h
  simp only [Valid, popBatchInto, h, length_take, length_drop]
  omega

end FaaFifoQueue

structure PriorityTask where
  task : TaskId
  priority : Nat
deriving DecidableEq, Repr

structure TimedTask where
  task : TaskId
  deadline : Time
  generation : UInt64
deriving DecidableEq, Repr

/-- The sign of a wrapping difference, read as a signed number. -/
def wrappingCmp (a b : UInt64) : Ordering :=
  if a = b then .eq else if (a - b).toNat < 9223372036854775808 then .gt else .lt

/-- Earlier deadline first, then the earlier generation up to wrapping. -/
def TimedTask.cmp (a b : TimedTask) : Ordering :=
  (compare b.deadline a.deadline).then
    ((wrappingCmp b.generation a.generation).then (b.task.cmp a.task))

def TimedTask.le (a b : TimedTask) : Bool := (a.cmp b).isLE

theorem TimedTask.peek_earliest {heap : List TimedTask} {top : TimedTask}
    (h : MaxHeap.peek TimedTask.le heap = some top) :
    ∀ entry ∈ heap, top.deadline ≤ entry.deadline :=
  MaxHeap.peek_key_le (fun _ _ => rfl) h

structure GlobalInjector where
  cancelQueue : FaaFifoQueue PriorityTask
  timedHeap : List TimedTask
  nextGeneration : UInt64
  readyQueue : FaaFifoQueue PriorityTask
  timedCount : Nat
  /-- `u64Max` stands for "no timed work". -/
  cachedEarliestDeadline : Time
deriving Repr

namespace GlobalInjector

def new : GlobalInjector :=
  { cancelQueue := .empty
    timedHeap := []
    nextGeneration := 0
    readyQueue := .empty
    timedCount := 0
    cachedEarliestDeadline := u64Max }

/-- The value that the cache takes for a heap. -/
def earliestOf (heap : List TimedTask) : Time :=
  match MaxHeap.peek TimedTask.le heap with
  | none => u64Max
  | some entry => entry.deadline

def injectCancel (g : GlobalInjector) (task : TaskId) (priority : Nat) : GlobalInjector :=
  { g with cancelQueue := g.cancelQueue.push ⟨task, priority⟩ }

def injectTimed (g : GlobalInjector) (task : TaskId) (deadline : Time) : GlobalInjector :=
  let heap := ⟨task, deadline, g.nextGeneration⟩ :: g.timedHeap
  { g with
    timedHeap := heap
    nextGeneration := g.nextGeneration + 1
    timedCount := g.timedCount + 1
    cachedEarliestDeadline := earliestOf heap }

/-- The direct path of `inject_ready`. -/
def injectReady (g : GlobalInjector) (task : TaskId) (priority : Nat) : GlobalInjector :=
  { g with readyQueue := g.readyQueue.push ⟨task, priority⟩ }

def popCancel (g : GlobalInjector) : Option PriorityTask × GlobalInjector :=
  match g.cancelQueue.pop with
  | (r, queue) => (r, { g with cancelQueue := queue })

def popTimedIfDue (g : GlobalInjector) (now : Time) : Option TimedTask × GlobalInjector :=
  if g.timedCount = 0 then (none, g)
  else if g.cachedEarliestDeadline ≠ u64Max ∧ now < g.cachedEarliestDeadline then (none, g)
  else
    match MaxHeap.pop TimedTask.le g.timedHeap with
    | none => (none, g)
    | some (entry, heap) =>
      if entry.deadline ≤ now then
        (some entry,
          { g with
            timedHeap := heap
            timedCount := g.timedCount - 1
            cachedEarliestDeadline := earliestOf heap })
      else (none, g)

def popReady (g : GlobalInjector) : Option PriorityTask × GlobalInjector :=
  match g.readyQueue.pop with
  | (r, queue) => (r, { g with readyQueue := queue })

def popReadyBatchInto (g : GlobalInjector) (max : Nat) : List PriorityTask × GlobalInjector :=
  match g.readyQueue.popBatchInto max with
  | (drained, queue) => (drained, { g with readyQueue := queue })

def hasReadyWork (g : GlobalInjector) : Bool := !g.readyQueue.isEmpty

def readyCount (g : GlobalInjector) : Nat := g.readyQueue.len

/-- How the counters and the cache relate to the lanes. -/
structure Valid (g : GlobalInjector) : Prop where
  cancel : g.cancelQueue.Valid
  ready : g.readyQueue.Valid
  count : g.timedHeap.length ≤ g.timedCount
  cached : g.cachedEarliestDeadline = earliestOf g.timedHeap

theorem new_valid : new.Valid := ⟨rfl, rfl, le_refl _, rfl⟩

variable {g : GlobalInjector}

section

variable (h : g.Valid)

include h

theorem popCancel_valid : g.popCancel.2.Valid :=
  ⟨FaaFifoQueue.pop_valid h.cancel, h.ready, h.count, h.cached⟩

theorem popReady_valid : g.popReady.2.Valid :=
  ⟨h.cancel, FaaFifoQueue.pop_valid h.ready, h.count, h.cached⟩

theorem popReadyBatchInto_valid (max : Nat) : (g.popReadyBatchInto max).2.Valid :=
  ⟨h.cancel, FaaFifoQueue.popBatchInto_valid h.ready max, h.count, h.cached⟩

theorem popTimedIfDue_valid (now : Time) : (g.popTimedIfDue now).2.Valid := by
  unfold popTimedIfDue
  split
  · exact h
  split
  · exact h
  match hpop : MaxHeap.pop TimedTask.le g.timedHeap with
  | none => exact h
  | some ⟨entry, heap⟩ =>
    have hlen := (MaxHeap.pop_perm TimedTask.le hpop).length_eq
    rw [length_cons] at hlen
    have hcount := h.count
    simp only
    split
    · refine ⟨h.cancel, h.ready, ?_, rfl⟩
      simp only
      omega
    · exact h

/-- A pop of the timed lane that finds nothing leaves nothing due. -/
theorem popTimedIfDue_none {now : Time} (hnone : (g.popTimedIfDue now).1 = none) :
    ∀ entry ∈ g.timedHeap, now < entry.deadline := by
  intro entry hentry
  unfold popTimedIfDue at hnone
  by_cases hcount : g.timedCount = 0
  · have hlen := h.count
    rw [hcount, Nat.le_zero, length_eq_zero_iff] at hlen
    rw [hlen] at hentry
    cases hentry
  have hpeek := MaxHeap.peek_eq_none_iff TimedTask.le g.timedHeap
  cases htop : MaxHeap.peek TimedTask.le g.timedHeap with
  | none =>
    rw [hpeek.mp htop] at hentry
    cases hentry
  | some top =>
    have hearly := TimedTask.peek_earliest htop entry hentry
    have hcached : g.cachedEarliestDeadline = top.deadline := by
      rw [h.cached, earliestOf, htop]
    have hpop : MaxHeap.pop TimedTask.le g.timedHeap = some (top, g.timedHeap.erase top) := by
      rw [MaxHeap.pop, htop]
    by_cases hskip : g.cachedEarliestDeadline ≠ u64Max ∧ now < g.cachedEarliestDeadline
    · rw [hcached] at hskip
      exact lt_of_lt_of_le hskip.2 hearly
    · rw [if_neg hskip, hpop] at hnone
      simp only at hnone
      split_ifs at hnone with hdue
      exact lt_of_lt_of_le (Nat.lt_of_not_le hdue) hearly

end

variable {g' : GlobalInjector}

/-- An unsuccessful pop of the timed lane changes nothing. -/
theorem popTimedIfDue_none_same {now : Time} (h : g.popTimedIfDue now = (none, g')) : g' = g := by
  unfold popTimedIfDue at h
  split at h
  · exact (Prod.mk.inj h).2.symm
  split at h
  · exact (Prod.mk.inj h).2.symm
  split at h
  · exact (Prod.mk.inj h).2.symm
  split at h
  · cases (Prod.mk.inj h).1
  · exact (Prod.mk.inj h).2.symm

theorem popCancel_none_same (h : g.popCancel = (none, g')) : g' = g := by
  obtain ⟨hnone, rfl⟩ := Prod.mk.inj h
  exact congrArg (fun queue => { g with cancelQueue := queue }) (FaaFifoQueue.pop_none_same hnone)

/-- A batch without tasks changes nothing. -/
theorem popReadyBatchInto_nil_same {max : Nat} (h : g.popReadyBatchInto max = ([], g')) :
    g' = g := by
  obtain ⟨hnil, rfl⟩ := Prod.mk.inj h
  have hdrop : g.readyQueue.items.drop (min max g.readyQueue.published) = g.readyQueue.items := by
    have hsplit := take_append_drop (min max g.readyQueue.published) g.readyQueue.items
    rwa [hnil, nil_append] at hsplit
  simp only [hnil, hdrop, length_nil, Nat.sub_zero]

end GlobalInjector
end Asupersync
