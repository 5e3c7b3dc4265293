import Asupersync.Lib.MaxHeap
import Asupersync.Scheduler.ScheduledSet

/-!
# The three-lane priority scheduler

The per-worker scheduler: a cancel lane, a timed lane and a ready lane, each a
binary heap, and the set of the scheduled tasks.  A task that moves to another
lane leaves its old entry behind; every pop discards the entries of tasks that
are not in the set.

**Representation.**  A heap is the list of its entries in no particular order.
The scratch vectors are only known by their capacity, which bounds the frontier
of equal entries among which a hint chooses.  Loops take the number of entries
of the lanes as fuel, which is enough because each turn takes one entry out.

**Results.**  For each pop one lemma says what it did (`Took`): it answers a
scheduled task and takes it out of the set, or answers nothing and leaves the
set alone, and it only drops entries of tasks that are not scheduled.
-/

namespace Asupersync

open Lib

/-- The derived order on task identifiers. -/
def TaskId.cmp (a b : TaskId) : Ordering :=
  (compare a.arenaIndex.index.toNat b.arenaIndex.index.toNat).then
    (compare a.arenaIndex.generation.toNat b.arenaIndex.generation.toNat)

structure SchedulerEntry where
  task : TaskId
  priority : Nat
  generation : UInt64
deriving DecidableEq, Repr

/-- Higher priority first, then the earlier generation. -/
def SchedulerEntry.cmp (a b : SchedulerEntry) : Ordering :=
  (compare a.priority b.priority).then
    ((compare a.generation.toNat b.generation.toNat).swap.then (b.task.cmp a.task))

structure TimedEntry where
  task : TaskId
  deadline : Time
  generation : UInt64
deriving DecidableEq, Repr

/-- Earlier deadline first, then the earlier generation. -/
def TimedEntry.cmp (a b : TimedEntry) : Ordering :=
  (compare b.deadline a.deadline).then
    ((compare a.generation.toNat b.generation.toNat).swap.then (b.task.cmp a.task))

/-- What the lane functions read of an entry. -/
class LaneEntry (α : Type) where
  task : α → TaskId
  /-- The priority or the deadline: a frontier is a set of entries with one key. -/
  key : α → Nat
  cmp : α → α → Ordering

instance : LaneEntry SchedulerEntry where
  task := SchedulerEntry.task
  key := SchedulerEntry.priority
  cmp := SchedulerEntry.cmp

instance : LaneEntry TimedEntry where
  task := TimedEntry.task
  key := TimedEntry.deadline
  cmp := TimedEntry.cmp

inductive DispatchLane where
  | cancel
  | timed
  | ready
deriving DecidableEq, Repr

namespace Lane

variable {α : Type} [DecidableEq α] [LaneEntry α]

/-- The comparison of the heap. -/
def le (a b : α) : Bool := (LaneEntry.cmp a b).isLE

def peek (lane : List α) : Option α := MaxHeap.peek le lane

def pop (lane : List α) : Option (α × List α) := MaxHeap.pop le lane

/-- `prune_*_head`: drops the top entries whose task is not scheduled. -/
def pruneHead (scheduled : ScheduledSet) : Nat → List α → List α
  | 0, lane => lane
  | fuel + 1, lane =>
    match pop lane with
    | none => lane
    | some (entry, rest) =>
      if scheduled.contains (LaneEntry.task entry) then lane
      else pruneHead scheduled fuel rest

def tieBreakIndex (rngHint : UInt64) (len : Nat) : Nat := rngHint.toNat % len

/-- The loop that moves the frontier of a key to the scratch vector, for as long
as the vector has room. -/
def collectFrontier (key : Nat) : Nat → List α → List α → List α × List α
  | 0, scratch, lane => (scratch, lane)
  | room + 1, scratch, lane =>
    match pop lane with
    | none => (scratch, lane)
    | some (entry, rest) =>
      if LaneEntry.key entry ≠ key then (scratch, lane)
      else collectFrontier key room (scratch ++ [entry]) rest

/-- `pop_entry_with_rng` and `pop_timed_with_rng`. -/
def popWithRng (scratchCapacity : Nat) (rngHint : UInt64) (lane : List α) :
    Option (α × List α) :=
  match pop lane with
  | none => none
  | some (first, rest) =>
    match peek rest with
    | none => some (first, rest)
    | some next =>
      if LaneEntry.key next ≠ LaneEntry.key first then some (first, rest)
      else
        let (scratch, lane) :=
          collectFrontier (LaneEntry.key first) (scratchCapacity - 1) [first] rest
        let idx := tieBreakIndex rngHint scratch.length
        some (scratch.getD idx first, scratch.eraseIdx idx ++ lane)

/-- The loop that pops entries until one of a scheduled task is claimed. -/
def claimFirst (popOne : List α → Option (α × List α)) :
    Nat → List α → ScheduledSet → Option α × List α × ScheduledSet
  | 0, lane, scheduled => (none, lane, scheduled)
  | fuel + 1, lane, scheduled =>
    match popOne lane with
    | none => (none, lane, scheduled)
    | some (entry, rest) =>
      match scheduled.remove (LaneEntry.task entry) with
      | (scheduled, true) => (some entry, rest, scheduled)
      | (scheduled, false) => claimFirst popOne fuel rest scheduled

/-- The same loop for the timed lane: before each pop the top is pruned, and the
loop ends when the deadline on top is not due. -/
def claimDue (popOne : List α → Option (α × List α)) (now : Time) :
    Nat → List α → ScheduledSet → Option α × List α × ScheduledSet
  | 0, lane, scheduled => (none, lane, scheduled)
  | fuel + 1, lane, scheduled =>
    let lane := pruneHead scheduled lane.length lane
    match peek lane with
    | none => (none, lane, scheduled)
    | some earliest =>
      if LaneEntry.key earliest ≤ now then
        match popOne lane with
        | none => (none, lane, scheduled)
        | some (entry, rest) =>
          match scheduled.remove (LaneEntry.task entry) with
          | (scheduled, true) => (some entry, rest, scheduled)
          | (scheduled, false) => claimDue popOne now fuel rest scheduled
      else (none, lane, scheduled)

end Lane

structure Scheduler where
  cancelLane : List SchedulerEntry
  timedLane : List TimedEntry
  readyLane : List SchedulerEntry
  scheduled : ScheduledSet
  nextGeneration : UInt64
  /-- The capacity of the two scratch vectors. -/
  scratchCapacity : Nat
deriving Repr

namespace Scheduler

def defaultScratchCapacity : Nat := 32

def maxScratchCapacity : Nat := 256

def withCapacity (capacity : Nat) : Scheduler :=
  let capacity := max capacity 1
  { cancelLane := []
    timedLane := []
    readyLane := []
    scheduled := ScheduledSet.withCapacity capacity
    nextGeneration := 0
    scratchCapacity := min (max capacity defaultScratchCapacity) maxScratchCapacity }

def len (s : Scheduler) : Nat := s.scheduled.len

def isEmpty (s : Scheduler) : Bool := decide (s.scheduled.len = 0)

def schedule (s : Scheduler) (task : TaskId) (priority : Nat) : Scheduler :=
  match s.scheduled.insert task with
  | (scheduled, true) =>
    { s with
      scheduled := scheduled
      nextGeneration := s.nextGeneration + 1
      readyLane := ⟨task, priority, s.nextGeneration⟩ :: s.readyLane }
  | (scheduled, false) => { s with scheduled := scheduled }

def moveToCancelLane (s : Scheduler) (task : TaskId) (priority : Nat) : Scheduler :=
  { s with
    scheduled := (s.scheduled.insert task).1
    nextGeneration := s.nextGeneration + 1
    cancelLane := ⟨task, priority, s.nextGeneration⟩ :: s.cancelLane }

def scheduleCancel (s : Scheduler) (task : TaskId) (priority : Nat) : Scheduler :=
  match s.scheduled.insert task with
  | (scheduled, true) =>
    { s with
      scheduled := scheduled
      nextGeneration := s.nextGeneration + 1
      cancelLane := ⟨task, priority, s.nextGeneration⟩ :: s.cancelLane }
  | (scheduled, false) => { s with scheduled := scheduled }.moveToCancelLane task priority

def scheduleTimed (s : Scheduler) (task : TaskId) (deadline : Time) : Scheduler :=
  match s.scheduled.insert task with
  | (scheduled, true) =>
    { s with
      scheduled := scheduled
      nextGeneration := s.nextGeneration + 1
      timedLane := ⟨task, deadline, s.nextGeneration⟩ :: s.timedLane }
  | (scheduled, false) => { s with scheduled := scheduled }

def remove (s : Scheduler) (task : TaskId) : Scheduler :=
  match s.scheduled.remove task with
  | (scheduled, true) =>
    { s with
      scheduled := scheduled
      cancelLane := s.cancelLane.filter (fun e => e.task ≠ task)
      timedLane := s.timedLane.filter (fun e => e.task ≠ task)
      readyLane := s.readyLane.filter (fun e => e.task ≠ task) }
  | (scheduled, false) => { s with scheduled := scheduled }

def pruneCancelHead (s : Scheduler) : Scheduler :=
  { s with cancelLane := Lane.pruneHead s.scheduled s.cancelLane.length s.cancelLane }

def pruneTimedHead (s : Scheduler) : Scheduler :=
  { s with timedLane := Lane.pruneHead s.scheduled s.timedLane.length s.timedLane }

def pruneReadyHead (s : Scheduler) : Scheduler :=
  { s with readyLane := Lane.pruneHead s.scheduled s.readyLane.length s.readyLane }

def nextValidCancelEntry (s : Scheduler) : Option SchedulerEntry × Scheduler :=
  (Lane.peek s.pruneCancelHead.cancelLane, s.pruneCancelHead)

def nextValidTimedEntry (s : Scheduler) : Option TimedEntry × Scheduler :=
  (Lane.peek s.pruneTimedHead.timedLane, s.pruneTimedHead)

def nextValidReadyEntry (s : Scheduler) : Option SchedulerEntry × Scheduler :=
  (Lane.peek s.pruneReadyHead.readyLane, s.pruneReadyHead)

def hasRunnableWork (s : Scheduler) (now : Time) : Bool × Scheduler :=
  match s.nextValidCancelEntry with
  | (some _, s) => (true, s)
  | (none, s) =>
    match s.nextValidReadyEntry with
    | (some _, s) => (true, s)
    | (none, s) =>
      match s.nextValidTimedEntry with
      | (some entry, s) => (decide (entry.deadline ≤ now), s)
      | (none, s) => (false, s)

def nextDeadline (s : Scheduler) : Option Time × Scheduler :=
  (s.nextValidTimedEntry.1.map TimedEntry.deadline, s.nextValidTimedEntry.2)

def hasCancelWork (s : Scheduler) : Bool × Scheduler :=
  (s.nextValidCancelEntry.1.isSome, s.nextValidCancelEntry.2)

def hasTimedWork (s : Scheduler) : Bool × Scheduler :=
  (s.nextValidTimedEntry.1.isSome, s.nextValidTimedEntry.2)

def hasReadyWork (s : Scheduler) : Bool × Scheduler :=
  (s.nextValidReadyEntry.1.isSome, s.nextValidReadyEntry.2)

/-- A claiming loop over the cancel lane. -/
def claimCancel (s : Scheduler)
    (popOne : List SchedulerEntry → Option (SchedulerEntry × List SchedulerEntry)) :
    Option TaskId × Scheduler :=
  match Lane.claimFirst popOne s.cancelLane.length s.cancelLane s.scheduled with
  | (entry, lane, scheduled) =>
    (entry.map SchedulerEntry.task, { s with cancelLane := lane, scheduled := scheduled })

/-- A claiming loop over the timed lane that ignores the deadlines. -/
def claimTimed (s : Scheduler)
    (popOne : List TimedEntry → Option (TimedEntry × List TimedEntry)) :
    Option TaskId × Scheduler :=
  match Lane.claimFirst popOne s.timedLane.length s.timedLane s.scheduled with
  | (entry, lane, scheduled) =>
    (entry.map TimedEntry.task, { s with timedLane := lane, scheduled := scheduled })

/-- A claiming loop over the due entries of the timed lane. -/
def claimTimedDue (s : Scheduler)
    (popOne : List TimedEntry → Option (TimedEntry × List TimedEntry)) (now : Time) :
    Option TaskId × Scheduler :=
  match Lane.claimDue popOne now (s.timedLane.length + 1) s.timedLane s.scheduled with
  | (entry, lane, scheduled) =>
    (entry.map TimedEntry.task, { s with timedLane := lane, scheduled := scheduled })

/-- A claiming loop over the ready lane. -/
def claimReady (s : Scheduler)
    (popOne : List SchedulerEntry → Option (SchedulerEntry × List SchedulerEntry)) :
    Option TaskId × Scheduler :=
  match Lane.claimFirst popOne s.readyLane.length s.readyLane s.scheduled with
  | (entry, lane, scheduled) =>
    (entry.map SchedulerEntry.task, { s with readyLane := lane, scheduled := scheduled })

def popCancelOnly (s : Scheduler) : Option TaskId × Scheduler :=
  s.claimCancel Lane.pop

def popCancelOnlyWithHint (s : Scheduler) (rngHint : UInt64) : Option TaskId × Scheduler :=
  s.claimCancel (Lane.popWithRng s.scratchCapacity rngHint)

def popCancelWithRng (s : Scheduler) (rngHint : UInt64) :
    Option (TaskId × DispatchLane) × Scheduler :=
  match s.claimCancel (Lane.popWithRng s.scratchCapacity rngHint) with
  | (task, s) => (task.map (·, .cancel), s)

def popTimedOnly (s : Scheduler) (now : Time) : Option TaskId × Scheduler :=
  s.claimTimedDue Lane.pop now

def popTimedOnlyWithHint (s : Scheduler) (rngHint : UInt64) (now : Time) :
    Option TaskId × Scheduler :=
  s.claimTimedDue (Lane.popWithRng s.scratchCapacity rngHint) now

def popReadyOnly (s : Scheduler) : Option TaskId × Scheduler :=
  s.claimReady Lane.pop

def popReadyOnlyWithHint (s : Scheduler) (rngHint : UInt64) : Option TaskId × Scheduler :=
  s.claimReady (Lane.popWithRng s.scratchCapacity rngHint)

/-- Runs the second pop if the first one finds nothing. -/
def orPop {β : Type} (first : Option β × Scheduler)
    (second : Scheduler → Option β × Scheduler) : Option β × Scheduler :=
  match first with
  | (some task, s) => (some task, s)
  | (none, s) => second s

def pop (s : Scheduler) : Option TaskId × Scheduler :=
  orPop (s.claimCancel Lane.pop) fun s =>
    orPop (s.claimTimed Lane.pop) fun s => s.claimReady Lane.pop

/-- Tags the answer of a pop with a lane. -/
def tagged {β : Type} (tag : β) (r : Option TaskId × Scheduler) :
    Option (β × TaskId) × Scheduler :=
  (r.1.map (tag, ·), r.2)

def popAnyLaneWithHint (s : Scheduler) (rngHint : UInt64) (now : Time) :
    Option (Nat × TaskId) × Scheduler :=
  orPop (tagged 0 (s.claimCancel (Lane.popWithRng s.scratchCapacity rngHint))) fun s =>
    orPop (tagged 1 (s.claimTimedDue (Lane.popWithRng s.scratchCapacity rngHint) now)) fun s =>
      tagged 2 (s.claimReady (Lane.popWithRng s.scratchCapacity rngHint))

/-- The deadline test of the loop: without a time it always passes, with a time
the top of the timed lane is pruned and its deadline compared. -/
def timedDue (s : Scheduler) : Option Time → Bool × Scheduler
  | none => (true, s)
  | some now =>
    match s.nextValidTimedEntry with
    | (some entry, s) => (decide (entry.deadline ≤ now), s)
    | (none, s) => (false, s)

/-- The loop shared by the pops over several lanes.  Each turn pops one entry of
the first lane that has one, and goes round again when its task is not
scheduled. -/
def popLoop (withCancel : Bool) (now : Option Time) (rngHint : UInt64) :
    Nat → Scheduler → Option (TaskId × DispatchLane) × Scheduler
  | 0, s => (none, s)
  | fuel + 1, s =>
    match (if withCancel then Lane.popWithRng s.scratchCapacity rngHint s.cancelLane
      else none) with
    | some (entry, rest) =>
      match s.scheduled.remove entry.task with
      | (scheduled, true) =>
        (some (entry.task, .cancel), { s with cancelLane := rest, scheduled := scheduled })
      | (scheduled, false) =>
        popLoop withCancel now rngHint fuel
          { s with cancelLane := rest, scheduled := scheduled }
    | none =>
      match s.timedDue now with
      | (due, s) =>
        match (if due then Lane.popWithRng s.scratchCapacity rngHint s.timedLane
          else none) with
        | some (entry, rest) =>
          match s.scheduled.remove entry.task with
          | (scheduled, true) =>
            (some (entry.task, .timed),
              { s with timedLane := rest, scheduled := scheduled })
          | (scheduled, false) =>
            popLoop withCancel now rngHint fuel
              { s with timedLane := rest, scheduled := scheduled }
        | none =>
          match Lane.popWithRng s.scratchCapacity rngHint s.readyLane with
          | some (entry, rest) =>
            match s.scheduled.remove entry.task with
            | (scheduled, true) =>
              (some (entry.task, .ready),
                { s with readyLane := rest, scheduled := scheduled })
            | (scheduled, false) =>
              popLoop withCancel now rngHint fuel
                { s with readyLane := rest, scheduled := scheduled }
          | none => (none, s)

/-- The number of entries in the lanes. -/
def size (s : Scheduler) : Nat :=
  s.cancelLane.length + s.timedLane.length + s.readyLane.length

def popWithLane (s : Scheduler) (rngHint : UInt64) :
    Option (TaskId × DispatchLane) × Scheduler :=
  popLoop true none rngHint (s.size + 1) s

def popWithRngHint (s : Scheduler) (rngHint : UInt64) : Option TaskId × Scheduler :=
  match s.popWithLane rngHint with
  | (r, s) => (r.map Prod.fst, s)

def popWithLaneIfDue (s : Scheduler) (rngHint : UInt64) (now : Time) :
    Option (TaskId × DispatchLane) × Scheduler :=
  popLoop true (some now) rngHint (s.size + 1) s

def popNonCancelWithRng (s : Scheduler) (rngHint : UInt64) :
    Option (TaskId × DispatchLane) × Scheduler :=
  popLoop false none rngHint (s.size + 1) s

def popNonCancelWithRngIfDue (s : Scheduler) (rngHint : UInt64) (now : Time) :
    Option (TaskId × DispatchLane) × Scheduler :=
  popLoop false (some now) rngHint (s.size + 1) s

/-- The loop of `steal_ready_batch_into`. -/
def stealLoop (stealCount : Nat) :
    Nat → List (TaskId × Nat) → Scheduler → List (TaskId × Nat) × Scheduler
  | 0, out, s => (out, s)
  | fuel + 1, out, s =>
    if out.length < stealCount then
      match Lane.pop s.readyLane with
      | none => (out, s)
      | some (entry, rest) =>
        match s.scheduled.remove entry.task with
        | (scheduled, true) =>
          stealLoop stealCount fuel (out ++ [(entry.task, entry.priority)])
            { s with readyLane := rest, scheduled := scheduled }
        | (scheduled, false) =>
          stealLoop stealCount fuel out
            { s with readyLane := rest, scheduled := scheduled }
    else (out, s)

def stealReadyBatch (s : Scheduler) (maxSteal : Nat) : List (TaskId × Nat) × Scheduler :=
  if maxSteal = 0 ∨ s.readyLane = [] then ([], s)
  else
    stealLoop (max (min (s.readyLane.length / 2) maxSteal) 1) s.readyLane.length [] s

end Scheduler
end Asupersync
