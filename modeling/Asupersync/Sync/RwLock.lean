import Asupersync.Sync.WaiterChain
import Mathlib.Data.Finset.Card

/-!
# The read-write lock

Counters of readers and waiting writers, a flag for the writer and two queues, one
of readers and one of writers, behind one lock.  A lock that becomes free is handed
to waiters directly: they are taken out of their queue and counted in before they
are polled.  Writers go first, but after sixteen of them in a row one waiting
reader gets a turn.

`RwLockSystem` is a lock with its futures and guards.  A step is one section under
the lock; a poll that finds the lock poisoned leaves its queue in a second section.
Giving up a write future reads the poison flag before it takes the lock, so the
answer may be outdated by then.  The wakes that follow a section have no effect on
this state, and the lock-order checks of debug builds are left out.
-/

namespace Asupersync

open Lib

/-- The order of arrival, and the future that queued.  The second is recorded for the runs
only: nothing reads it. -/
structure RwTag where
  arrival : Nat
  owner : Nat
deriving DecidableEq, Repr

structure RwLockState where
  readers : Nat
  writerActive : Bool
  writerWaiters : Nat
  readerWaiters : WaiterChain RwTag
  writerQueue : WaiterChain RwTag
  nextWaiterId : Nat
  consecutiveWritersServed : Nat

def maxConsecutiveWritersBeforeReaderBatch : Nat := 16

inductive RwLockError where
  | poisoned
  | cancelled
  | polledAfterCompletion
deriving DecidableEq, Repr

/-- `TryReadError` and `TryWriteError`. -/
inductive TryRwLockError where
  | locked
  | poisoned
deriving DecidableEq, Repr

/-- The wrapping comparison of arrivals: the difference is negative as a signed number. -/
def readerArrivedBeforeWriter (reader writer : Nat) : Bool :=
  decide (2 ^ 63 ≤ (reader + 2 ^ 64 - writer) % 2 ^ 64)

namespace RwLockState

def new : RwLockState where
  readers := 0
  writerActive := false
  writerWaiters := 0
  readerWaiters := .new
  writerQueue := .new
  nextWaiterId := 0
  consecutiveWritersServed := 0

def tryAcquireRead (s : RwLockState) (poisoned : Bool) : Except TryRwLockError RwLockState :=
  if poisoned then .error .poisoned
  else if s.writerActive || decide (0 < s.writerWaiters) then .error .locked
  else .ok { s with readers := s.readers + 1 }

def tryAcquireWrite (s : RwLockState) (poisoned : Bool) : Except TryRwLockError RwLockState :=
  if poisoned then .error .poisoned
  else if s.writerActive || decide (0 < s.readers) || decide (0 < s.writerWaiters) then .error .locked
  else .ok { s with writerActive := true }

def queuedWaiterWakers (s : RwLockState) : List Waker :=
  s.readerWaiters.cloneWakers ++ s.writerQueue.cloneWakers

/-- Counts the readers in that are taken out of the queue. -/
def letIn (s : RwLockState) (taken : List Waker × WaiterChain RwTag) : RwLockState :=
  { s with readers := s.readers + taken.1.length, readerWaiters := taken.2 }

def takeEligibleLoop (firstWriter : Nat) :
    (fuel : Nat) → WaiterChain RwTag → List Waker × WaiterChain RwTag
  | 0, readers => ([], readers)
  | fuel + 1, readers =>
    if readers.frontTag.any fun tag => readerArrivedBeforeWriter tag.arrival firstWriter then
      match readers.popFront with
      | some (slot, rest) =>
        let (wakers, rest) := takeEligibleLoop firstWriter fuel rest
        (slot.waker :: wakers, rest)
      | none => ([], readers)
    else ([], readers)

/-- The readers in front of the first writer. -/
def takeEligibleReaderWaiters (s : RwLockState) : List Waker × WaiterChain RwTag :=
  match s.writerQueue.frontTag with
  | none => s.readerWaiters.drain
  | some tag =>
    takeEligibleLoop tag.arrival s.readerWaiters.list.slots.entries.length s.readerWaiters

/-- The first reader alone. -/
def takeForcedReaderTurn (s : RwLockState) : List Waker × WaiterChain RwTag :=
  match s.readerWaiters.popFront with
  | some (slot, rest) => ([slot.waker], rest)
  | none => ([], s.readerWaiters)

def shouldWakeWriter (s : RwLockState) : Bool :=
  if s.writerQueue.isEmpty then false
  else if s.readerWaiters.isEmpty then true
  else match s.writerQueue.frontTag, s.readerWaiters.frontTag with
    | some writer, some reader => !readerArrivedBeforeWriter reader.arrival writer.arrival
    | _, _ => false

/-- The first writer is taken out of the queue and becomes the active one. -/
def grantWriter (s : RwLockState) : RwLockState × Option Waker :=
  match s.writerQueue.popFront with
  | none => (s, none)
  | some (slot, writers) =>
    ({ s with
        writerQueue := writers
        writerActive := true
        consecutiveWritersServed :=
          if s.readerWaiters.isEmpty then 0
          else min (s.consecutiveWritersServed + 1) usizeMax }, some slot.waker)

/-- A reader leaves; the last one lets a writer in. -/
def releaseReader (s : RwLockState) : RwLockState × Option Waker :=
  let s := { s with readers := s.readers - 1 }
  if s.readers = 0 ∧ 0 < s.writerWaiters then s.grantWriter else (s, none)

def forceReaderBatch (s : RwLockState) : Bool :=
  decide (maxConsecutiveWritersBeforeReaderBatch ≤ s.consecutiveWritersServed) &&
    !s.readerWaiters.isEmpty

/-- Who comes next after a writer: a writer, one reader, or the readers in front of the
first writer. -/
def nextTurn (s : RwLockState) : RwLockState × Option Waker × List Waker :=
  if !s.forceReaderBatch && s.shouldWakeWriter then
    let (s, waker) := s.grantWriter
    (s, waker, [])
  else if s.forceReaderBatch then
    let taken := s.takeForcedReaderTurn
    ({ s.letIn taken with consecutiveWritersServed := 0 }, none, taken.1)
  else
    let taken := s.takeEligibleReaderWaiters
    ({ s.letIn taken with
        consecutiveWritersServed := if taken.1.isEmpty then s.consecutiveWritersServed else 0 },
      none, taken.1)

def releaseWriter (s : RwLockState) (poisoned : Bool) : RwLockState × Option Waker × List Waker :=
  let s := { s with writerActive := false }
  if poisoned then (s, none, s.queuedWaiterWakers) else s.nextTurn

/-- A read future that holds a ticket gives up its place, or its turn. -/
def abandonReadWaiter (s : RwLockState) (id : Nat) : RwLockState × Option Waker :=
  match s.readerWaiters.remove id with
  | some (_, readers) => ({ s with readerWaiters := readers }, none)
  | none => s.releaseReader

/-- The readers come in when the last waiting writer is gone. -/
def admitAll (s : RwLockState) (poisoned : Bool) : RwLockState × List Waker :=
  if s.writerWaiters = 0 ∧ s.writerActive = false ∧ poisoned = false then
    let taken := s.readerWaiters.drain
    (s.letIn taken, taken.1)
  else (s, [])

/-- A write future that is counted as a waiter gives up its place, or its turn. -/
def abandonWriteWaiter (s : RwLockState) (waiterId : Option Nat) (poisoned : Bool) :
    RwLockState × Option Waker × List Waker :=
  match waiterId with
  | some id =>
    match s.writerQueue.remove id with
    | some (_, writers) =>
      let (s, wakers) :=
        { s with writerQueue := writers, writerWaiters := s.writerWaiters - 1 }.admitAll poisoned
      (s, none, wakers)
    | none =>
      let s := { s with writerWaiters := s.writerWaiters - 1, writerActive := false }
      if poisoned then (s, none, s.queuedWaiterWakers) else s.nextTurn
  | none =>
    let (s, wakers) := { s with writerWaiters := s.writerWaiters - 1 }.admitAll poisoned
    (s, none, wakers)

/-- The writer stays as a reader. -/
def downgrade (s : RwLockState) : RwLockState × List Waker :=
  let s := { s with writerActive := false, readers := 1 }
  let taken := s.takeEligibleReaderWaiters
  ({ s.letIn taken with
      consecutiveWritersServed := if taken.1.isEmpty then s.consecutiveWritersServed else 0 },
    taken.1)

end RwLockState

/-- Whether a future waits to read or to write. -/
inductive RwKind where
  | read
  | write
deriving DecidableEq, Repr

/-- `ReadFuture` and `WriteFuture`; a read future is never counted. -/
structure RwFuture where
  kind : RwKind
  waiterId : Option Nat
  counted : Bool
  completed : Bool
deriving DecidableEq, Repr

namespace RwFuture

/-- How a section of a poll ends.  After `cleaning` the future still has to give up its
place before it returns the error. -/
inductive Answer where
  | granted
  | failed (error : RwLockError)
  | pending
  | cleaning (error : RwLockError)
deriving DecidableEq, Repr

structure Polled where
  state : RwLockState
  future : RwFuture
  answer : Answer
  wake : List Waker

/-- `abandon_read_waiter` and `abandon_write_waiter` as the futures call them. -/
def abandon (future : RwFuture) (s : RwLockState) (poisoned : Bool) : RwLockState × List Waker :=
  match future.kind with
  | .read =>
    match future.waiterId with
    | none => (s, [])
    | some id =>
      let (s, waker) := s.abandonReadWaiter id
      (s, waker.toList)
  | .write =>
    if future.counted then
      let (s, writer, readers) := s.abandonWriteWaiter future.waiterId poisoned
      (s, writer.toList ++ readers)
    else (s, [])

/-- The future without its place. -/
def abandoned (future : RwFuture) : RwFuture :=
  match future.kind with
  | .read => { future with waiterId := none }
  | .write =>
    if future.counted then { future with waiterId := none, counted := false } else future

/-- The section of a read future's poll; `owner` is the future itself. -/
def pollRead (future : RwFuture) (s : RwLockState) (owner : Nat) (waker : Waker) : Option Polled :=
  match future.waiterId with
  | some id =>
    match s.readerWaiters.updateWaker id waker with
    | some readers =>
      some { state := { s with readerWaiters := readers }, future := future
             answer := .pending, wake := [] }
    | none =>
      -- taken out of the queue, and counted in by whoever did it
      some { state := s, future := { future with waiterId := none, completed := true }
             answer := .granted, wake := [] }
  | none =>
    if !s.writerActive && decide (s.writerWaiters = 0) then
      some { state := { s with readers := s.readers + 1 }
             future := { future with completed := true }, answer := .granted, wake := [] }
    else do
      let (readers, id) ←
        s.readerWaiters.pushBackTagged waker { arrival := s.nextWaiterId, owner := owner }
      some { state := { s with
               readerWaiters := readers, nextWaiterId := (s.nextWaiterId + 1) % 2 ^ 64 }
             future := { future with waiterId := some id }, answer := .pending, wake := [] }

/-- The section of a write future's poll. -/
def pollWrite (future : RwFuture) (s : RwLockState) (owner : Nat) (waker : Waker) : Option Polled :=
  match future.waiterId with
  | some id =>
    match s.writerQueue.updateWaker id waker with
    | some writers =>
      some { state := { s with writerQueue := writers }, future := future
             answer := .pending, wake := [] }
    | none =>
      some { state := if future.counted then { s with writerWaiters := s.writerWaiters - 1 } else s
             future := { future with waiterId := none, counted := false, completed := true }
             answer := .granted, wake := [] }
  | none =>
    if !s.writerActive && decide (s.readers = 0) && s.writerQueue.isEmpty then
      some { state := { s with writerActive := true }, future := { future with completed := true }
             answer := .granted, wake := [] }
    else do
      let (writers, id) ←
        s.writerQueue.pushBackTagged waker { arrival := s.nextWaiterId, owner := owner }
      some { state := { s with
               writerQueue := writers
               writerWaiters := if future.counted then s.writerWaiters else s.writerWaiters + 1
               nextWaiterId := (s.nextWaiterId + 1) % 2 ^ 64 }
             future := { future with waiterId := some id, counted := true }
             answer := .pending, wake := [] }

/-- The first section of a poll.  `outdated` is the poison flag as read before the lock was
taken; the section itself reads it again. -/
def poll (future : RwFuture) (s : RwLockState) (owner : Nat) (poisoned outdated : Bool)
    (waker : Waker) (cancelled : Bool) : Option Polled :=
  if future.completed then
    some { state := s, future := future, answer := .failed .polledAfterCompletion, wake := [] }
  else if cancelled then
    let (s, wakers) := future.abandon s outdated
    some { state := s, future := { future.abandoned with completed := true }
           answer := .failed .cancelled, wake := wakers }
  else if poisoned then
    some { state := s, future := future, answer := .cleaning .poisoned, wake := [] }
  else match future.kind with
    | .read => future.pollRead s owner waker
    | .write => future.pollWrite s owner waker

end RwFuture

/-- A future with what a run records about it: whether it still exists, and whether it is
between the two sections of a poll. -/
structure RwCell where
  future : RwFuture
  live : Bool
  cleaning : Bool
deriving DecidableEq, Repr

/-- A lock with its futures and the numbers of its guards. -/
structure RwLockSystem where
  state : RwLockState
  poisoned : Bool
  readGuards : Nat
  writeGuards : Nat
  futures : List RwCell

inductive RwLockOp where
  | create (kind : RwKind)
  | poll (future : Nat) (waker : Waker) (cancelled outdated : Bool)
  | cleanup (future : Nat) (outdated : Bool)
  | dropFuture (future : Nat) (outdated : Bool)
  | tryRead
  | tryWrite
  | dropRead
  | dropWrite
  | downgrade
  | poison
deriving DecidableEq, Repr

namespace RwLockSystem

def new : RwLockSystem where
  state := .new
  poisoned := false
  readGuards := 0
  writeGuards := 0
  futures := []

/-- A guard of this kind is made. -/
def addGuard (s : RwLockSystem) : RwKind → RwLockSystem
  | .read => { s with readGuards := s.readGuards + 1 }
  | .write => { s with writeGuards := s.writeGuards + 1 }

def pollFuture (s : RwLockSystem) (f : Nat) (cell : RwCell) (result : RwFuture.Polled) :
    RwLockSystem :=
  let s := { s with
    state := result.state
    futures := s.futures.set f { cell with
      future := result.future
      cleaning := match result.answer with
        | .cleaning _ => true
        | _ => false } }
  if result.answer = .granted then s.addGuard cell.future.kind else s

/-- The future gives up its place for good. -/
def leave (s : RwLockSystem) (f : Nat) (cell : RwCell) (live outdated : Bool) : RwLockSystem :=
  { s with
    state := (cell.future.abandon s.state outdated).1
    futures := s.futures.set f
      { future := { cell.future.abandoned with completed := true }, live := live, cleaning := false } }

/-- One section; `none` if it is not possible in this state.  The flag read before the lock
is not set unless the lock is poisoned. -/
def exec (s : RwLockSystem) : RwLockOp → Option RwLockSystem
  | .create kind =>
    some { s with futures := s.futures ++
      [{ future := { kind := kind, waiterId := none, counted := false, completed := false }
         live := true, cleaning := false }] }
  | .poll f waker cancelled outdated => do
    let cell ← s.futures[f]?
    if cell.live && !cell.cleaning && (!outdated || s.poisoned) then
      let result ← cell.future.poll s.state f s.poisoned outdated waker cancelled
      some (s.pollFuture f cell result)
    else none
  | .cleanup f outdated => do
    let cell ← s.futures[f]?
    if cell.live && cell.cleaning && (!outdated || s.poisoned) then
      some (s.leave f cell true outdated)
    else none
  | .dropFuture f outdated => do
    let cell ← s.futures[f]?
    if cell.live && !cell.cleaning && (!outdated || s.poisoned) then
      some (s.leave f cell false outdated)
    else none
  | .tryRead =>
    match s.state.tryAcquireRead s.poisoned with
    | .ok state => some ({ s with state := state }.addGuard .read)
    | .error _ => some s
  | .tryWrite =>
    match s.state.tryAcquireWrite s.poisoned with
    | .ok state => some ({ s with state := state }.addGuard .write)
    | .error _ => some s
  | .dropRead =>
    if 0 < s.readGuards then
      some { s with state := s.state.releaseReader.1, readGuards := s.readGuards - 1 }
    else none
  | .dropWrite =>
    if 0 < s.writeGuards then
      some { s with state := (s.state.releaseWriter s.poisoned).1, writeGuards := s.writeGuards - 1 }
    else none
  | .downgrade =>
    if 0 < s.writeGuards then
      some { s with
        state := s.state.downgrade.1
        writeGuards := s.writeGuards - 1
        readGuards := s.readGuards + 1 }
    else none
  | .poison => if 0 < s.writeGuards then some { s with poisoned := true } else none

/-- The futures of a kind that wait with a ticket. -/
def waiting (s : RwLockSystem) (kind : RwKind) : Finset Nat :=
  (Finset.range s.futures.length).filter fun f =>
    s.futures[f]?.any fun cell => cell.future.kind = kind && cell.future.waiterId.isSome

def queue (s : RwLockSystem) : RwKind → WaiterChain RwTag
  | .read => s.state.readerWaiters
  | .write => s.state.writerQueue

/-- The futures of a kind with an entry of their own in the queue. -/
def queued (s : RwLockSystem) (kind : RwKind) : Finset Nat :=
  (s.waiting kind).filter fun f =>
    f ∈ (s.queue kind).list.slots.values.map fun link => link.value.tag.owner

/-- The futures of a kind that were taken out of the queue and have not been polled since. -/
def granted (s : RwLockSystem) (kind : RwKind) : Finset Nat := s.waiting kind \ s.queued kind

end RwLockSystem

/-- All interleavings of the sections of one lock. -/
def rwLockSystem : TransitionSystem RwLockSystem RwLockOp where
  init s := s = .new
  step s op s' := s.exec op = some s'

end Asupersync
