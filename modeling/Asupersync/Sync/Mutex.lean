import Asupersync.Sync.WaiterChain

/-!
# The asynchronous mutex

A flag, a queue of waiters and the identity of the waiter whose turn it is, all
behind one lock; poisoning is a separate atomic flag.  Unlocking takes the front
of the queue out and names it as the granted waiter, and the mutex stays free
until that waiter takes it or gives up.

`MutexSystem` is a mutex with its futures and guards.  A step is one section under
the lock, together with the wake that follows it.  A poll that finds the mutex
poisoned, or whose deadline timer fires after it has registered, releases the lock
before it leaves the queue: it stays in `cleaning` until its second section runs.
The lock-order checks of debug builds are left out.
-/

namespace Asupersync

open Lib

structure MutexState where
  locked : Bool
  waiters : WaiterChain Unit
  grantedWaiter : Option Nat

inductive LockError where
  | poisoned
  | cancelled
  | timedOut (deadline : Nat)
  | polledAfterCompletion
deriving DecidableEq, Repr

inductive TryLockError where
  | locked
  | poisoned
deriving DecidableEq, Repr

namespace MutexState

def new : MutexState where
  locked := false
  waiters := .new
  grantedWaiter := none

def tryLock (s : MutexState) (poisoned : Bool) : Except TryLockError MutexState :=
  if poisoned then .error .poisoned
  else if s.locked || s.grantedWaiter.isSome || !s.waiters.isEmpty then .error .locked
  else .ok { s with locked := true }

/-- The turn goes to the front of the queue. -/
def grantNextWaiter (s : MutexState) : MutexState × Option Waker :=
  match s.waiters.popFront with
  | some (slot, waiters) =>
    ({ s with waiters := waiters, grantedWaiter := some slot.id }, some slot.waker)
  | none => ({ s with grantedWaiter := none }, none)

def unlock (s : MutexState) : MutexState × Option Waker :=
  { s with locked := false }.grantNextWaiter

/-- A waiter gives up its place in the queue, or its turn. -/
def cleanupWaiter (s : MutexState) (id : Nat) : MutexState × Option Waker :=
  if s.grantedWaiter = some id then
    let s := { s with grantedWaiter := none }
    if s.locked then (s, none) else s.grantNextWaiter
  else
    let isHead := s.waiters.frontId = some id
    let s := match s.waiters.remove id with
      | some (_, waiters) => { s with waiters := waiters }
      | none => s
    if !s.locked && s.grantedWaiter.isNone && isHead then s.grantNextWaiter else (s, none)

end MutexState

structure LockFuture where
  waiterId : Option Nat
  completed : Bool
deriving DecidableEq, Repr

namespace LockFuture

/-- How a section of a poll ends.  After `cleaning` the future still has to leave the queue
before it returns the error. -/
inductive Answer where
  | granted
  | failed (error : LockError)
  | pending
  | cleaning (error : LockError)
deriving DecidableEq, Repr

/-- `registered` says whether the waker of this poll was put into the queue. -/
structure Polled where
  state : MutexState
  future : LockFuture
  answer : Answer
  registered : Bool
  wake : Option Waker

/-- Gives up the place of the future, if it has one. -/
def cleanup (future : LockFuture) (s : MutexState) : MutexState × Option Waker :=
  match future.waiterId with
  | some id => s.cleanupWaiter id
  | none => (s, none)

/-- The lock is taken. -/
def take (future : LockFuture) (s : MutexState) : Polled where
  state := { s with grantedWaiter := none, locked := true }
  future := { future with waiterId := none, completed := true }
  answer := .granted
  registered := false
  wake := none

/-- The waker is registered: in the place of the future, or in a new one. -/
def register (future : LockFuture) (s : MutexState) (waker : Waker) :
    Option (MutexState × LockFuture) :=
  match future.waiterId with
  | some id =>
    match s.waiters.updateWaker id waker with
    | some waiters => some ({ s with waiters := waiters }, future)
    | none => do
      let (waiters, id) ← s.waiters.pushFrontTagged waker ()
      some ({ s with waiters := waiters }, { future with waiterId := some id })
  | none => do
    let (waiters, id) ← s.waiters.pushBackTagged waker ()
    some ({ s with waiters := waiters }, { future with waiterId := some id })

/-- The section of a poll that neither cancellation nor the deadline has ended.  `slept` is
the deadline if its timer fires at the end of the poll. -/
def pollLocked (future : LockFuture) (s : MutexState) (poisoned : Bool) (waker : Waker)
    (slept : Option Nat) : Option Polled :=
  if poisoned then
    some { state := s, future := { future with completed := true }
           answer := .cleaning .poisoned, registered := false, wake := none }
  else if future.waiterId.isSome && s.grantedWaiter == future.waiterId then
    if !s.locked then some (future.take s)
    else do
      -- the lock was taken in between: back to the front of the queue
      let (waiters, id) ← s.waiters.pushFrontTagged waker ()
      some { state := { s with grantedWaiter := none, waiters := waiters }
             future := { future with waiterId := some id }
             answer := .pending, registered := true, wake := none }
  else if !s.locked && s.grantedWaiter.isNone && future.waiterId.isNone then some (future.take s)
  else do
    let (s, future) ← future.register s waker
    match slept with
    | some deadline =>
      some { state := s, future := { future with completed := true }
             answer := .cleaning (.timedOut deadline), registered := true, wake := none }
    | none =>
      some { state := s, future := future, answer := .pending, registered := true, wake := none }

/-- The first section of a poll.  `cancelled` is the answer of the checkpoint and `elapsed`
the deadline if it has passed. -/
def poll (future : LockFuture) (s : MutexState) (poisoned : Bool) (waker : Waker)
    (cancelled : Bool) (elapsed slept : Option Nat) : Option Polled :=
  if future.completed then
    some { state := s, future := future, answer := .failed .polledAfterCompletion
           registered := false, wake := none }
  else if cancelled then
    let (s, wake) := future.cleanup s
    some { state := s, future := { waiterId := none, completed := true }
           answer := .failed .cancelled, registered := false, wake := wake }
  else match elapsed with
    | some deadline =>
      let (s, wake) := future.cleanup s
      some { state := s, future := { waiterId := none, completed := true }
             answer := .failed (.timedOut deadline), registered := false, wake := wake }
    | none => future.pollLocked s poisoned waker slept

end LockFuture

/-- A lock future with what a run records about it: whether it is between the two sections
of a poll, the waker it registered last, and whether that one has been woken since. -/
structure LockCell where
  future : LockFuture
  live : Bool
  cleaning : Bool
  lastWaker : Option Waker
  woken : Bool
deriving DecidableEq, Repr

namespace LockCell

def new : LockCell where
  future := { waiterId := none, completed := false }
  live := true
  cleaning := false
  lastWaker := none
  woken := false

def wake (waker : Option Waker) (cell : LockCell) : LockCell :=
  { cell with woken := cell.woken || (waker.isSome && cell.lastWaker == waker) }

/-- The cell after a section of a poll. -/
def polled (cell : LockCell) (waker : Waker) (result : LockFuture.Polled) : LockCell where
  future := result.future
  live := cell.live
  cleaning := match result.answer with
    | .cleaning _ => true
    | _ => false
  lastWaker := if result.registered then some waker else cell.lastWaker
  woken := !result.registered && cell.woken

end LockCell

/-- A mutex with its futures and guards.  `arrivals` lists the futures in the order in which
they first queued. -/
structure MutexSystem where
  state : MutexState
  poisoned : Bool
  guards : Nat
  futures : Nat → Option LockCell
  arrivals : List Nat

inductive MutexOp where
  | lock (future : Nat)
  | poll (future : Nat) (waker : Waker) (cancelled : Bool) (elapsed slept : Option Nat)
  | cleanup (future : Nat)
  | dropFuture (future : Nat)
  | tryLock
  | poison
  | unlock
deriving DecidableEq, Repr

namespace MutexSystem

def new : MutexSystem where
  state := .new
  poisoned := false
  guards := 0
  futures := fun _ => none
  arrivals := []

/-- The handle a future waits with. -/
def ticket (s : MutexSystem) (f : Nat) : Option Nat := (s.futures f).bind (·.future.waiterId)

/-- The waiting futures, in the order of their arrival. -/
def line (s : MutexSystem) : List Nat := s.arrivals.filter fun f => (s.ticket f).isSome

/-- One future has changed, and a waker is woken. -/
def update (s : MutexSystem) (f : Nat) (cell : LockCell) (waker : Option Waker) : MutexSystem :=
  { s with futures := fun g => (Function.update s.futures f (some cell) g).map (LockCell.wake waker) }

def pollFuture (s : MutexSystem) (f : Nat) (cell : LockCell) (waker : Waker)
    (result : LockFuture.Polled) : MutexSystem :=
  { s.update f (cell.polled waker result) result.wake with
    state := result.state
    guards := if result.answer = .granted then s.guards + 1 else s.guards
    arrivals :=
      if cell.future.waiterId.isNone && result.future.waiterId.isSome then s.arrivals ++ [f]
      else s.arrivals }

/-- The future leaves the queue for good. -/
def leave (s : MutexSystem) (f : Nat) (cell : LockCell) (live : Bool) : MutexSystem :=
  let (state, waker) := cell.future.cleanup s.state
  { s.update f { cell with
      future := { cell.future with waiterId := none }, live := live, cleaning := false } waker with
    state := state }

/-- One section; `none` if it is not possible in this state. -/
def exec (s : MutexSystem) : MutexOp → Option MutexSystem
  | .lock f =>
    match s.futures f with
    | some _ => none
    | none => some (s.update f .new none)
  | .poll f waker cancelled elapsed slept => do
    let cell ← s.futures f
    if cell.live && !cell.cleaning then
      let result ← cell.future.poll s.state s.poisoned waker cancelled elapsed slept
      some (s.pollFuture f cell waker result)
    else none
  | .cleanup f => do
    let cell ← s.futures f
    if cell.live && cell.cleaning then some (s.leave f cell true) else none
  | .dropFuture f => do
    let cell ← s.futures f
    if cell.live && !cell.cleaning then some (s.leave f cell false) else none
  | .tryLock =>
    match s.state.tryLock s.poisoned with
    | .ok state => some { s with state := state, guards := s.guards + 1 }
    | .error _ => some s
  | .poison => if 0 < s.guards then some { s with poisoned := true } else none
  | .unlock =>
    if 0 < s.guards then
      let (state, waker) := s.state.unlock
      some { s with
        state := state
        guards := s.guards - 1
        futures := fun g => (s.futures g).map (LockCell.wake waker) }
    else none

end MutexSystem

/-- All interleavings of the sections of one mutex. -/
def mutexSystem : TransitionSystem MutexSystem MutexOp where
  init s := s = .new
  step s op s' := s.exec op = some s'

end Asupersync
