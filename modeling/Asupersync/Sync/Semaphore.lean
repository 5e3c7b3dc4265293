import Asupersync.Lib.LinkedSlab
import Asupersync.Types.Basic
import Mathlib.Algebra.GroupWithZero.Nat

/-!
# The counting semaphore

Permits and a queue of waiters, both behind one lock.  The queue is a doubly
linked list in a slab; a waiting future keeps a handle to its slot.  Permits go
to the front of the queue, or to a caller who finds the queue empty.

`SemaphoreSystem` is a semaphore with everything that refers to it: the acquire
futures, the permits (guards) that are held, and the operations on them.  Every
operation takes the lock once, so one step is one operation, together with the
wake it does after releasing the lock.  The lock-order checks of debug builds and
the advisory shadow of the permit count are left out.
-/

namespace Asupersync

open Lib

structure Waiter where
  id : Nat
  count : Nat
  waker : Waker
deriving DecidableEq, Repr

structure WaiterHandle where
  slot : Nat
  id : Nat
deriving DecidableEq, Repr

structure SemaphoreState where
  permits : Nat
  closed : Bool
  /-- The slab of waiters with the ends of the queue. -/
  waiters : LinkedSlab Waiter
  nextWaiterId : Nat

inductive AcquireError where
  | closed
  | cancelled
  | polledAfterCompletion
deriving DecidableEq, Repr

inductive TryAcquireError where
  | noPermits
deriving DecidableEq, Repr

namespace SemaphoreState

def new (permits : Nat) : SemaphoreState where
  permits := permits
  closed := false
  waiters := .empty
  nextWaiterId := 0

def waiterWakerIfRunnable (s : SemaphoreState) (slot : Nat) : Option Waker := do
  let waiter ← s.waiters.get slot
  if waiter.count ≤ s.permits then some waiter.waker else none

def frontWaiterWakerIfRunnable (s : SemaphoreState) : Option Waker := do
  let slot ← s.waiters.head
  s.waiterWakerIfRunnable slot

def waiterByHandle (s : SemaphoreState) (handle : WaiterHandle) : Option Waiter := do
  let waiter ← s.waiters.get handle.slot
  if waiter.id = handle.id then some waiter else none

def isFrontWaiter (s : SemaphoreState) (handle : WaiterHandle) : Bool :=
  s.waiters.head == some handle.slot && (s.waiterByHandle handle).isSome

def enqueueWaiter (s : SemaphoreState) (count : Nat) (waker : Waker) :
    SemaphoreState × WaiterHandle :=
  let id := s.nextWaiterId
  let (waiters, slot) := s.waiters.pushBack { id := id, count := count, waker := waker }
  ({ s with waiters := waiters, nextWaiterId := (id + 1) % 2 ^ 64 }, { slot := slot, id := id })

/-- Ties the neighbours of the waiter to each other, then frees its slot. -/
def unlinkWaiter (s : SemaphoreState) (handle : WaiterHandle) : SemaphoreState :=
  match s.waiterByHandle handle, s.waiters.slots.get handle.slot with
  | some _, some link =>
    let waiters := s.waiters.relink link.prev link.next
    { s with waiters := { waiters with slots := waiters.slots.remove handle.slot } }
  | _, _ => s

def popFrontWaiter (s : SemaphoreState) : SemaphoreState :=
  match s.waiters.head with
  | none => s
  | some slot =>
    match s.waiters.get slot with
    | none => s
    | some waiter => s.unlinkWaiter { slot := slot, id := waiter.id }

/-- The slot behind the one of the handle. -/
def nextSlot (s : SemaphoreState) (handle : WaiterHandle) : Option Nat :=
  (s.waiters.slots.get handle.slot).bind (·.next)

/-- A waiter at the front that leaves hands its turn to the next one. -/
def removeWaiterAndTakeNextWaker (s : SemaphoreState) (handle : WaiterHandle) :
    SemaphoreState × Option Waker :=
  if s.isFrontWaiter handle then
    (s.unlinkWaiter handle, (s.nextSlot handle).bind s.waiterWakerIfRunnable)
  else (s.unlinkWaiter handle, none)

/-- The state after closing, and the wakers of everybody who waited. -/
def close (s : SemaphoreState) : SemaphoreState × List Waker :=
  ({ s with closed := true, permits := 0, waiters := .empty },
    s.waiters.slots.values.map (·.value.waker))

/-- The state after taking `count` permits without waiting. -/
def tryAcquire (s : SemaphoreState) (count : Nat) : Except TryAcquireError SemaphoreState :=
  if count = 0 then .ok s
  else if s.closed then .error .noPermits
  else if s.waiters.head.isSome then .error .noPermits
  else if count ≤ s.permits then .ok { s with permits := s.permits - count }
  else .error .noPermits

/-- Saturates at the largest `usize`. -/
def addPermits (s : SemaphoreState) (count : Nat) : SemaphoreState × Option Waker :=
  if count = 0 then (s, none)
  else if s.closed then (s, none)
  else
    let s := { s with permits := min (s.permits + count) usizeMax }
    (s, s.frontWaiterWakerIfRunnable)

end SemaphoreState

structure AcquireFuture where
  count : Nat
  waiter : Option WaiterHandle
  completed : Bool
deriving DecidableEq, Repr

namespace AcquireFuture

/-- What a poll answers; a granted poll carries the number of permits of the guard. -/
inductive Answer where
  | granted (count : Nat)
  | failed (error : AcquireError)
  | pending
deriving DecidableEq, Repr

structure Polled where
  state : SemaphoreState
  future : AcquireFuture
  answer : Answer
  wake : Option Waker

/-- Leaves the queue if the future is in it. -/
def leave (future : AcquireFuture) (s : SemaphoreState) : SemaphoreState × Option Waker :=
  match future.waiter with
  | some waiter => s.removeWaiterAndTakeNextWaker waiter
  | none => (s, none)

/-- Registers the waker: in the slot of the future, or in a new one. -/
def register (future : AcquireFuture) (s : SemaphoreState) (waker : Waker) : Polled :=
  match future.waiter.filter fun waiter => (s.waiterByHandle waiter).isSome with
  | some waiter =>
    { state := { s with
        waiters := s.waiters.modifyValue waiter.slot fun w => { w with waker := waker } }
      future := future
      answer := .pending
      wake := none }
  | none =>
    let (s, handle) := s.enqueueWaiter future.count waker
    { state := s, future := { future with waiter := some handle }, answer := .pending, wake := none }

def isNextInLine (future : AcquireFuture) (s : SemaphoreState) : Bool :=
  match future.waiter with
  | some waiter => s.isFrontWaiter waiter
  | none => s.waiters.head.isNone

/-- Takes the permits, leaves the queue and wakes the new front if it can run too. -/
def take (future : AcquireFuture) (s : SemaphoreState) : Polled :=
  let s := { s with permits := s.permits - future.count }
  let s := if future.waiter.isSome then s.popFrontWaiter else s
  { state := s
    future := { future with waiter := none, completed := true }
    answer := .granted future.count
    wake := s.frontWaiterWakerIfRunnable }

/-- `cancelled` is the answer of the checkpoint of the capability context. -/
def poll (future : AcquireFuture) (s : SemaphoreState) (waker : Waker) (cancelled : Bool) : Polled :=
  if future.completed then
    { state := s, future := future, answer := .failed .polledAfterCompletion, wake := none }
  else if future.count = 0 then
    { state := s, future := { future with completed := true }, answer := .granted 0, wake := none }
  else if cancelled then
    { state := (future.leave s).1
      future := { future with waiter := none, completed := true }
      answer := .failed .cancelled
      wake := (future.leave s).2 }
  else if s.closed then
    { state := (match future.waiter with
        | some waiter => s.unlinkWaiter waiter
        | none => s)
      future := { future with waiter := none, completed := true }
      answer := .failed .closed
      wake := none }
  else if future.isNextInLine s && decide (future.count ≤ s.permits) then future.take s
  else future.register s waker

end AcquireFuture

/-- An acquire future with what a run records about it: the waker of its last pending
poll, and whether that waker has been woken since. -/
structure AcquireCell where
  future : AcquireFuture
  live : Bool
  lastWaker : Option Waker
  woken : Bool
deriving DecidableEq, Repr

/-- A semaphore with its futures and guards.  `added` and `forgotten` count permits, and
`arrivals` lists the futures in the order in which they first queued. -/
structure SemaphoreSystem where
  state : SemaphoreState
  futures : List AcquireCell
  guards : List Nat
  added : Nat
  forgotten : Nat
  arrivals : List Nat

inductive SemaphoreOp where
  | acquire (count : Nat)
  | poll (future : Nat) (waker : Waker) (cancelled : Bool)
  | dropFuture (future : Nat)
  | tryAcquire (count : Nat)
  | dropGuard (guard : Nat)
  | forgetGuard (guard : Nat)
  | addPermits (count : Nat)
  | close
deriving DecidableEq, Repr

namespace AcquireCell

def wake (waker : Waker) (cell : AcquireCell) : AcquireCell :=
  if cell.lastWaker = some waker then { cell with woken := true } else cell

/-- The cell after a poll with this waker. -/
def polled (cell : AcquireCell) (waker : Waker) (result : AcquireFuture.Polled) : AcquireCell :=
  if result.answer = .pending then
    { cell with future := result.future, lastWaker := some waker, woken := false }
  else { cell with future := result.future }

end AcquireCell

/-- The futures after some wakers have been woken. -/
def wakeFutures (wakers : List Waker) (futures : List AcquireCell) : List AcquireCell :=
  wakers.foldl (fun futures waker => futures.map (AcquireCell.wake waker)) futures

namespace SemaphoreSystem

def new (permits : Nat) : SemaphoreSystem where
  state := .new permits
  futures := []
  guards := []
  added := 0
  forgotten := 0
  arrivals := []

def pollFuture (s : SemaphoreSystem) (f : Nat) (cell : AcquireCell) (waker : Waker)
    (cancelled : Bool) : SemaphoreSystem :=
  let result := cell.future.poll s.state waker cancelled
  { s with
    state := result.state
    futures := wakeFutures result.wake.toList (s.futures.set f (cell.polled waker result))
    guards := match result.answer with
      | .granted count => s.guards ++ [count]
      | _ => s.guards
    arrivals :=
      if cell.future.waiter.isNone && result.future.waiter.isSome then s.arrivals ++ [f]
      else s.arrivals }

def dropFuture (s : SemaphoreSystem) (f : Nat) (cell : AcquireCell) : SemaphoreSystem :=
  let (state, waker) := cell.future.leave s.state
  { s with
    state := state
    futures := wakeFutures waker.toList
      (s.futures.set f { cell with future := { cell.future with waiter := none }, live := false }) }

/-- Permits come back or are added. -/
def release (s : SemaphoreSystem) (count : Nat) : SemaphoreSystem :=
  let (state, waker) := s.state.addPermits count
  { s with state := state, futures := wakeFutures waker.toList s.futures }

def close (s : SemaphoreSystem) : SemaphoreSystem :=
  let (state, wakers) := s.state.close
  { s with state := state, futures := wakeFutures wakers s.futures }

/-- One operation; `none` if it is not possible in this state: a future or guard that is
gone, or an addition that would overflow. -/
def exec (s : SemaphoreSystem) : SemaphoreOp → Option SemaphoreSystem
  | .acquire count =>
    some { s with futures := s.futures ++
      [{ future := { count := count, waiter := none, completed := false }
         live := true, lastWaker := none, woken := false }] }
  | .poll f waker cancelled => do
    let cell ← s.futures[f]?
    if cell.live then some (s.pollFuture f cell waker cancelled) else none
  | .dropFuture f => do
    let cell ← s.futures[f]?
    if cell.live then some (s.dropFuture f cell) else none
  | .tryAcquire count =>
    match s.state.tryAcquire count with
    | .ok state => some { s with state := state, guards := s.guards ++ [count] }
    | .error _ => some s
  | .dropGuard i => do
    let count ← s.guards[i]?
    if s.state.permits + count ≤ usizeMax then
      some ({ s with guards := s.guards.eraseIdx i }.release count)
    else none
  | .forgetGuard i => do
    let count ← s.guards[i]?
    some { s with guards := s.guards.eraseIdx i, forgotten := s.forgotten + count }
  | .addPermits count =>
    if s.state.permits + count ≤ usizeMax then
      some ({ s with added := s.added + count }.release count)
    else none
  | .close => some s.close

/-- The handle a future waits with. -/
def ticket (s : SemaphoreSystem) (f : Nat) : Option WaiterHandle :=
  s.futures[f]?.bind (·.future.waiter)

/-- The waiting futures, in the order of their arrival. -/
def line (s : SemaphoreSystem) : List Nat := s.arrivals.filter fun f => (s.ticket f).isSome

end SemaphoreSystem

/-- All interleavings of the operations on one semaphore. -/
def semaphoreSystem (permits : Nat) : TransitionSystem SemaphoreSystem SemaphoreOp where
  init s := s = .new permits
  step s op s' := s.exec op = some s'

end Asupersync
