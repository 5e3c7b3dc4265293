import Asupersync.Lib.TransitionSystem
import Asupersync.Types.Basic

/-!
# The watch channel

One value with a version, a flag that says that the sender is gone, and a list of
waiters.  The sender publishes values and wakes all waiters; a receiver compares the
version with the one it has seen last.

`System` is a channel with everything that refers to it.  A step is one section under a
lock or one access to an atomic, so the steps of the calls of the sender and of the polls
of the receivers interleave in every way.  The telemetry (the cursors of the receivers and
the count of cancellations) is left out.
-/

namespace Asupersync
namespace Watch

open Lib

/-- An entry of the waiter list.  Every receiver has one flag, so its number stands for the
flag that the entry shares. -/
structure WatchWaiter where
  waker : Waker
  queued : Nat
deriving DecidableEq, Repr

structure WatchInner (α : Type) where
  value : α × UInt64
  receiverCount : Nat
  senderDropped : Bool
  waiters : List WatchWaiter

inductive RecvError where
  | closed
  | cancelled
  | polledAfterCompletion
deriving DecidableEq, Repr

/-- What a poll of `changed` does next. -/
inductive ChangedStep where
  | version
  | dropped
  | versionOfDropped
  | flag
  | refresh
  | register
  | versionAgain
  | droppedAgain
deriving DecidableEq, Repr

/-- A future of `changed`.  It keeps the waker of its last poll. -/
inductive ChangedFuture where
  | created
  | polling (next : ChangedStep) (waker : Waker)
  | pending (waker : Waker)
  | completed (result : Except RecvError Unit)

/-- A receiver with its flag, once it has one, and the future that borrows it. -/
structure Receiver where
  seenVersion : UInt64
  waiter : Option Bool
  changed : Option ChangedFuture
  live : Bool

namespace Receiver

def new (version : UInt64) : Receiver where
  seenVersion := version
  waiter := none
  changed := none
  live := true

def goto (receiver : Receiver) (next : ChangedStep) (waker : Waker) : Receiver :=
  { receiver with changed := some (.polling next waker) }

def finish (receiver : Receiver) (result : Except RecvError Unit) : Receiver :=
  { receiver with changed := some (.completed result) }

def update (receiver : Receiver) (version : UInt64) : Receiver :=
  { receiver with seenVersion := version }

/-- Clears the flag, if there is one. -/
def clear (receiver : Receiver) : Receiver :=
  { receiver with waiter := receiver.waiter.map fun _ => false }

end Receiver

/-- What a call of the sender does next. -/
inductive SenderCall (α : Type) where
  | read (f : α → α)
  | write (value : α)
  | count
  | take
  | notify (waiters : List WatchWaiter)
  | wake (waiter : WatchWaiter) (waiters : List WatchWaiter)
  | done

/-- The waiters a call has taken and not woken yet. -/
def SenderCall.taken {α : Type} : SenderCall α → List WatchWaiter
  | .notify waiters => waiters
  | .wake waiter waiters => waiter :: waiters
  | _ => []

def SenderCall.isDone {α : Type} : SenderCall α → Bool
  | .done => true
  | _ => false

structure System (α : Type) where
  inner : WatchInner α
  calls : List (SenderCall α)
  receivers : List Receiver
  woken : List Waker

inductive Op (α : Type) where
  | send (value : α)
  | sendModify (f : α → α)
  | dropSender
  | stepSender (call : Nat)
  | subscribe
  | clone (receiver : Nat)
  | markSeen (receiver : Nat)
  | dropReceiver (receiver : Nat)
  | changed (receiver : Nat)
  | poll (receiver : Nat) (waker : Waker) (cancelled : Bool)
  | stepPoll (receiver : Nat)
  | dropChanged (receiver : Nat)

namespace System

variable {α : Type}

def channel (initial : α) : System α where
  inner := { value := (initial, 0), receiverCount := 1, senderDropped := false, waiters := [] }
  calls := []
  receivers := [.new 0]
  woken := []

def setReceiver (s : System α) (r : Nat) (receiver : Receiver) : System α :=
  { s with receivers := s.receivers.set r receiver }

/-- The owners of a flag: its receiver and the entries, also those that are taken. -/
def strongCount (s : System α) (flag : Nat) : Nat :=
  (s.inner.waiters ++ s.calls.flatMap SenderCall.taken).countP (·.queued = flag) +
    (s.receivers[flag]?.any (·.waiter.isSome)).toNat

/-- The entries that share their flag with somebody. -/
def retained (s : System α) : List WatchWaiter :=
  s.inner.waiters.filter fun entry => decide (1 < s.strongCount entry.queued)

/-- Gives the first entry with this flag the waker, and says whether there is one. -/
def refreshFirst (flag : Nat) (waker : Waker) : List WatchWaiter → Bool × List WatchWaiter
  | [] => (false, [])
  | entry :: entries =>
    if entry.queued = flag then (true, { entry with waker := waker } :: entries)
    else
      let (found, entries) := refreshFirst flag waker entries
      (found, entry :: entries)

def refreshWaker (s : System α) (flag : Nat) (waker : Waker) : Bool × List WatchWaiter :=
  refreshFirst flag waker s.retained

def registerWaker (s : System α) (waiter : WatchWaiter) : List WatchWaiter :=
  match refreshFirst waiter.queued waiter.waker s.retained with
  | (true, entries) => entries
  | (false, entries) => entries ++ [waiter]

/-- The next step of a call of the sender. -/
def stepCall (s : System α) (call : Nat) : SenderCall α → System α
  | .read f => { s with calls := s.calls.set call (.write (f s.inner.value.1)) }
  | .write value =>
    { s with
      inner := { s.inner with value := (value, s.inner.value.2 + 1) }
      calls := s.calls.set call .count }
  | .count => { s with calls := s.calls.set call (if s.inner.receiverCount ≠ 0 then .take else .done) }
  | .take =>
    { s with
      inner := { s.inner with waiters := [] }
      calls := s.calls.set call (.notify s.inner.waiters) }
  | .notify [] => { s with calls := s.calls.set call .done }
  | .notify (waiter :: waiters) =>
    { s with
      calls := s.calls.set call (.wake waiter waiters)
      receivers := s.receivers.modify waiter.queued .clear }
  | .wake waiter waiters =>
    { s with
      calls := s.calls.set call (.notify waiters)
      woken := s.woken ++ [waiter.waker] }
  | .done => s

/-- The next step of a poll of `changed`: the waiter list and the receiver after it. -/
def pollChanged (s : System α) (r : Nat) (receiver : Receiver) (waker : Waker) :
    ChangedStep → List WatchWaiter × Receiver
  | .version =>
    (s.inner.waiters,
      if s.inner.value.2 ≠ receiver.seenVersion then
        (receiver.update s.inner.value.2).finish (.ok ())
      else receiver.goto .dropped waker)
  | .dropped =>
    (s.inner.waiters,
      receiver.goto (if s.inner.senderDropped then .versionOfDropped else .flag) waker)
  | .versionOfDropped =>
    (s.inner.waiters,
      if s.inner.value.2 ≠ receiver.seenVersion then
        (receiver.update s.inner.value.2).finish (.ok ())
      else receiver.finish (.error .closed))
  | .flag =>
    (s.inner.waiters,
      { receiver with waiter := some true }.goto
        (if receiver.waiter = some true then .refresh else .register) waker)
  | .refresh =>
    let (found, waiters) := s.refreshWaker r waker
    (waiters, receiver.goto (if found then .versionAgain else .register) waker)
  | .register => (s.registerWaker { waker := waker, queued := r }, receiver.goto .versionAgain waker)
  | .versionAgain =>
    (s.inner.waiters,
      if s.inner.value.2 ≠ receiver.seenVersion then
        (receiver.update s.inner.value.2).clear.finish (.ok ())
      else receiver.goto .droppedAgain waker)
  | .droppedAgain =>
    (s.inner.waiters,
      if s.inner.senderDropped then receiver.clear.finish (.error .closed)
      else { receiver with changed := some (.pending waker) })

/-- The entries that stay when a receiver takes its own out. -/
def without (s : System α) (r : Nat) : List WatchWaiter :=
  s.retained.filter fun entry => decide (entry.queued ≠ r)

/-- One step; `none` if it is not possible in this state. -/
def exec (s : System α) : Op α → Option (System α)
  | .send value =>
    if s.inner.senderDropped then none else some { s with calls := s.calls ++ [.write value] }
  | .sendModify f =>
    if s.inner.senderDropped then none else some { s with calls := s.calls ++ [.read f] }
  | .dropSender =>
    -- no call borrows the sender any more
    if !s.inner.senderDropped && s.calls.all (·.isDone) then
      some { s with inner := { s.inner with senderDropped := true }, calls := s.calls ++ [.take] }
    else none
  | .stepSender c => do
    let call ← s.calls[c]?
    some (s.stepCall c call)
  | .subscribe =>
    if s.inner.senderDropped then none
    else
      some { s with
        inner := { s.inner with receiverCount := s.inner.receiverCount + 1 }
        receivers := s.receivers ++ [.new s.inner.value.2] }
  | .clone r => do
    let receiver ← s.receivers[r]?
    if receiver.live && receiver.changed.isNone then
      some { s with
        inner := { s.inner with receiverCount := s.inner.receiverCount + 1 }
        receivers := s.receivers ++ [.new receiver.seenVersion] }
    else none
  | .markSeen r => do
    let receiver ← s.receivers[r]?
    if receiver.live && receiver.changed.isNone then
      some (s.setReceiver r (receiver.update s.inner.value.2))
    else none
  | .dropReceiver r => do
    let receiver ← s.receivers[r]?
    if receiver.live && receiver.changed.isNone then
      some ({ s with inner := { s.inner with
        receiverCount := s.inner.receiverCount - 1
        waiters := if receiver.waiter.isSome then s.without r else s.inner.waiters } }.setReceiver r
          { receiver with waiter := none, live := false })
    else none
  | .changed r => do
    let receiver ← s.receivers[r]?
    if receiver.live && receiver.changed.isNone then
      some (s.setReceiver r { receiver with changed := some .created })
    else none
  | .poll r waker cancelled => do
    let receiver ← s.receivers[r]?
    match receiver.changed with
    | some .created | some (.pending _) =>
      some (s.setReceiver r
        (if cancelled then receiver.finish (.error .cancelled) else receiver.goto .version waker))
    | some (.completed _) => some s
    | some (.polling _ _) | none => none
  | .stepPoll r => do
    let receiver ← s.receivers[r]?
    match receiver.changed with
    | some (.polling next waker) =>
      let (waiters, receiver) := s.pollChanged r receiver waker next
      some ({ s with inner := { s.inner with waiters := waiters } }.setReceiver r receiver)
    | _ => none
  | .dropChanged r => do
    let receiver ← s.receivers[r]?
    match receiver.changed with
    | some (.polling _ _) | none => none
    | some _ =>
      let linked := receiver.waiter = some true || (receiver.waiter.isSome && 1 < s.strongCount r)
      some ({ s with inner := { s.inner with
        waiters := if linked then s.without r else s.inner.waiters } }.setReceiver r
          { (if linked then receiver.clear else receiver) with changed := none })

end System

/-- All interleavings of the steps of a channel. -/
def watchSystem {α : Type} (initial : α) : TransitionSystem (System α) (Op α) where
  init s := s = .channel initial
  step s op s' := s.exec op = some s'

end Watch
end Asupersync
