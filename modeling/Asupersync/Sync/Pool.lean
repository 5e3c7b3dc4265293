import Asupersync.Types.Basic

/-!
# Waiting for a pooled resource

The acquire loop of `GenericPool`.  A call that finds neither an idle resource nor room for
a new one queues itself and waits; both the wait and the two ways to a resource compare the
place of the call in the queue with the number of resources that are available.

Instants are numbers of nanoseconds, `Nat` subtraction is `saturating_duration_since`.  The
wakers that have been woken are collected in `woken`.  What a call does with its creation
slot is not modelled.
-/

namespace Asupersync

structure PoolConfig where
  maxSize : Nat
  acquireTimeout : Nat
  idleTimeout : Nat
  maxLifetime : Nat
  healthCheckOnAcquire : Bool

inductive PoolError where
  | closed
  | timeout
  | cancelled
deriving DecidableEq

structure IdleResource (R : Type) where
  resource : R
  idleSince : Nat
  createdAt : Nat

structure PoolWaiter where
  id : Nat
  waker : Waker

structure GenericPoolState (R : Type) where
  idle : List (IdleResource R)
  active : Nat
  creating : Nat
  totalAcquisitions : Nat
  closed : Bool
  waiters : List PoolWaiter
  nextWaiterId : Nat

/-- What comes back through the return channel. -/
inductive PoolReturn (R : Type) where
  | returned (resource : R) (createdAt : Nat)
  | discard

structure GenericPool (R : Type) where
  config : PoolConfig
  state : GenericPoolState R
  returns : List (PoolReturn R)
  healthCheckFn : Option (R → Bool)
  returnWakers : List (Nat × Waker)
  closed : Bool
  woken : List Waker

namespace GenericPoolState

variable {R : Type} (s : GenericPoolState R)

def total : Nat := s.active + s.idle.length + s.creating

def available (config : PoolConfig) : Nat := s.idle.length + (config.maxSize - s.total)

/-- The waiter that the last available resource is for. -/
def nextWaker (config : PoolConfig) : Option Waker :=
  if 0 < s.available config then (s.waiters[s.available config - 1]?).map (·.waker) else none

/-- The place of a waiter: behind everybody if it is not in the queue. -/
def place (waiterId : Option Nat) : Nat :=
  match waiterId with
  | some id => s.waiters.findIdx (·.id == id)
  | none => s.waiters.length

/-- The idle resources that have expired are dropped. -/
def evict (config : PoolConfig) (now : Nat) : GenericPoolState R :=
  { s with idle := s.idle.filter fun idle =>
      decide (now - idle.idleSince < config.idleTimeout) &&
        decide (now - idle.createdAt < config.maxLifetime) }

/-- The place of a waiter that is polled, with its identity.  A waiter that is no longer in
the queue goes to the front of it. -/
def enqueue (waiterId : Option Nat) (waker : Waker) : Nat × Nat × GenericPoolState R :=
  match waiterId with
  | some id =>
    match s.waiters.findIdx? (·.id == id) with
    | some idx =>
      (idx, id, { s with waiters := s.waiters.modify idx fun w => { w with waker := waker } })
    | none => (0, id, { s with waiters := { id := id, waker := waker } :: s.waiters })
  | none =>
    (s.waiters.length, s.nextWaiterId,
      { s with
        waiters := s.waiters ++ [{ id := s.nextWaiterId, waker := waker }]
        nextWaiterId := (s.nextWaiterId + 1) % 2 ^ 64 })

end GenericPoolState

/-- What `acquire` learns from its context in one iteration; both of its checkpoints answer
the same. -/
structure AcquireCx where
  cancelled : Bool
  acquireStart : Nat
  now : Nat
  budgetRemaining : Option Nat

/-- How an iteration of `acquire` ends: with a resource, with a slot to create one, with an
error, or waiting for so long. -/
inductive AcquireStep (R : Type) where
  | resource (resource : R) (createdAt : Nat)
  | createSlot
  | failed (error : PoolError)
  | wait (remaining : Nat)

namespace GenericPool

variable {R : Type} (p : GenericPool R)

def wake (waker : Option Waker) : GenericPool R := { p with woken := p.woken ++ waker.toList }

def isHealthy (resource : R) : Bool :=
  match p.healthCheckFn with
  | some check => check resource
  | none => true

def rejectUnhealthyIdleResource : GenericPool R :=
  let state := { p.state with
    active := p.state.active - 1
    totalAcquisitions := p.state.totalAcquisitions - 1 }
  { p with state := state }.wake (state.nextWaker p.config)

def processReturn (now : Nat) : PoolReturn R → GenericPool R
  | .returned resource createdAt =>
    if p.state.closed then { p with state := { p.state with active := p.state.active - 1 } }
    else
      let state := { p.state with
        active := p.state.active - 1
        idle := p.state.idle ++ [{ resource, idleSince := now, createdAt }] }
      { p with state := state }.wake (state.nextWaker p.config)
  | .discard =>
    let state := { p.state with active := p.state.active - 1 }
    { p with state := state }.wake (state.nextWaker p.config)

def processReturns (now : Nat) : GenericPool R :=
  p.returns.foldl (fun p => p.processReturn now) { p with returns := [] }

def tryGetIdle (waiterId : Option Nat) (now : Nat) : Option (R × Nat) × GenericPool R :=
  let state := p.state.evict p.config now
  if state.place waiterId < state.available p.config then
    match state.idle with
    | idle :: rest =>
      (some (idle.resource, idle.createdAt), { p with state := { state with
        idle := rest
        active := state.active + 1
        totalAcquisitions := state.totalAcquisitions + 1 } })
    | [] => (none, { p with state := state })
  else (none, { p with state := state })

def reserveCreateSlot (waiterId : Option Nat) : Bool × GenericPool R :=
  if p.state.closed || decide (p.config.maxSize ≤ p.state.total) then (false, p)
  else if p.state.available p.config ≤ p.state.place waiterId then (false, p)
  else
    (true, { p with state := { p.state with
      creating := p.state.creating + 1
      waiters := if waiterId.isSome && decide (p.state.place waiterId < p.state.waiters.length)
        then p.state.waiters.eraseIdx (p.state.place waiterId) else p.state.waiters } })

def removeWaiter (id : Nat) : GenericPool R :=
  { p with state := { p.state with waiters := p.state.waiters.filter (·.id != id) } }

/-- A call that is served takes its waiter out everywhere. -/
def settle : Option Nat → GenericPool R
  | some id => { p with returnWakers := p.returnWakers.filter (·.1 != id) }.removeWaiter id
  | none => p

def remainingAcquireTimeout (cx : AcquireCx) : Except PoolError Nat :=
  if p.config.acquireTimeout ≤ cx.now - cx.acquireStart then .error .timeout
  else
    let remaining := p.config.acquireTimeout - (cx.now - cx.acquireStart)
    match cx.budgetRemaining with
    | some budget => if budget = 0 then .error .cancelled else .ok (min remaining budget)
    | none => .ok remaining

/-- One poll of `WaitForNotification`: whether it is ready, and the identity of the waiter. -/
def pollWait (waiterId : Option Nat) (cancelled : Bool) (now : Nat) (waker : Waker) :
    Bool × Option Nat × GenericPool R :=
  if cancelled then (true, waiterId, p)
  else
    let p := p.processReturns now
    if p.state.closed then (true, waiterId, p)
    else
      match p.state.enqueue waiterId waker with
      | (pos, id, state) =>
        let p' := { p with state := state }
        if pos < p.state.available p.config then (true, some id, p')
        else
          let wakers := match p.returnWakers.findIdx? (·.1 == id) with
            | some idx => p.returnWakers.set idx (id, waker)
            | none => p.returnWakers ++ [(id, waker)]
          (false, some id, { p' with returnWakers := wakers }.processReturns now)

/-- A `WaitForNotification` that is dropped, when it is ready or before. -/
def dropWait : Option Nat → GenericPool R
  | some id =>
    { p with
      state := { p.state with waiters := p.state.waiters.eraseP (·.id == id) }
      returnWakers := p.returnWakers.eraseP (·.1 == id) }
  | none => p

/-- The idle resources are tried until one is healthy; `fuel` bounds how many. -/
def takeIdle (waiterId : Option Nat) (now : Nat) :
    Nat → GenericPool R → Option (R × Nat) × GenericPool R
  | 0, p => (none, p)
  | fuel + 1, p =>
    match p.tryGetIdle waiterId now with
    | (none, p) => (none, p)
    | (some (resource, createdAt), p) =>
      if p.config.healthCheckOnAcquire && !p.isHealthy resource then
        takeIdle waiterId now fuel p.rejectUnhealthyIdleResource
      else (some (resource, createdAt), p)

/-- One iteration of the loop of `acquire`, up to the wait, with the waiter it keeps. -/
def acquireStep (waiterId : Option Nat) (now : Nat) (cx : AcquireCx) :
    AcquireStep R × Option Nat × GenericPool R :=
  let p := p.processReturns now
  if cx.cancelled then (.failed .cancelled, waiterId, p)
  else if p.closed then (.failed .closed, waiterId, p)
  else
    match takeIdle waiterId now (p.state.idle.length + 1) p with
    | (some (resource, createdAt), p) => (.resource resource createdAt, none, p.settle waiterId)
    | (none, p) =>
      match p.reserveCreateSlot waiterId with
      | (true, p) => (.createSlot, none, p.settle waiterId)
      | (false, p) =>
        match p.remainingAcquireTimeout cx with
        | .error error => (.failed error, waiterId, p)
        | .ok remaining => (.wait remaining, waiterId, p)

end GenericPool

end Asupersync
