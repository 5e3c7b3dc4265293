import Asupersync.Types.Outcome

/-!
# Region records

The record of a region: its lifecycle state, its tracked children and tasks, its
obligation counter, its finalizer stack and the admission and close operations.

Each operation of this file is one call running alone.  How calls of several
threads interleave at the state atomic and the inner lock is the subject of
`Asupersync.Record.RegionAdmission`.

Finalizer stacks are lists with the top of the stack first.  The region heap,
the tracing span and the close waiters take no part in these operations and are
left out, as is the curve budget of the limits, which no admission path reads.
-/

namespace Asupersync

/-- Lifecycle state of a region. -/
inductive RegionState where
  | opened
  | closing
  | draining
  | finalizing
  | closed
deriving DecidableEq, Repr

namespace RegionState

def asU8 : RegionState → Nat
  | .opened => 0
  | .closing => 1
  | .draining => 2
  | .finalizing => 3
  | .closed => 4

def isTerminal (s : RegionState) : Bool := s == .closed

def canSpawn (s : RegionState) : Bool := s == .opened

def canAcceptWork (s : RegionState) : Bool := s == .opened

def canAcceptCleanupWork (s : RegionState) : Bool := s == .opened || s == .finalizing

def isClosing (s : RegionState) : Bool :=
  s == .closing || s == .draining || s == .finalizing

end RegionState

/-- Admission limits of a region; `none` is no limit. -/
structure RegionLimits where
  maxChildren : Option Nat
  maxTasks : Option Nat
  maxObligations : Option Nat
deriving DecidableEq, Repr

def RegionLimits.unlimited : RegionLimits :=
  { maxChildren := none, maxTasks := none, maxObligations := none }

inductive AdmissionKind where
  | child
  | task
  | obligation
deriving DecidableEq, Repr

inductive AdmissionError where
  | closed
  | limitReached (kind : AdmissionKind) (limit live : Nat)
deriving DecidableEq, Repr

/-- A registered finalizer.  The number stands for the identity of the closure or
future; a synchronous closure either returns or panics when it is called. -/
inductive Finalizer where
  | sync (closure : Nat) (panics : Option PanicPayload)
  | async (future : Nat)
deriving DecidableEq, Repr

structure RegionRecord where
  id : RegionId
  parent : Option RegionId
  createdAt : Time
  state : RegionState
  budget : Budget
  children : List RegionId
  tasks : List TaskId
  finalizers : List Finalizer
  cancelReason : Option CancelReason
  closeOutcome : Option TaskOutcome
  limits : RegionLimits
  pendingObligations : Nat
  doubleResolveCount : Nat

namespace RegionRecord

def newWithTime (id : RegionId) (parent : Option RegionId) (budget : Budget)
    (createdAt : Time) : RegionRecord :=
  { id := id
    parent := parent
    createdAt := createdAt
    state := .opened
    budget := budget
    children := []
    tasks := []
    finalizers := []
    cancelReason := none
    closeOutcome := none
    limits := RegionLimits.unlimited
    pendingObligations := 0
    doubleResolveCount := 0 }

def setLimits (r : RegionRecord) (limits : RegionLimits) : RegionRecord :=
  { r with limits := limits }

/-- The limit check of every admission path: refuse once `live` reaches the limit. -/
def checkLimit (kind : AdmissionKind) (limit : Option Nat) (live : Nat) :
    Except AdmissionError Unit :=
  match limit with
  | none => .ok ()
  | some limit =>
    if limit ≤ live then .error (.limitReached kind limit live) else .ok ()

/-- What `add_child` does under the lock once the state check has passed. -/
def admitChild (r : RegionRecord) (child : RegionId) : Except AdmissionError RegionRecord :=
  if child ∈ r.children then .ok r
  else
    match checkLimit .child r.limits.maxChildren r.children.length with
    | .error e => .error e
    | .ok _ => .ok { r with children := r.children ++ [child] }

def addChild (r : RegionRecord) (child : RegionId) : Except AdmissionError RegionRecord :=
  if r.state.canSpawn then r.admitChild child else .error .closed

def removeChild (r : RegionRecord) (child : RegionId) : RegionRecord :=
  { r with children := r.children.filter (· ≠ child) }

/-- The state check of `add_task_internal`. -/
def canAdmit (cleanupTask : Bool) (state : RegionState) : Bool :=
  if cleanupTask then state.canAcceptCleanupWork else state.canAcceptWork

/-- What `add_task_internal` does under the lock, with the state it has loaded
there: cleanup tasks of a finalizing region bypass the limit. -/
def admitTask (r : RegionRecord) (task : TaskId) (cleanupTask : Bool)
    (state : RegionState) : Except AdmissionError RegionRecord :=
  if task ∈ r.tasks then .ok r
  else if cleanupTask && state == .finalizing then
    .ok { r with tasks := r.tasks ++ [task] }
  else
    match checkLimit .task r.limits.maxTasks r.tasks.length with
    | .error e => .error e
    | .ok _ => .ok { r with tasks := r.tasks ++ [task] }

def addTaskInternal (r : RegionRecord) (task : TaskId) (cleanupTask : Bool) :
    Except AdmissionError RegionRecord :=
  if canAdmit cleanupTask r.state then r.admitTask task cleanupTask r.state
  else .error .closed

def addTask (r : RegionRecord) (task : TaskId) : Except AdmissionError RegionRecord :=
  r.addTaskInternal task false

def addCleanupTask (r : RegionRecord) (task : TaskId) :
    Except AdmissionError RegionRecord :=
  r.addTaskInternal task true

def removeTask (r : RegionRecord) (task : TaskId) : RegionRecord :=
  { r with tasks := r.tasks.filter (· ≠ task) }

/-- What `try_reserve_obligation` does under the lock once the state check has
passed. -/
def admitObligation (r : RegionRecord) : Except AdmissionError RegionRecord :=
  match checkLimit .obligation r.limits.maxObligations r.pendingObligations with
  | .error e => .error e
  | .ok _ => .ok { r with pendingObligations := min (r.pendingObligations + 1) usizeMax }

def tryReserveObligation (r : RegionRecord) : Except AdmissionError RegionRecord :=
  if r.state.canAcceptWork then r.admitObligation else .error .closed

/-- Releases an obligation slot; a release without a pending one is counted. -/
def resolveObligation (r : RegionRecord) : RegionRecord :=
  match r.pendingObligations with
  | 0 => { r with doubleResolveCount := r.doubleResolveCount + 1 }
  | n + 1 => { r with pendingObligations := n }

def addFinalizer (r : RegionRecord) (finalizer : Finalizer) : RegionRecord :=
  { r with finalizers := finalizer :: r.finalizers }

def popFinalizer (r : RegionRecord) : RegionRecord × Option Finalizer :=
  match r.finalizers with
  | [] => (r, none)
  | f :: fs => ({ r with finalizers := fs }, some f)

def strengthenCancelReason (r : RegionRecord) (reason : CancelReason) : RegionRecord :=
  { r with
    cancelReason :=
      match r.cancelReason with
      | some existing => some (existing.strengthen reason)
      | none => some reason }

def recordCloseOutcome (r : RegionRecord) (outcome : TaskOutcome) : RegionRecord :=
  { r with
    closeOutcome :=
      match r.closeOutcome with
      | some existing => some (existing.join outcome)
      | none => some outcome }

/-- The compare-and-swap of the state atomic. -/
def transition (r : RegionRecord) (source target : RegionState) : RegionRecord × Bool :=
  if r.state = source then ({ r with state := target }, true) else (r, false)

/-- Records the reason of a close, if it has one. -/
def applyReason (r : RegionRecord) : Option CancelReason → RegionRecord
  | some reason => r.strengthenCancelReason reason
  | none => r

def beginClose (r : RegionRecord) (reason : Option CancelReason) : RegionRecord × Bool :=
  if r.state = .closed then (r, false)
  else (r.applyReason reason).transition .opened .closing

def beginDrain (r : RegionRecord) : RegionRecord × Bool :=
  r.transition .closing .draining

def beginFinalize (r : RegionRecord) : RegionRecord × Bool :=
  if (r.transition .closing .finalizing).2 then r.transition .closing .finalizing
  else r.transition .draining .finalizing

/-- Nothing is tracked any more. -/
def isQuiescent (r : RegionRecord) : Bool :=
  r.children.isEmpty && r.tasks.isEmpty && r.pendingObligations == 0 && r.finalizers.isEmpty

/-- The close outcome defaults to the cancel reason, or to success. -/
def defaultCloseOutcome (r : RegionRecord) : RegionRecord :=
  { r with
    closeOutcome :=
      match r.closeOutcome with
      | some outcome => some outcome
      | none =>
        match r.cancelReason with
        | some reason => some (.cancelled reason)
        | none => some (.ok ()) }

def completeClose (r : RegionRecord) : RegionRecord × Bool :=
  if r.isQuiescent then r.defaultCloseOutcome.transition .finalizing .closed
  else (r, false)

end RegionRecord

end Asupersync
