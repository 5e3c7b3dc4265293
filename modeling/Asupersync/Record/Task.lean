import Asupersync.Types.Outcome

/-!
# Task records

The lifecycle state of a task, its atomic phase cell and the operations that
move a task through the cancellation protocol.

The phase cell keeps, next to the byte it stores, the list of all stores made to
it (phase read, phase written).  The list is not part of the running program: it
is the trace that the transition table of `TaskPhase.isValidTransition` is
checked against.

The context record `CxInner` holds the fields the lifecycle operations read or
write.  Wakers and trace output have no effect on the record and are left out.
-/

namespace Asupersync

/-- State of a task. -/
inductive TaskState where
  | created
  | running
  | cancelRequested (reason : CancelReason) (cleanupBudget : Budget)
  | cancelling (reason : CancelReason) (cleanupBudget : Budget)
  | finalizing (reason : CancelReason) (cleanupBudget : Budget)
  | completed (outcome : TaskOutcome)

namespace TaskState

/-- True in the terminal state. -/
def isTerminal : TaskState → Bool
  | .completed _ => true
  | _ => false

/-- True while a cancellation is requested or in progress. -/
def isCancelling : TaskState → Bool
  | .cancelRequested _ _ | .cancelling _ _ | .finalizing _ _ => true
  | _ => false

end TaskState

/-- Lifecycle phase of a task. -/
inductive TaskPhase where
  | created
  | running
  | cancelRequested
  | cancelling
  | finalizing
  | completed
deriving DecidableEq, Repr

namespace TaskPhase

/-- Numeric encoding of a phase. -/
def asU8 : TaskPhase → UInt8
  | .created => 0
  | .running => 1
  | .cancelRequested => 2
  | .cancelling => 3
  | .finalizing => 4
  | .completed => 5

/-- Decodes a phase. -/
def fromU8 (value : UInt8) : Option TaskPhase :=
  if value = 0 then some .created
  else if value = 1 then some .running
  else if value = 2 then some .cancelRequested
  else if value = 3 then some .cancelling
  else if value = 4 then some .finalizing
  else if value = 5 then some .completed
  else none

/-- The transition table of task phases. -/
def isValidTransition : TaskPhase → TaskPhase → Bool
  | .created, .running | .created, .cancelRequested | .created, .completed => true
  | .running, .cancelRequested | .running, .completed => true
  | .cancelRequested, .cancelRequested | .cancelRequested, .cancelling
  | .cancelRequested, .completed => true
  | .cancelling, .cancelling | .cancelling, .finalizing | .cancelling, .completed => true
  | .finalizing, .finalizing | .finalizing, .completed => true
  | _, _ => false

@[simp]
theorem fromU8_asU8 (phase : TaskPhase) : fromU8 phase.asU8 = some phase := by
  cases phase <;> rfl

end TaskPhase

/-- The phase a state belongs to. -/
def TaskState.phase : TaskState → TaskPhase
  | .created => .created
  | .running => .running
  | .cancelRequested _ _ => .cancelRequested
  | .cancelling _ _ => .cancelling
  | .finalizing _ _ => .finalizing
  | .completed _ => .completed

/-- The atomic phase cell, with the trace of the stores made to it. -/
structure TaskPhaseCell where
  inner : UInt8
  stores : List (TaskPhase × TaskPhase)
deriving DecidableEq

namespace TaskPhaseCell

/-- A cell holding the given phase. -/
def new (phase : TaskPhase) : TaskPhaseCell :=
  { inner := phase.asU8, stores := [] }

/-- The phase in the cell; an invalid byte decodes to the terminal phase. -/
def load (cell : TaskPhaseCell) : TaskPhase :=
  (TaskPhase.fromU8 cell.inner).getD .completed

/-- Stores a phase. -/
def store (cell : TaskPhaseCell) (phase : TaskPhase) : TaskPhaseCell :=
  { inner := phase.asU8, stores := cell.stores ++ [(cell.load, phase)] }

@[simp]
theorem load_store (cell : TaskPhaseCell) (phase : TaskPhase) :
    (cell.store phase).load = phase := by
  simp [store, load]

end TaskPhaseCell

/-- The part of the shared task context that the lifecycle operations use. -/
structure CxInner where
  cancelRequested : Bool
  fastCancel : Bool
  cancelReason : Option CancelReason
  budget : Budget
  budgetBaseline : Budget

/-- Internal record of a task. -/
structure TaskRecord where
  id : TaskId
  owner : RegionId
  state : TaskState
  phase : TaskPhaseCell
  cxInner : Option CxInner
  createdAt : Time
  deadline : Option Time
  pollsRemaining : Nat
  waiters : List TaskId
  cancelEpoch : Nat
  isLocal : Bool

namespace TaskRecord

/-- A fresh task record. -/
def newWithTime (id : TaskId) (owner : RegionId) (budget : Budget) (createdAt : Time) :
    TaskRecord :=
  { id := id
    owner := owner
    state := .created
    phase := TaskPhaseCell.new .created
    cxInner := none
    createdAt := createdAt
    deadline := budget.deadline
    pollsRemaining := budget.pollQuota
    waiters := []
    cancelEpoch := 0
    isLocal := false }

/-- Attaches the shared context. -/
def setCxInner (t : TaskRecord) (inner : CxInner) : TaskRecord :=
  { t with deadline := inner.budget.deadline, cxInner := some inner }

/-- Applies a change to the shared context, if there is one. -/
def updateCx (t : TaskRecord) (f : CxInner → CxInner) : TaskRecord :=
  { t with cxInner := t.cxInner.map f }

/-- Raises the cancellation flags of the shared context. -/
def raiseCancelFlags (t : TaskRecord) : TaskRecord :=
  t.updateCx fun inner => { inner with cancelRequested := true, fastCancel := true }

/-- Publishes the current reason in the shared context. -/
def publishReason (t : TaskRecord) (reason : CancelReason) : TaskRecord :=
  t.updateCx fun inner => { inner with cancelReason := some reason }

/-- Puts a cleanup budget in force in the shared context. -/
def installBudget (t : TaskRecord) (budget : Budget) : TaskRecord :=
  t.updateCx fun inner => { inner with budget := budget, budgetBaseline := budget }

/-- Moves to a state and stores its phase in the cell. -/
def moveTo (t : TaskRecord) (state : TaskState) : TaskRecord :=
  { t with state := state, phase := t.phase.store state.phase }

/-- Requests cancellation with an explicit cleanup budget.  Returns true if the
request was new. -/
def requestCancelWithBudget (t : TaskRecord) (reason : CancelReason)
    (cleanupBudget : Budget) : TaskRecord × Bool :=
  match t.state with
  | .completed _ => (t, false)
  | .cancelRequested existing budget =>
    let reason' := existing.strengthen reason
    let budget' := budget.combine cleanupBudget
    ((t.raiseCancelFlags.moveTo (.cancelRequested reason' budget')).publishReason reason',
      false)
  | .cancelling existing budget =>
    let reason' := existing.strengthen reason
    let budget' := budget.combine cleanupBudget
    let t' := (t.raiseCancelFlags.moveTo (.cancelling reason' budget')).installBudget budget'
    ({ t' with pollsRemaining := min t'.pollsRemaining budget'.pollQuota }.publishReason
      reason', false)
  | .finalizing existing budget =>
    let reason' := existing.strengthen reason
    let budget' := budget.combine cleanupBudget
    let t' := (t.raiseCancelFlags.moveTo (.finalizing reason' budget')).installBudget budget'
    ({ t' with pollsRemaining := min t'.pollsRemaining budget'.pollQuota }.publishReason
      reason', false)
  | .created | .running =>
    let epoch := if t.cancelEpoch = 0 then 1 else min (t.cancelEpoch + 1) u64Max
    (({ t.raiseCancelFlags with cancelEpoch := epoch }.moveTo
      (.cancelRequested reason cleanupBudget)).publishReason reason, true)

/-- Requests cancellation with the cleanup budget of the reason. -/
def requestCancel (t : TaskRecord) (reason : CancelReason) : TaskRecord × Bool :=
  t.requestCancelWithBudget reason reason.cleanupBudget

/-- The cancellation witness of the current state, if the task is cancelled. -/
def cancelWitness (t : TaskRecord) : Option CancelWitness :=
  if t.cancelEpoch = 0 then none
  else
    match t.state with
    | .cancelRequested reason _ => some ⟨t.id, t.owner, t.cancelEpoch, .requested, reason⟩
    | .cancelling reason _ => some ⟨t.id, t.owner, t.cancelEpoch, .cancelling, reason⟩
    | .finalizing reason _ => some ⟨t.id, t.owner, t.cancelEpoch, .finalizing, reason⟩
    | .completed (.cancelled reason) =>
      some ⟨t.id, t.owner, t.cancelEpoch, .completed, reason⟩
    | _ => none

/-- Marks the task as running. -/
def startRunning (t : TaskRecord) : TaskRecord × Bool :=
  match t.state with
  | .created => (t.moveTo .running, true)
  | _ => (t, false)

/-- The outcome a task really completes with: a task under cancellation turns a
value, an error or a cancellation into a cancellation with its own reason. -/
def finalOutcome (state : TaskState) (outcome : TaskOutcome) : TaskOutcome :=
  match state, outcome with
  | .cancelRequested reason _, .ok _ | .cancelling reason _, .ok _
  | .finalizing reason _, .ok _ => .cancelled reason
  | .cancelRequested reason _, .err _ | .cancelling reason _, .err _
  | .finalizing reason _, .err _ => .cancelled reason
  | .cancelRequested reason _, .cancelled other | .cancelling reason _, .cancelled other
  | .finalizing reason _, .cancelled other => .cancelled (reason.strengthen other)
  | _, outcome => outcome

/-- Completes the task. -/
def complete (t : TaskRecord) (outcome : TaskOutcome) : TaskRecord × Bool :=
  if t.state.isTerminal then (t, false)
  else
    let outcome := finalOutcome t.state outcome
    let epoch := if outcome.isCancelled && t.cancelEpoch == 0 then 1 else t.cancelEpoch
    ({ t with cancelEpoch := epoch }.moveTo (.completed outcome), true)

/-- Acknowledges a requested cancellation and puts the cleanup budget in force. -/
def acknowledgeCancel (t : TaskRecord) : TaskRecord × Option CancelReason :=
  match t.state with
  | .cancelRequested reason budget =>
    ({ t.installBudget budget with pollsRemaining := budget.pollQuota }.moveTo
      (.cancelling reason budget), some reason)
  | _ => (t, none)

/-- Ends the cleanup phase. -/
def cleanupDone (t : TaskRecord) : TaskRecord × Bool :=
  match t.state with
  | .cancelling reason budget => (t.moveTo (.finalizing reason budget), true)
  | _ => (t, false)

/-- Ends the finalizer phase, completing the task as cancelled. -/
def finalizeDoneWithWitness (t : TaskRecord) : TaskRecord × Option CancelWitness :=
  match t.state with
  | .finalizing reason _ =>
    (t.moveTo (.completed (.cancelled reason)),
      some ⟨t.id, t.owner, t.cancelEpoch, .completed, reason⟩)
  | _ => (t, none)

/-- The cleanup budget while the task is being cancelled. -/
def cleanupBudget (t : TaskRecord) : Option Budget :=
  match t.state with
  | .cancelRequested _ budget | .cancelling _ budget | .finalizing _ budget => some budget
  | _ => none

/-- The reason while the task is being cancelled. -/
def cancelReason (t : TaskRecord) : Option CancelReason :=
  match t.state with
  | .cancelRequested reason _ | .cancelling reason _ | .finalizing reason _ => some reason
  | _ => none

end TaskRecord

end Asupersync
