import Asupersync.Lib.Flow
import Asupersync.Record.Region
import Asupersync.Record.Task
import Asupersync.Runtime.ObligationTable

/-!
# The runtime state

The region, task and obligation tables of the runtime with the operations that run
across them: creation, obligation resolution and leak handling, cancellation of a
subtree, task completion, finalizers and the close of regions.

**Panics and loops.**  An operation ends with a value, in a panic with the state it
unwinds from, or not at all (`Lib.Flow`).  Loops of the source run on fuel:
`advance_region_state` on a bound computed from the region arena, the other loops on
the length of what they consume.  Leak handling and `advance_region_state` call each
other; the resolution functions take the function that advances a region as an
argument.

**Representation.**  Hash maps are functions into `Option`.  Stacks are lists with
the top first.  `closings` is not part of the running program: it records every
close of a region together with the tables at that moment.

Tracing, metrics, the protocol validators, stored futures, capability budgets and
snapshot counters have no influence on these operations and are left out.  The
pressure check before a child region is created, and whether the thread is unwinding
already, are inputs.
-/

namespace Asupersync

open Lib Function

inductive ObligationLeakResponse where
  | panic
  | log
  | silent
  | recover
deriving DecidableEq, Repr

structure LeakEscalation where
  threshold : Nat
  escalateTo : ObligationLeakResponse
deriving DecidableEq, Repr

inductive FinalizerHistoryEvent where
  | registered (id : Nat) (region : RegionId) (time : Time)
  | ran (id : Nat) (time : Time)
  | regionClosed (region : RegionId) (time : Time)
deriving DecidableEq, Repr

/-- The tables and counters of the runtime. -/
structure RuntimeTables where
  regions : Arena RegionRecord
  tasks : Arena TaskRecord
  obligations : ObligationTable
  now : Time
  rootRegion : Option RegionId
  cancelAttribution : CancelAttributionConfig
  obligationLeakResponse : ObligationLeakResponse
  leakEscalation : Option LeakEscalation
  leakCount : Nat
  handlingLeaks : Nat
  inFlightLeakIds : List ObligationId
  threadPanicking : Bool
  finalizingRegions : List RegionId
  /-- The recently closed regions, oldest first. -/
  recentlyClosedRegionOrder : List RegionId
  recentlyClosedRegionOutcomes : RegionId → Option TaskOutcome
  pendingFinalizerIds : RegionId → Option (List Nat)
  activeAsyncFinalizers : RegionId → Option TaskId
  asyncFinalizerTasks : TaskId → Option Nat
  nextFinalizerId : Nat
  finalizerHistory : List FinalizerHistoryEvent

/-- The tables, with the record of all closes. -/
structure RuntimeState extends RuntimeTables where
  closings : List (RegionId × RuntimeTables)

inductive RuntimePanic where
  /-- The fail-fast response to leaked obligations. -/
  | obligationLeaks
  /-- "finalizer id tracking missing for region" -/
  | finalizerIdsMissing
  /-- "finalizer id stack out of sync" -/
  | finalizerIdsOutOfSync
  /-- "arena overflow" -/
  | arenaOverflow
  /-- "finalizer ID overflow" -/
  | finalizerIdOverflow
deriving DecidableEq, Repr

abbrev RuntimeFlow (α : Type) := Flow RuntimeState RuntimePanic α

inductive RegionCreateError where
  | parentNotFound (parent : RegionId)
  | parentClosed (region : RegionId) (state : RegionState)
  | parentAtCapacity (region : RegionId) (limit live : Nat)
  | resourcePressure (reason : String)
deriving DecidableEq, Repr

inductive SpawnError where
  | regionNotFound (region : RegionId)
  | regionClosed (region : RegionId)
  | regionAtCapacity (region : RegionId) (limit live : Nat)
deriving DecidableEq, Repr

namespace RegionTable

/-- The parent's refusal of a child. -/
def createError (parent : RegionId) (state : RegionState) : AdmissionError → RegionCreateError
  | .closed => .parentClosed parent state
  | .limitReached _ limit live => .parentAtCapacity parent limit live

/-- Inserts the child before the parent admits it, and rolls back a refusal. -/
def createChild (regions : Arena RegionRecord) (parent : RegionId) (budget : Budget)
    (now : Time) : Option (Except RegionCreateError RegionId × Arena RegionRecord) :=
  match regions.get parent.arenaIndex with
  | none => some (.error (.parentNotFound parent), regions)
  | some parentRecord =>
    match regions.insertWith fun idx =>
        RegionRecord.newWithTime ⟨idx⟩ (some parent) (parentRecord.budget.combine budget) now with
    | none => none
    | some (idx, inserted) =>
      let rollback := match inserted.remove idx with
        | some (_, removed) => removed
        | none => inserted
      match inserted.get parent.arenaIndex with
      | none => some (.error (.parentNotFound parent), rollback)
      | some record =>
        match record.addChild ⟨idx⟩ with
        | .error err => some (.error (createError parent record.state err), rollback)
        | .ok record' =>
          some (.ok ⟨idx⟩, inserted.modify parent.arenaIndex fun _ => record')

/-- Removes a region and unlists it at its parent. -/
def remove (regions : Arena RegionRecord) (region : RegionId) : Arena RegionRecord :=
  match regions.remove region.arenaIndex with
  | none => regions
  | some (removed, regions) =>
    match removed.parent with
    | none => regions
    | some parent => regions.modify parent.arenaIndex (·.removeChild removed.id)

end RegionTable

namespace RuntimeTables

def region (s : RuntimeTables) (r : RegionId) : Option RegionRecord :=
  s.regions.get r.arenaIndex

def task (s : RuntimeTables) (t : TaskId) : Option TaskRecord := s.tasks.get t.arenaIndex

def obligation (s : RuntimeTables) (o : ObligationId) : Option ObligationRecord :=
  s.obligations.get o

end RuntimeTables

namespace RuntimeState

def new : RuntimeState :=
  { regions := .new
    tasks := .new
    obligations := .new
    now := 0
    rootRegion := none
    cancelAttribution := .default
    obligationLeakResponse := .panic
    leakEscalation := none
    leakCount := 0
    handlingLeaks := 0
    inFlightLeakIds := []
    threadPanicking := false
    finalizingRegions := []
    recentlyClosedRegionOrder := []
    recentlyClosedRegionOutcomes := fun _ => none
    pendingFinalizerIds := fun _ => none
    activeAsyncFinalizers := fun _ => none
    asyncFinalizerTasks := fun _ => none
    nextFinalizerId := 0
    finalizerHistory := []
    closings := [] }

def updateRegion (s : RuntimeState) (r : RegionId) (f : RegionRecord → RegionRecord) :
    RuntimeState :=
  { s with regions := s.regions.modify r.arenaIndex f }

def updateTask (s : RuntimeState) (t : TaskId) (f : TaskRecord → TaskRecord) : RuntimeState :=
  { s with tasks := s.tasks.modify t.arenaIndex f }

def recycleTask (s : RuntimeState) (t : TaskId) : RuntimeState :=
  match s.tasks.remove t.arenaIndex with
  | some (_, tasks) => { s with tasks := tasks }
  | none => s

def createRootRegion (s : RuntimeState) (budget : Budget) : RuntimeFlow RegionId :=
  match s.regions.insertWith fun idx => RegionRecord.newWithTime ⟨idx⟩ none budget s.now with
  | none => .panic .arenaOverflow s
  | some (idx, regions) => .ok ⟨idx⟩ { s with regions := regions, rootRegion := some ⟨idx⟩ }

/-- `pressure` is the reason for which the pressure check refuses, if it does. -/
def createChildRegion (s : RuntimeState) (parent : RegionId) (budget : Budget)
    (pressure : Option String) : RuntimeFlow (Except RegionCreateError RegionId) :=
  match pressure with
  | some reason => .ok (.error (.resourcePressure reason)) s
  | none =>
    match RegionTable.createChild s.regions parent budget s.now with
    | none => .panic .arenaOverflow s
    | some (result, regions) => .ok result { s with regions := regions }

/-- The context a new task starts with. -/
def freshContext (budget : Budget) : CxInner :=
  { cancelRequested := false
    fastCancel := false
    cancelReason := none
    budget := budget
    budgetBaseline := budget }

def spawnError (region : RegionId) : AdmissionError → SpawnError
  | .closed => .regionClosed region
  | .limitReached _ limit live => .regionAtCapacity region limit live

/-- Inserts the record before the region admits it, and recycles it after a refusal. -/
def createTaskInfrastructure (s : RuntimeState) (region : RegionId) (budget : Budget)
    (cleanupTask : Bool) : RuntimeFlow (Except SpawnError TaskId) :=
  match s.tasks.insertWith fun idx => TaskRecord.newWithTime ⟨idx⟩ region budget s.now with
  | none => .panic .arenaOverflow s
  | some (idx, tasks) =>
    let inserted : RuntimeState := { s with tasks := tasks }
    match inserted.region region with
    | none => .ok (.error (.regionNotFound region)) (inserted.recycleTask ⟨idx⟩)
    | some record =>
      match record.addTaskInternal ⟨idx⟩ cleanupTask with
      | .error err => .ok (.error (spawnError region err)) (inserted.recycleTask ⟨idx⟩)
      | .ok record' =>
        .ok (.ok ⟨idx⟩)
          ((inserted.updateRegion region fun _ => record').updateTask ⟨idx⟩
            (·.setCxInner (freshContext budget)))

def createTask (s : RuntimeState) (region : RegionId) (budget : Budget) :
    RuntimeFlow (Except SpawnError TaskId) :=
  s.createTaskInfrastructure region budget false

def admissionError (region : RegionId) : AdmissionError → ObligationError
  | .closed => .regionClosed
  | .limitReached _ limit live => .limitReached region limit live

/-- The region's counter goes up before the record is created. -/
def createObligation (s : RuntimeState) (kind : ObligationKind) (holder : TaskId)
    (region : RegionId) (description : Option String) :
    RuntimeFlow (Except ObligationError ObligationId) :=
  match s.region region with
  | none => .ok (.error .regionNotFound) s
  | some record =>
    match s.task holder with
    | none => .ok (.error (.holderNotFound holder)) s
    | some task =>
      if task.owner ≠ region then
        .ok (.error (.holderNotOwned holder task.owner region)) s
      else
        match record.tryReserveObligation with
        | .error err => .ok (.error (admissionError region err)) s
        | .ok record' =>
          let reserved := s.updateRegion region fun _ => record'
          match reserved.obligations.create kind holder region s.now description with
          | none => .panic .arenaOverflow reserved
          | some (o, obligations) => .ok (.ok o) { reserved with obligations := obligations }

section Resolution

variable (advance : RuntimeState → RegionId → RuntimeFlow Unit)

/-- The common end of the three resolutions: the region's counter goes down and the
region is advanced. -/
def settle (s : RuntimeState)
    (result : Except ObligationError (ObligationInfo × ObligationTable)) :
    RuntimeFlow (Except ObligationError Nat) :=
  match result with
  | .error err => .ok (.error err) s
  | .ok (info, obligations) =>
    let resolved : RuntimeState := { s with obligations := obligations }
    (advance (resolved.updateRegion info.region (·.resolveObligation)) info.region).bind
      fun _ s => .ok (.ok info.duration) s

def commitObligation (s : RuntimeState) (o : ObligationId) :
    RuntimeFlow (Except ObligationError Nat) :=
  s.settle advance (s.obligations.commit o s.now)

def abortObligation (s : RuntimeState) (o : ObligationId) (reason : ObligationAbortReason) :
    RuntimeFlow (Except ObligationError Nat) :=
  s.settle advance (s.obligations.abort o s.now reason)

def markObligationLeaked (s : RuntimeState) (o : ObligationId) :
    RuntimeFlow (Except ObligationError Nat) :=
  s.settle advance (s.obligations.markLeaked o s.now)

/-- The response in force: the escalation replaces the policy from its threshold on, and
a thread that unwinds already does not panic again. -/
def leakResponse (s : RuntimeState) : ObligationLeakResponse :=
  let response := match s.leakEscalation with
    | some esc =>
      if esc.threshold ≤ s.leakCount then esc.escalateTo else s.obligationLeakResponse
    | none => s.obligationLeakResponse
  if response = .panic ∧ s.threadPanicking = true then .log else response

def enterLeaks (s : RuntimeState) (leaks : List ObligationId) : RuntimeState :=
  { s with
    inFlightLeakIds := leaks ++ s.inFlightLeakIds
    handlingLeaks := min (s.handlingLeaks + 1) usizeMax
    leakCount := min (s.leakCount + leaks.length) u64Max }

def leaveLeaks (s : RuntimeState) (leaks : List ObligationId) : RuntimeState :=
  { s with
    inFlightLeakIds := s.inFlightLeakIds.filter (· ∉ leaks)
    handlingLeaks := s.handlingLeaks - 1 }

def markEach (leaks : List ObligationId) (s : RuntimeState) : RuntimeFlow Unit :=
  Flow.forEach (fun o s => (s.markObligationLeaked advance o).bind fun _ s => .ok () s) leaks s

def abortEach (reason : ObligationAbortReason) (ids : List ObligationId) (s : RuntimeState) :
    RuntimeFlow Unit :=
  Flow.forEach (fun o s => (s.abortObligation advance o reason).bind fun _ s => .ok () s) ids s

def handleObligationLeaks (s : RuntimeState) (leaks : List ObligationId) : RuntimeFlow Unit :=
  let newLeaks := leaks.filter fun o =>
    s.obligations.isPendingId o && decide (o ∉ s.inFlightLeakIds)
  if newLeaks = [] then .ok () s
  else
    let entered := s.enterLeaks newLeaks
    match entered.leakResponse with
    | .panic =>
      (markEach advance newLeaks entered).bind fun _ s =>
        .panic .obligationLeaks (s.leaveLeaks newLeaks)
    | .log | .silent =>
      (markEach advance newLeaks entered).bind fun _ s => .ok () (s.leaveLeaks newLeaks)
    | .recover =>
      (abortEach advance .error newLeaks entered).bind fun _ s => .ok () (s.leaveLeaks newLeaks)

end Resolution

section Finalizers

def recordFinalizerRun (s : RuntimeState) (id : Nat) : RuntimeState :=
  { s with finalizerHistory := s.finalizerHistory ++ [.ran id s.now] }

def pushFinalizerId (s : RuntimeState) (r : RegionId) (id : Nat) : RuntimeState :=
  { s with
    pendingFinalizerIds :=
      update s.pendingFinalizerIds r (some (id :: (s.pendingFinalizerIds r).getD [])) }

/-- Puts a popped finalizer and its number back. -/
def reinsertFinalizer (s : RuntimeState) (r : RegionId) (id : Nat) (finalizer : Finalizer) :
    RuntimeState :=
  (s.updateRegion r (·.addFinalizer finalizer)).pushFinalizerId r id

def recordFinalizerRegistration (s : RuntimeState) (id : Nat) (r : RegionId) : RuntimeState :=
  { s.pushFinalizerId r id with
    finalizerHistory := s.finalizerHistory ++ [.registered id r s.now] }

/-- `register_sync_finalizer` and `register_async_finalizer`. -/
def registerFinalizer (s : RuntimeState) (r : RegionId) (finalizer : Finalizer) :
    RuntimeFlow Bool :=
  match s.region r with
  | none => .ok false s
  | some record =>
    if record.state.isClosing || record.state.isTerminal then .ok false s
    else if s.nextFinalizerId + 1 ≤ u64Max then
      let id := s.nextFinalizerId
      let allocated : RuntimeState := { s with nextFinalizerId := id + 1 }
      .ok true ((allocated.updateRegion r (·.addFinalizer finalizer)).recordFinalizerRegistration
        id r)
    else .panic .finalizerIdOverflow s

/-- Pops the region's stack and the stack of numbers. -/
def popTrackedFinalizer (s : RuntimeState) (r : RegionId) :
    RuntimeFlow (Option (Nat × Finalizer)) :=
  match s.region r with
  | none => .ok none s
  | some record =>
    match record.popFinalizer with
    | (_, none) => .ok none s
    | (record', some finalizer) =>
      let popped := s.updateRegion r fun _ => record'
      match s.pendingFinalizerIds r with
      | none => .panic .finalizerIdsMissing popped
      | some [] => .panic .finalizerIdsOutOfSync popped
      | some (id :: ids) =>
        .ok (some (id, finalizer))
          { popped with
            pendingFinalizerIds := update s.pendingFinalizerIds r
              (if ids.isEmpty then none else some ids) }

/-- The outcome of a synchronous finalizer: a panic is caught and recorded. -/
def recordSyncOutcome (s : RuntimeState) (r : RegionId) : Option PanicPayload → RuntimeState
  | some payload => s.updateRegion r (·.recordCloseOutcome (.panicked payload))
  | none => s

/-- Runs finalizers from the top of the stack down to an asynchronous one. -/
def syncFinalizerLoop (r : RegionId) : Nat → RuntimeState →
    RuntimeFlow (Option (Nat × Finalizer))
  | 0, _ => .outOfFuel
  | fuel + 1, s =>
    (s.popTrackedFinalizer r).bind fun popped s =>
      match popped with
      | none => .ok none s
      | some (id, .sync _ panics) =>
        syncFinalizerLoop r fuel ((s.recordSyncOutcome r panics).recordFinalizerRun id)
      | some (id, .async future) => .ok (some (id, .async future)) s

def runSyncFinalizersTracked (s : RuntimeState) (r : RegionId) :
    RuntimeFlow (Option (Nat × Finalizer)) :=
  let pending := match s.region r with
    | some record => record.finalizers.length
    | none => 0
  syncFinalizerLoop r (pending + 1) s

def runSyncFinalizers (s : RuntimeState) (r : RegionId) : RuntimeFlow (Option Finalizer) :=
  (s.runSyncFinalizersTracked r).bind fun found s => .ok (found.map (·.2)) s

def popRegionFinalizer (s : RuntimeState) (r : RegionId) : RuntimeFlow (Option Finalizer) :=
  (s.popTrackedFinalizer r).bind fun found s => .ok (found.map (·.2)) s

end Finalizers

section Advance

def canRegionCompleteClose (s : RuntimeState) (r : RegionId) : Bool :=
  match s.region r with
  | none => false
  | some record =>
    if record.state = .closed then true
    else if record.state ≠ .finalizing then false
    else if !record.finalizers.isEmpty then false
    else if (s.activeAsyncFinalizers r).isSome then false
    else if !record.tasks.isEmpty then false
    else if 0 < record.pendingObligations then false
    else if !record.children.isEmpty then false
    else true

/-- Removes an element by moving the last one into its place. -/
def swapRemove (l : List RegionId) (r : RegionId) : List RegionId :=
  match l.getLast? with
  | some last => if r ∈ l then (l.set (l.idxOf r) last).dropLast else l
  | none => l

def recordFinalizerClose (s : RuntimeState) (r : RegionId) : RuntimeState :=
  { s with
    pendingFinalizerIds := update s.pendingFinalizerIds r none
    finalizerHistory := s.finalizerHistory ++ [.regionClosed r s.now] }

def recentlyClosedRegionCapacity : Nat := 4096

/-- Remembers a closed region and its outcome, and forgets the oldest beyond the
capacity. -/
def rememberClosedRegion (s : RuntimeState) (r : RegionId) (outcome : Option TaskOutcome) :
    RuntimeState :=
  if r ∈ s.recentlyClosedRegionOrder then s
  else
    let order := s.recentlyClosedRegionOrder ++ [r]
    let outcomes := match outcome with
      | some outcome => update s.recentlyClosedRegionOutcomes r (some outcome)
      | none => s.recentlyClosedRegionOutcomes
    let evicted := order.take (order.length - recentlyClosedRegionCapacity)
    { s with
      recentlyClosedRegionOrder := order.drop (order.length - recentlyClosedRegionCapacity)
      recentlyClosedRegionOutcomes := fun q => if q ∈ evicted then none else outcomes q }

def unlistChild (s : RuntimeState) (parent : Option RegionId) (r : RegionId) : RuntimeState :=
  match parent with
  | some parent => s.updateRegion parent (·.removeChild r)
  | none => s

/-- What follows a completed close, up to the removal of the record. -/
def finishClose (s : RuntimeState) (r : RegionId) (parent : Option RegionId)
    (outcome : Option TaskOutcome) : RuntimeState :=
  let dequeued : RuntimeState :=
    { s with finalizingRegions := swapRemove s.finalizingRegions r }
  let recorded := dequeued.recordFinalizerClose r
  let fenced : RuntimeState :=
    { recorded with obligations := recorded.obligations.markRegionFinalized r }
  let unlisted := fenced.unlistChild parent r
  let unrooted : RuntimeState :=
    { unlisted with
      rootRegion := if unlisted.rootRegion = some r then none else unlisted.rootRegion }
  let remembered := unrooted.rememberClosedRegion r outcome
  { remembered with
    regions := RegionTable.remove remembered.regions r
    closings := remembered.closings ++ [(r, remembered.toRuntimeTables)] }

/-- Completes the close of a region that is ready; the parent is advanced next. -/
def completeClose (s : RuntimeState) (r : RegionId) (parent : Option RegionId) :
    RuntimeFlow (Option RegionId) :=
  match s.region r with
  | none => .ok none s
  | some record =>
    match record.completeClose with
    | (record', true) =>
      .ok parent ((s.updateRegion r fun _ => record').finishClose r parent record'.closeOutcome)
    | (record', false) => .ok none (s.updateRegion r fun _ => record')

/-- Obligations of a finalizing region without tasks are leaks. -/
def handleFinalizingLeaks (advance : RuntimeState → RegionId → RuntimeFlow Unit)
    (s : RuntimeState) (r : RegionId) : RuntimeFlow Unit :=
  match s.region r with
  | none => .ok () s
  | some record =>
    if 0 < record.pendingObligations ∧ record.tasks = [] then
      s.handleObligationLeaks advance (s.obligations.pendingForRegion r)
    else .ok () s

/-- A region that is closing or draining: to `Finalizing` once its children and tasks are
gone, to `Draining` while children remain. -/
def advanceClosing (s : RuntimeState) (r : RegionId) (record : RegionRecord) :
    RuntimeFlow (Option RegionId) :=
  if record.children = [] ∧ record.tasks = [] then
    match record.beginFinalize with
    | (record', true) =>
      let finalizing := s.updateRegion r fun _ => record'
      .ok (some r)
        { finalizing with finalizingRegions := finalizing.finalizingRegions ++ [r] }
    | (_, false) => .ok none s
  else if record.children ≠ [] ∧ record.state = .closing then
    .ok none (s.updateRegion r fun record => record.beginDrain.1)
  else .ok none s

/-- A finalizing region: run finalizers up to an asynchronous one, then close. -/
def advanceFinalizing (advance : RuntimeState → RegionId → RuntimeFlow Unit)
    (s : RuntimeState) (r : RegionId) (parent : Option RegionId) :
    RuntimeFlow (Option RegionId) :=
  if (s.activeAsyncFinalizers r).isSome then .ok none s
  else
    (s.runSyncFinalizersTracked r).bind fun found s =>
      match found with
      | some (id, finalizer) => .ok none (s.reinsertFinalizer r id finalizer)
      | none =>
        (handleFinalizingLeaks advance s r).bind fun _ s =>
          if s.canRegionCompleteClose r then s.completeClose r parent else .ok none s

/-- One turn of `advance_region_state`, with the region of the next turn. -/
def advanceTurn (advance : RuntimeState → RegionId → RuntimeFlow Unit)
    (s : RuntimeState) (r : RegionId) : RuntimeFlow (Option RegionId) :=
  match s.region r with
  | none => .ok none s
  | some record =>
    match record.state with
    | .closing | .draining => s.advanceClosing r record
    | .finalizing => s.advanceFinalizing advance r record.parent
    | .opened | .closed => .ok none s

def advanceLoop : Nat → RuntimeState → RegionId → RuntimeFlow Unit
  | 0, _, _ => .outOfFuel
  | fuel + 1, s, r =>
    (s.advanceTurn (advanceLoop fuel) r).bind fun next s =>
      match next with
      | some r => advanceLoop fuel s r
      | none => .ok () s

/-- A turn that is followed by another moves a region to `Finalizing` or removes one, so
twice the number of slots bounds the number of turns. -/
def advanceRegionState (s : RuntimeState) (r : RegionId) : RuntimeFlow Unit :=
  advanceLoop (2 * s.regions.slots.length + 1) s r

end Advance

section Completion

/-- The outcome a task has completed with. -/
def completedOutcome : TaskState → Option TaskOutcome
  | .completed outcome => some outcome
  | _ => none

def isCancelledCompletion : TaskState → Bool
  | .completed (.cancelled _) => true
  | _ => false

/-- Leaks are looked for unless the task was cancelled. -/
def handleTaskLeaks (s : RuntimeState) (t : TaskId) (state : TaskState) : RuntimeFlow Unit :=
  if isCancelledCompletion state then .ok () s
  else
    s.handleObligationLeaks advanceRegionState
      ((s.obligations.idsForHolder t).filter s.obligations.isPendingId)

/-- Releases the barrier of an asynchronous finalizer whose task has completed. -/
def completeAsyncFinalizer (s : RuntimeState) (t : TaskId) (owner : RegionId) : RuntimeState :=
  match s.asyncFinalizerTasks t with
  | none => s
  | some id =>
    let removed : RuntimeState :=
      { s with
        asyncFinalizerTasks := update s.asyncFinalizerTasks t none
        activeAsyncFinalizers :=
          if s.activeAsyncFinalizers owner = some t then
            update s.activeAsyncFinalizers owner none
          else s.activeAsyncFinalizers }
    removed.recordFinalizerRun id

/-- Removes the record of a completed task and unlists it at its region. -/
def removeCompletedTask (s : RuntimeState) (t : TaskId) (owner : RegionId)
    (outcome : Option TaskOutcome) : RuntimeState :=
  (s.recycleTask t).updateRegion owner fun record =>
    (match outcome with
      | some outcome => record.recordCloseOutcome outcome
      | none => record).removeTask t

def taskCompleted (s : RuntimeState) (t : TaskId) : RuntimeFlow (List TaskId) :=
  match s.task t with
  | none => .ok [] s
  | some record =>
    let taken := s.updateTask t fun record => { record with waiters := [] }
    (taken.handleTaskLeaks t record.state).bind fun _ s =>
      let released := s.completeAsyncFinalizer t record.owner
      (abortEach advanceRegionState .cancel (released.obligations.sortedPendingIdsForHolder t)
        released).bind fun _ s =>
          let removed := s.removeCompletedTask t record.owner (completedOutcome record.state)
          (removed.advanceRegionState record.owner).bind fun _ s => .ok record.waiters s

end Completion

section AsyncFinalizers

def finalizerTimeBudgetNanos : Nat := 5000000000

def finalizerPollBudget : Nat := 100

def finalizerBudget : Budget := Budget.new.withPollQuota finalizerPollBudget

/-- Spawns the task of an asynchronous finalizer and raises the barrier; a refusal gives
the finalizer back to the caller. -/
def spawnFinalizerTask (s : RuntimeState) (r : RegionId) (id : Nat) :
    RuntimeFlow (Option (TaskId × Nat)) :=
  let budget := finalizerBudget.withDeadline (min (s.now + finalizerTimeBudgetNanos) u64Max)
  (s.createTaskInfrastructure r budget true).bind fun result s =>
    match result with
    | .error _ => .ok none s
    | .ok t =>
      .ok (some (t, budget.priority))
        { s with
          asyncFinalizerTasks := update s.asyncFinalizerTasks t (some id)
          activeAsyncFinalizers := update s.activeAsyncFinalizers r (some t) }

/-- The finalizing regions with finalizers left and no barrier. -/
def regionsToProcess (s : RuntimeState) : List RegionId :=
  s.finalizingRegions.filter fun r =>
    (s.activeAsyncFinalizers r).isNone &&
      match s.region r with
      | some record => !record.finalizers.isEmpty
      | none => false

def drainRegion (s : RuntimeState) (r : RegionId) : RuntimeFlow (Option (TaskId × Nat)) :=
  (s.runSyncFinalizersTracked r).bind fun found s =>
    match found with
    | some (id, .async future) =>
      (s.spawnFinalizerTask r id).bind fun spawned s =>
        match spawned with
        | some scheduled => .ok (some scheduled) s
        | none => .ok none (s.reinsertFinalizer r id (.async future))
    | _ => .ok none s

def drainLoop : List RegionId → List (TaskId × Nat) → RuntimeState →
    RuntimeFlow (List (TaskId × Nat))
  | [], scheduled, s => .ok scheduled s
  | r :: rest, scheduled, s =>
    (s.drainRegion r).bind fun spawned s => drainLoop rest (scheduled ++ spawned.toList) s

def drainReadyAsyncFinalizers (s : RuntimeState) : RuntimeFlow (List (TaskId × Nat)) :=
  drainLoop s.regionsToProcess [] s

end AsyncFinalizers

section CancelRequest

structure CancelRegionNode where
  id : RegionId
  parent : Option RegionId
  depth : Nat
deriving DecidableEq, Repr

/-- Depth-first traversal with an explicit stack; the last child is visited first. -/
def collectLoop (s : RuntimeState) : Nat → List CancelRegionNode → List CancelRegionNode →
    Option (List CancelRegionNode)
  | _, [], result => some result
  | 0, _ :: _, _ => none
  | fuel + 1, node :: stack, result =>
    let children := match s.region node.id with
      | some record => record.children
      | none => []
    let pushed := children.map fun child => ⟨child, some node.id, node.depth + 1⟩
    collectLoop s fuel (pushed.reverse ++ stack) (result ++ [node])

/-- The target and its descendants.  Every region is visited once, so the number of
slots bounds the length of the traversal. -/
def collectRegionAndDescendantsWithDepth (s : RuntimeState) (r : RegionId) :
    Option (List CancelRegionNode) :=
  collectLoop s (s.regions.slots.length + 1) [⟨r, none, 0⟩] []

/-- The reason of a region: the request's own for the target, and the chained reason of
the parent for its descendants. -/
def regionReason (s : RuntimeState) (target : RegionId) (reason : CancelReason)
    (reasons : RegionId → Option CancelReason) (node : CancelRegionNode) : CancelReason :=
  if node.id = target then reason
  else
    match node.parent with
    | some parent =>
      ((CancelReason.parentCancelled.withRegion parent).withTimestamp
        reason.timestamp).withCauseLimited
        ((reasons parent).getD (CancelReason.withOrigin .parentCancelled parent s.now))
        s.cancelAttribution
    | none =>
      (CancelReason.parentCancelled.withTimestamp reason.timestamp).withCauseLimited reason
        s.cancelAttribution

/-- Begins the close of a region, or strengthens the reason of one that is closing. -/
def cancelRegion (reason : CancelReason) (record : RegionRecord) : RegionRecord :=
  match record.beginClose (some reason) with
  | (record', true) => record'
  | (record', false) =>
    if record'.state ≠ .closed then record'.strengthenCancelReason reason else record'

/-- First pass: reasons and states of the regions, parents first. -/
def cancelRegions (target : RegionId) (reason : CancelReason) : List CancelRegionNode →
    (RegionId → Option CancelReason) → RuntimeState →
    (RegionId → Option CancelReason) × RuntimeState
  | [], reasons, s => (reasons, s)
  | node :: rest, reasons, s =>
    let nodeReason := s.regionReason target reason reasons node
    cancelRegions target reason rest (update reasons node.id (some nodeReason))
      (s.updateRegion node.id (cancelRegion nodeReason))

/-- Cancels one task, with the entry of the result it gives. -/
def cancelOneTask (reason : CancelReason) (t : TaskId) (s : RuntimeState) :
    List (TaskId × Nat) × RuntimeState :=
  match s.task t with
  | none => ([], s)
  | some record =>
    let budget := reason.cleanupBudget
    let requested := record.requestCancelWithBudget reason budget
    (if requested.2 || requested.1.state.isCancelling then [(t, budget.priority)] else [],
      s.updateTask t fun _ => requested.1)

def cancelTasks (reason : CancelReason) : List TaskId → RuntimeState →
    List (TaskId × Nat) × RuntimeState
  | [], s => ([], s)
  | t :: rest, s =>
    let first := cancelOneTask reason t s
    let others := cancelTasks reason rest first.2
    (first.1 ++ others.1, others.2)

/-- Second pass: the tasks of the regions. -/
def cancelRegionTasks (reason : CancelReason) (reasons : RegionId → Option CancelReason) :
    List CancelRegionNode → RuntimeState → List (TaskId × Nat) × RuntimeState
  | [], s => ([], s)
  | node :: rest, s =>
    let tasks := match s.region node.id with
      | some record => record.tasks
      | none => []
    let first := cancelTasks ((reasons node.id).getD reason) tasks s
    let others := cancelRegionTasks reason reasons rest first.2
    (first.1 ++ others.1, others.2)

/-- Third pass: regions without live work advance at once. -/
def advanceIdle (node : CancelRegionNode) (s : RuntimeState) : RuntimeFlow Unit :=
  match s.region node.id with
  | none => .ok () s
  | some record =>
    if record.children = [] ∧ record.tasks = [] then s.advanceRegionState node.id
    else .ok () s

def cancelRequest (s : RuntimeState) (r : RegionId) (reason : CancelReason) :
    RuntimeFlow (List (TaskId × Nat)) :=
  match s.collectRegionAndDescendantsWithDepth r with
  | none => .outOfFuel
  | some collected =>
    let nodes := collected.mergeSort fun a b => decide (a.depth ≤ b.depth)
    let marked := cancelRegions r reason nodes (fun _ => none) s
    let cancelled := cancelRegionTasks reason marked.1 nodes marked.2
    (Flow.forEach advanceIdle nodes cancelled.2).bind fun _ s => .ok cancelled.1 s

end CancelRequest

end RuntimeState

end Asupersync
