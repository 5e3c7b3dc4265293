import Asupersync.Record.TaskLifecycle
import Asupersync.Runtime.State

/-!
# Runs of the runtime state

The operations on the runtime state as the labels of a transition system.

A scope closes its region without a reason (`closeRegion`).  Tasks move through
their lifecycle with `taskOp`.  The setters of the leak policy, the cause chain
limits and the clock are `configure`.

An operation that panics with leaked obligations leaves the state it unwinds from,
and the run goes on from there.  The remaining panics end a run: they are arena
or number overflows, and the finalizer panics that cannot happen.
-/

namespace Asupersync

open Lib

inductive RuntimeSetting where
  | now (time : Time)
  | cancelAttribution (config : CancelAttributionConfig)
  | obligationLeakResponse (response : ObligationLeakResponse)
  | leakEscalation (escalation : Option LeakEscalation)
  | threadPanicking (panicking : Bool)

inductive RuntimeOp where
  | createRootRegion (budget : Budget)
  | createChildRegion (parent : RegionId) (budget : Budget) (pressure : Option String)
  | setRegionLimits (region : RegionId) (limits : RegionLimits)
  | closeRegion (region : RegionId)
  | createTask (region : RegionId) (budget : Budget)
  | taskOp (task : TaskId) (op : TaskOp)
  | addWaiter (task waiter : TaskId)
  | createObligation (kind : ObligationKind) (holder : TaskId) (region : RegionId)
      (description : Option String)
  | commitObligation (obligation : ObligationId)
  | abortObligation (obligation : ObligationId) (reason : ObligationAbortReason)
  | markObligationLeaked (obligation : ObligationId)
  | registerFinalizer (region : RegionId) (finalizer : Finalizer)
  | cancelRequest (region : RegionId) (reason : CancelReason)
  | taskCompleted (task : TaskId)
  | drainReadyAsyncFinalizers
  | advanceRegionState (region : RegionId)
  | runSyncFinalizers (region : RegionId)
  | popRegionFinalizer (region : RegionId)
  | configure (setting : RuntimeSetting)

inductive RuntimeReply where
  | done
  | flag (value : Bool)
  | region (result : Except RegionCreateError RegionId)
  | task (result : Except SpawnError TaskId)
  | obligation (result : Except ObligationError ObligationId)
  | resolved (result : Except ObligationError Nat)
  | scheduled (tasks : List (TaskId × Nat))
  | waiters (tasks : List TaskId)
  | finalizer (finalizer : Option Finalizer)
  | panicked (cause : RuntimePanic)

structure RuntimeEvent where
  op : RuntimeOp
  reply : RuntimeReply

/-- `add_waiter`: a task waits at most once. -/
def TaskRecord.addWaiter (t : TaskRecord) (waiter : TaskId) : TaskRecord :=
  if waiter ∈ t.waiters then t else { t with waiters := t.waiters ++ [waiter] }

namespace RuntimeState

def configure (s : RuntimeState) : RuntimeSetting → RuntimeState
  | .now time => { s with now := time }
  | .cancelAttribution config => { s with cancelAttribution := config }
  | .obligationLeakResponse response => { s with obligationLeakResponse := response }
  | .leakEscalation escalation => { s with leakEscalation := escalation }
  | .threadPanicking panicking => { s with threadPanicking := panicking }

/-- The value of an operation as a reply. -/
def replying {α : Type} (reply : α → RuntimeReply) (flow : RuntimeFlow α) :
    RuntimeFlow RuntimeReply :=
  flow.bind fun value s => .ok (reply value) s

def exec (s : RuntimeState) : RuntimeOp → RuntimeFlow RuntimeReply
  | .createRootRegion budget => replying (fun r => .region (.ok r)) (s.createRootRegion budget)
  | .createChildRegion parent budget pressure =>
    replying .region (s.createChildRegion parent budget pressure)
  | .setRegionLimits r limits =>
    .ok (.flag (s.region r).isSome) (s.updateRegion r (·.setLimits limits))
  | .closeRegion r => .ok .done (s.updateRegion r fun record => (record.beginClose none).1)
  | .createTask r budget => replying .task (s.createTask r budget)
  | .taskOp t op => .ok .done (s.updateTask t fun record => (record.exec op).1)
  | .addWaiter t waiter => .ok .done (s.updateTask t (·.addWaiter waiter))
  | .createObligation kind holder r description =>
    replying .obligation (s.createObligation kind holder r description)
  | .commitObligation o => replying .resolved (s.commitObligation advanceRegionState o)
  | .abortObligation o reason => replying .resolved (s.abortObligation advanceRegionState o reason)
  | .markObligationLeaked o => replying .resolved (s.markObligationLeaked advanceRegionState o)
  | .registerFinalizer r finalizer => replying .flag (s.registerFinalizer r finalizer)
  | .cancelRequest r reason => replying .scheduled (s.cancelRequest r reason)
  | .taskCompleted t => replying .waiters (s.taskCompleted t)
  | .drainReadyAsyncFinalizers => replying .scheduled s.drainReadyAsyncFinalizers
  | .advanceRegionState r => replying (fun _ => .done) (s.advanceRegionState r)
  | .runSyncFinalizers r => replying .finalizer (s.runSyncFinalizers r)
  | .popRegionFinalizer r => replying .finalizer (s.popRegionFinalizer r)
  | .configure setting => .ok .done (s.configure setting)

end RuntimeState

/-- One operation with its reply. -/
inductive RuntimeStep (s : RuntimeState) : RuntimeEvent → RuntimeState → Prop
  | returned {op : RuntimeOp} {reply : RuntimeReply} {s' : RuntimeState}
      (h : s.exec op = .ok reply s') : RuntimeStep s ⟨op, reply⟩ s'
  | leaked {op : RuntimeOp} {s' : RuntimeState}
      (h : s.exec op = .panic .obligationLeaks s') :
      RuntimeStep s ⟨op, .panicked .obligationLeaks⟩ s'

theorem RuntimeStep.eq_of_ok {s s' s₀ : RuntimeState} {op : RuntimeOp} {reply reply₀ : RuntimeReply}
    (h : RuntimeStep s ⟨op, reply⟩ s') (hexec : s.exec op = .ok reply₀ s₀) :
    reply = reply₀ ∧ s' = s₀ := by
  cases h with
  | returned hret =>
    cases hret.symm.trans hexec
    exact ⟨rfl, rfl⟩
  | leaked hret => cases hret.symm.trans hexec

def runtimeSystem : TransitionSystem RuntimeState RuntimeEvent where
  init s := s = .new
  step s e s' := RuntimeStep s e s'

/-- Performs operations one after the other, up to one that does not return. -/
def perform : List RuntimeOp → RuntimeState → List RuntimeEvent × RuntimeState
  | [], s => ([], s)
  | op :: rest, s =>
    match s.exec op with
    | .ok reply s' => (⟨op, reply⟩ :: (perform rest s').1, (perform rest s').2)
    | .panic _ _ | .outOfFuel => ([], s)

theorem perform_run (ops : List RuntimeOp) (s : RuntimeState) :
    runtimeSystem.Run s (perform ops s).1 (perform ops s).2 := by
  induction ops generalizing s with
  | nil => exact .nil
  | cons op rest ih =>
    unfold perform
    cases hexec : s.exec op with
    | ok reply s' =>
      have hfirst : runtimeSystem.Run s [⟨op, reply⟩] s' :=
        .single (RuntimeStep.returned hexec)
      exact hfirst.append (ih s')
    | panic cause s' | outOfFuel => exact .nil

end Asupersync
