import Asupersync.Runtime.ObligationTable
import Asupersync.Types.Outcome

/-!
# Trace events and their independence

The events of a trace, the resources each of them touches, and the independence
relation derived from the footprints.

Of the envelope of an event the version, the sequence number and the time are
kept; its logical time, which no function here reads, is left out.

**Results.**  `independent_symm`: independence is symmetric.
-/

namespace Asupersync

/-- Why a monitored or linked task went down. -/
inductive DownReason where
  | normal
  | error (message : String)
  | cancelled (reason : CancelReason)
  | panicked (payload : PanicPayload)
deriving DecidableEq, Repr

inductive TraceEventKind where
  | spawn
  | schedule
  | yield
  | wake
  | poll
  | complete
  | cancelRequest
  | cancelAck
  | workerCancelRequested
  | workerCancelAcknowledged
  | workerDrainStarted
  | workerDrainCompleted
  | workerFinalizeCompleted
  | regionCloseBegin
  | regionCloseComplete
  | regionCreated
  | regionCancelled
  | obligationReserve
  | obligationCommit
  | obligationAbort
  | obligationLeak
  | timeAdvance
  | timerScheduled
  | timerFired
  | timerCancelled
  | ioRequested
  | ioReady
  | ioResult
  | ioError
  | rngSeed
  | rngValue
  | checkpoint
  | futurelockDetected
  | chaosInjection
  | userTrace
  | monitorCreated
  | monitorDropped
  | downDelivered
  | linkCreated
  | linkDropped
  | exitDelivered
deriving DecidableEq, Repr

/-- The payload of an event. -/
inductive TraceData where
  | none
  | task (task : TaskId) (region : RegionId)
  | region (region : RegionId) (parent : Option RegionId)
  | obligation
      (obligation : ObligationId)
      (task : TaskId)
      (region : RegionId)
      (kind : ObligationKind)
      (state : ObligationState)
      (durationNs : Option UInt64)
      (abortReason : Option ObligationAbortReason)
  | cancel (task : TaskId) (region : RegionId) (reason : CancelReason)
  | worker
      (workerId : String)
      (jobId decisionSeq replayHash : UInt64)
      (task : TaskId)
      (region : RegionId)
      (obligation : ObligationId)
  | regionCancel (region : RegionId) (reason : CancelReason)
  | time (old new : Time)
  | timer (timerId : UInt64) (deadline : Option Time)
  | ioRequested (token : UInt64) (interest : UInt8)
  | ioReady (token : UInt64) (readiness : UInt8)
  | ioResult (token : UInt64) (bytes : Int64)
  | ioError (token : UInt64) (kind : UInt8)
  | rngSeed (seed : UInt64)
  | rngValue (value : UInt64)
  | checkpoint (sequence : UInt64) (activeTasks activeRegions : UInt32)
  | futurelock
      (task : TaskId)
      (region : RegionId)
      (idleSteps : UInt64)
      (held : List (ObligationId × ObligationKind))
  | monitor
      (monitorRef : UInt64)
      (watcher : TaskId)
      (watcherRegion : RegionId)
      (monitored : TaskId)
  | down
      (monitorRef : UInt64)
      (watcher monitored : TaskId)
      (completionVt : Time)
      (reason : DownReason)
  | link
      (linkRef : UInt64)
      (taskA : TaskId)
      (regionA : RegionId)
      (taskB : TaskId)
      (regionB : RegionId)
  | exit
      (linkRef : UInt64)
      (fromTask toTask : TaskId)
      (failureVt : Time)
      (reason : DownReason)
  | message (text : String)
  | chaos (kind : String) (task : Option TaskId) (detail : String)
deriving DecidableEq, Repr

structure TraceEvent where
  version : UInt32
  seq : UInt64
  time : Time
  kind : TraceEventKind
  data : TraceData
deriving DecidableEq, Repr

namespace TraceEvent

/-- An event of the current schema version. -/
def new (seq : UInt64) (time : Time) (kind : TraceEventKind) (data : TraceData) : TraceEvent :=
  { version := 1, seq := seq, time := time, kind := kind, data := data }

end TraceEvent

/-! ## Footprints -/

/-- A piece of runtime state that events access. -/
inductive Resource where
  | task (id : TaskId)
  | region (id : RegionId)
  | obligation (id : ObligationId)
  | timer (id : UInt64)
  | ioToken (id : UInt64)
  | globalClock
  | globalRng
  | globalState
deriving DecidableEq, Repr

inductive AccessMode where
  | read
  | write
deriving DecidableEq, Repr

structure ResourceAccess where
  resource : Resource
  mode : AccessMode
deriving DecidableEq, Repr

namespace ResourceAccess

def read (resource : Resource) : ResourceAccess := ⟨resource, .read⟩

def write (resource : Resource) : ResourceAccess := ⟨resource, .write⟩

end ResourceAccess

/-- The same resource, and at least one of the two accesses writes it. -/
def accessesConflict (a b : ResourceAccess) : Bool :=
  decide (a.resource = b.resource) && (decide (a.mode = .write) || decide (b.mode = .write))

open ResourceAccess in
/-- The accesses of an event.  A kind with a payload that does not belong to it falls
back to a write of the global state. -/
def resourceFootprint (event : TraceEvent) : List ResourceAccess :=
  match event.kind with
  | .spawn | .schedule | .yield | .wake | .poll | .complete =>
    match event.data with
    | .task task region => [write (.task task), read (.region region)]
    | _ => fallback
  | .cancelAck =>
    match event.data with
    | .cancel task region _ => [write (.task task), read (.region region)]
    | _ => fallback
  -- Cancellation propagates from the region.
  | .cancelRequest =>
    match event.data with
    | .cancel task region _ => [write (.task task), write (.region region)]
    | _ => fallback
  | .regionCreated =>
    match event.data with
    | .region region parent =>
      write (.region region) :: (parent.map (fun p => read (.region p))).toList
    | _ => fallback
  | .regionCloseBegin | .regionCloseComplete =>
    match event.data with
    | .region region _ => [write (.region region)]
    | _ => fallback
  | .regionCancelled =>
    match event.data with
    | .regionCancel region _ => [write (.region region)]
    | _ => fallback
  | .obligationReserve | .obligationCommit | .obligationAbort | .obligationLeak =>
    match event.data with
    | .obligation obligation task region _ _ _ _ =>
      [write (.obligation obligation), read (.task task), read (.region region)]
    | _ => fallback
  | .timeAdvance => [write .globalClock]
  | .timerScheduled | .timerFired | .timerCancelled =>
    match event.data with
    | .timer timerId _ => [write (.timer timerId), read .globalClock]
    | _ => fallback
  | .ioRequested =>
    match event.data with
    | .ioRequested token _ => [write (.ioToken token)]
    | _ => fallback
  | .ioReady =>
    match event.data with
    | .ioReady token _ => [write (.ioToken token)]
    | _ => fallback
  | .ioResult =>
    match event.data with
    | .ioResult token _ => [write (.ioToken token)]
    | _ => fallback
  | .ioError =>
    match event.data with
    | .ioError token _ => [write (.ioToken token)]
    | _ => fallback
  | .rngSeed | .rngValue => [write .globalRng]
  | .checkpoint => [read .globalState]
  | .futurelockDetected =>
    match event.data with
    | .futurelock task region _ _ => [read (.task task), read (.region region)]
    | _ => fallback
  | .chaosInjection =>
    match event.data with
    | .chaos _ task _ => write .globalState :: (task.map (fun t => write (.task t))).toList
    | _ => fallback
  | .userTrace => []
  | .monitorCreated | .monitorDropped =>
    match event.data with
    | .monitor _ watcher watcherRegion monitored =>
      [write (.task watcher), read (.region watcherRegion), read (.task monitored)]
    | _ => fallback
  | .downDelivered =>
    match event.data with
    | .down _ watcher monitored _ _ =>
      [write (.task watcher), read (.task monitored), read .globalClock]
    | _ => fallback
  | .linkCreated | .linkDropped =>
    match event.data with
    | .link _ taskA regionA taskB regionB =>
      [write (.task taskA), read (.region regionA), write (.task taskB),
        read (.region regionB)]
    | _ => fallback
  | .exitDelivered =>
    match event.data with
    | .exit _ fromTask toTask _ _ =>
      [read (.task fromTask), write (.task toTask), read .globalClock]
    | _ => fallback
  | .workerCancelRequested | .workerCancelAcknowledged | .workerDrainStarted
  | .workerDrainCompleted | .workerFinalizeCompleted => fallback
where
  fallback : List ResourceAccess := [write .globalState]

/-- Different events without conflicting accesses. -/
def independent (a b : TraceEvent) : Bool :=
  if a.seq = b.seq then false
  else
    let fa := resourceFootprint a
    let fb := resourceFootprint b
    if fa.isEmpty || fb.isEmpty then true
    else fa.all (fun ra => fb.all (fun rb => !accessesConflict ra rb))

theorem accessesConflict_comm (a b : ResourceAccess) :
    accessesConflict a b = accessesConflict b a := by
  unfold accessesConflict
  rw [Bool.or_comm]
  congr 1
  exact decide_eq_decide.mpr eq_comm

theorem independent_iff {a b : TraceEvent} :
    independent a b = true ↔
      a.seq ≠ b.seq ∧
        ∀ ra ∈ resourceFootprint a, ∀ rb ∈ resourceFootprint b,
          accessesConflict ra rb = false := by
  unfold independent
  by_cases hseq : a.seq = b.seq
  · simp [hseq]
  · rw [if_neg hseq]
    simp only [hseq, ne_eq, not_false_eq_true, true_and]
    split
    · rename_i hempty
      rcases Bool.or_eq_true_iff.mp hempty with h | h <;> simp [List.isEmpty_iff.mp h]
    · simp

theorem independent_symm (a b : TraceEvent) (h : independent a b = true) :
    independent b a = true := by
  obtain ⟨hseq, hfootprints⟩ := independent_iff.mp h
  refine independent_iff.mpr ⟨hseq.symm, ?_⟩
  intro rb hrb ra hra
  rw [accessesConflict_comm]
  exact hfootprints ra hra rb hrb

end Asupersync
