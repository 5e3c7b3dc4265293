import Asupersync.Scheduler.GlobalInjector
import Asupersync.Scheduler.LocalQueue

/-!
# The three-lane worker

One worker of the multi-worker scheduler, and its `next_task`: cancel work before
timed work before ready work, with streak counters that bound how long one kind
of work can keep the others waiting.

**Input of a call.**  What the worker reads from outside is collected in
`CallInput`: the governor's suggestion, the cancel limit in force (fixed or chosen
by the adaptive policy), the time, random numbers, the outcome of `try_lock`s, the
size of a ready batch, the task table.

**Representation.**  The prefetch buffer of global ready work is a list with its
next task first.  A dispatch records the queue that the task was taken from; the
source returns the task only.
-/

namespace Asupersync

open Lib

inductive SchedulingSuggestion where
  | drainObligations
  | drainRegions
  | meetDeadlines
  | noPreference
deriving DecidableEq, Repr

/-- Where a dispatched task was taken from. -/
inductive DispatchSource where
  | cancel
  | timed
  | localReady
  | fastQueue
  | globalReady
  | readyHeap
  | stolen
deriving DecidableEq, Repr

structure Dispatch where
  task : TaskId
  source : DispatchSource
deriving DecidableEq, Repr

structure PreemptionMetrics where
  cancelDispatches : Nat := 0
  timedDispatches : Nat := 0
  readyDispatches : Nat := 0
  fairnessYields : Nat := 0
  maxReadyDispatchStall : Nat := 0
  maxTimedDispatchStall : Nat := 0
  readyPriorityInversions : Nat := 0
  maxReadyPriorityInversionGap : Nat := 0
  maxCancelStreak : Nat := 0
  fallbackCancelDispatches : Nat := 0
  baseLimitExceedances : Nat := 0
  effectiveLimitExceedances : Nat := 0
  maxEffectiveLimitObserved : Nat := 0
  adaptiveCurrentLimit : Nat := 0
  browserReadyHandoffYields : Nat := 0
  globalReadyBatchDrains : Nat := 0
  globalReadyBatchTasks : Nat := 0
deriving DecidableEq, Repr

/-- The places of `next_task` that draw a random number. -/
inductive HintSite where
  | gate
  | lanes
  | ready
  | fallback
  | stealFastPreferred
  | stealFastRemote
  | stealHeapPreferred
  | stealHeapRemote
deriving DecidableEq, Repr

/-- What a call of `next_task` reads from outside the worker. -/
structure CallInput where
  suggestion : SchedulingSuggestion
  /-- The fixed limit, or the current limit of the adaptive policy. -/
  cancelStreakLimit : Nat
  now : Time
  hint : HintSite → UInt64
  /-- The selected size of a batch of global ready tasks. -/
  readyBatchSize : Nat
  schedPriority : TaskId → Option Nat
  arena : TaskArenaView
  localLocked : Bool
  localReadyLocked : Bool
  stealerLocked : Nat → Bool

def CallInput.baseLimit (c : CallInput) : Nat := max c.cancelStreakLimit 1

def CallInput.effectiveLimit (c : CallInput) : Nat :=
  match c.suggestion with
  | .drainObligations | .drainRegions => min (c.baseLimit * 2) usizeMax
  | _ => c.baseLimit

theorem CallInput.effectiveLimit_pos (c : CallInput) : 0 < c.effectiveLimit := by
  have hbase : 1 ≤ c.baseLimit := le_max_right _ _
  unfold effectiveLimit
  split
  · exact lt_min (by omega) (by decide)
  · exact lt_min (by omega) (by decide)
  · exact hbase

/-- The limits and sizes a worker is built with. -/
structure WorkerConfig where
  browserReadyHandoffLimit : Nat
  fastQueueFairnessLimit : Nat
  timedFairnessLimit : Nat
  preferredFastStealerCount : Nat
  preferredHeapStealerCount : Nat
  stealBatchSize : Nat
deriving DecidableEq, Repr

/-- The limits of a worker built without options, all of whose peers are preferred. -/
def WorkerConfig.defaults (peers : Nat) : WorkerConfig :=
  { browserReadyHandoffLimit := 0
    fastQueueFairnessLimit := 4
    timedFairnessLimit := 6
    preferredFastStealerCount := peers
    preferredHeapStealerCount := peers
    stealBatchSize := 4 }

structure ThreeLaneWorker where
  config : WorkerConfig
  global : GlobalInjector
  localHeap : Scheduler
  localReady : List TaskId
  fastQueue : LocalQueue
  globalReadyBuffer : List PriorityTask
  fastStealers : List LocalQueue
  stealers : List Scheduler
  cancelStreak : Nat
  readyDispatchStreak : Nat
  fastQueueDispatchStreak : Nat
  timedDispatchStreak : Nat
  preemptionMetrics : PreemptionMetrics

/-- `LocalQueue::pop` with its check of the published length. -/
def LocalQueue.popFast (q : LocalQueue) : Option TaskId × LocalQueue :=
  if q.cachedLen = 0 then (none, q) else (q.pop.2, q.pop.1)

def LocalQueue.isEmpty (q : LocalQueue) : Bool := decide (q.cachedLen = 0)

def globalReadyBatchDrainMinDepth : Nat := 8

namespace ThreeLaneWorker

/-- Runs the second step if the first one finds no task. -/
def orElse (first : Option Dispatch × ThreeLaneWorker)
    (second : ThreeLaneWorker → Option Dispatch × ThreeLaneWorker) :
    Option Dispatch × ThreeLaneWorker :=
  match first with
  | (some dispatch, w) => (some dispatch, w)
  | (none, w) => second w

def recordCancelDispatch (w : ThreeLaneWorker) (baseLimit effectiveLimit : Nat) :
    ThreeLaneWorker :=
  { w with
    timedDispatchStreak := 0
    preemptionMetrics :=
      { w.preemptionMetrics with
        cancelDispatches := w.preemptionMetrics.cancelDispatches + 1
        maxCancelStreak := max w.preemptionMetrics.maxCancelStreak w.cancelStreak
        baseLimitExceedances :=
          if baseLimit < w.cancelStreak then w.preemptionMetrics.baseLimitExceedances + 1
          else w.preemptionMetrics.baseLimitExceedances
        effectiveLimitExceedances :=
          if effectiveLimit < w.cancelStreak then
            w.preemptionMetrics.effectiveLimitExceedances + 1
          else w.preemptionMetrics.effectiveLimitExceedances } }

def recordTimedDispatch (w : ThreeLaneWorker) : ThreeLaneWorker :=
  { w with
    cancelStreak := 0
    readyDispatchStreak := 0
    preemptionMetrics :=
      { w.preemptionMetrics with
        maxTimedDispatchStall := max w.preemptionMetrics.maxTimedDispatchStall w.cancelStreak
        timedDispatches := w.preemptionMetrics.timedDispatches + 1 } }

def recordReadyDispatch (w : ThreeLaneWorker) : ThreeLaneWorker :=
  { w with
    cancelStreak := 0
    readyDispatchStreak := min (w.readyDispatchStreak + 1) usizeMax
    timedDispatchStreak := 0
    preemptionMetrics :=
      { w.preemptionMetrics with
        maxReadyDispatchStall := max w.preemptionMetrics.maxReadyDispatchStall w.cancelStreak
        readyDispatches := w.preemptionMetrics.readyDispatches + 1 } }

def recordReadyPriorityInversion (w : ThreeLaneWorker)
    (blockedTask : Option SchedulerEntry) (executingPriority : Option Nat) : ThreeLaneWorker :=
  match blockedTask, executingPriority with
  | some blocked, some executing =>
    if blocked.priority ≤ executing then w
    else
      { w with
        preemptionMetrics :=
          { w.preemptionMetrics with
            readyPriorityInversions := w.preemptionMetrics.readyPriorityInversions + 1
            maxReadyPriorityInversionGap :=
              max w.preemptionMetrics.maxReadyPriorityInversionGap
                (blocked.priority - executing) } }
  | _, _ => w

/-- `peek_blocked_local_ready_for_inversion`; the peek prunes the ready lane. -/
def peekBlockedLocalReady (w : ThreeLaneWorker) (c : CallInput) :
    Option SchedulerEntry × ThreeLaneWorker :=
  if c.localLocked then (none, w)
  else
    (w.localHeap.nextValidReadyEntry.1, { w with localHeap := w.localHeap.nextValidReadyEntry.2 })

/-- A cancel dispatch below the limit: the streak grows. -/
def dispatchCancel (w : ThreeLaneWorker) (c : CallInput) (task : TaskId) :
    Option Dispatch × ThreeLaneWorker :=
  (some ⟨task, .cancel⟩,
    { w with
      cancelStreak := w.cancelStreak + 1
      readyDispatchStreak := 0 }.recordCancelDispatch c.baseLimit c.effectiveLimit)

/-- A timed dispatch; under deadline pressure the timed streak grows. -/
def dispatchTimed (w : ThreeLaneWorker) (counted : Bool) (task : TaskId) :
    Option Dispatch × ThreeLaneWorker :=
  (some ⟨task, .timed⟩,
    if counted then
      { w.recordTimedDispatch with timedDispatchStreak := w.timedDispatchStreak + 1 }
    else w.recordTimedDispatch)

def tryGlobalCancel (w : ThreeLaneWorker) (c : CallInput) : Option Dispatch × ThreeLaneWorker :=
  match w.global.popCancel with
  | (some pt, g) => { w with global := g }.dispatchCancel c pt.task
  | (none, g) => (none, { w with global := g })

def tryLocalCancel (w : ThreeLaneWorker) (c : CallInput) : Option Dispatch × ThreeLaneWorker :=
  match w.localHeap.popCancelOnlyWithHint (c.hint .lanes) with
  | (some task, heap) => { w with localHeap := heap }.dispatchCancel c task
  | (none, heap) => (none, { w with localHeap := heap })

def tryGlobalTimed (w : ThreeLaneWorker) (c : CallInput) (counted : Bool) :
    Option Dispatch × ThreeLaneWorker :=
  match w.global.popTimedIfDue c.now with
  | (some tt, g) => { w with global := g }.dispatchTimed counted tt.task
  | (none, g) => (none, { w with global := g })

def tryLocalTimed (w : ThreeLaneWorker) (c : CallInput) (counted : Bool) :
    Option Dispatch × ThreeLaneWorker :=
  match w.localHeap.popTimedOnlyWithHint (c.hint .lanes) c.now with
  | (some task, heap) => { w with localHeap := heap }.dispatchTimed counted task
  | (none, heap) => (none, { w with localHeap := heap })

/-- The local ready lane, with the reset of the stolen-work streak. -/
def tryReadyHeap (w : ThreeLaneWorker) (c : CallInput) (site : HintSite) :
    Option Dispatch × ThreeLaneWorker :=
  match w.localHeap.popReadyOnlyWithHint (c.hint site) with
  | (some task, heap) =>
    (some ⟨task, .readyHeap⟩,
      { { w with localHeap := heap }.recordReadyDispatch with fastQueueDispatchStreak := 0 })
  | (none, heap) => (none, { w with localHeap := heap })

/-- A ready dispatch from a shared queue: it is compared with the task it overtakes
in the local ready lane, and sets the stolen-work streak. -/
def dispatchReady (w : ThreeLaneWorker) (c : CallInput) (dispatch : Dispatch)
    (executingPriority : Option Nat) (fastStreak : Nat) : Option Dispatch × ThreeLaneWorker :=
  let blocked := w.peekBlockedLocalReady c
  (some dispatch,
    { (blocked.2.recordReadyPriorityInversion blocked.1 executingPriority).recordReadyDispatch
      with fastQueueDispatchStreak := fastStreak })

def tryFastQueue (w : ThreeLaneWorker) (c : CallInput) : Option Dispatch × ThreeLaneWorker :=
  match w.fastQueue.popFast with
  | (some task, queue) =>
    { w with fastQueue := queue }.dispatchReady c ⟨task, .fastQueue⟩ (c.schedPriority task)
      (w.fastQueueDispatchStreak + 1)
  | (none, queue) => (none, { w with fastQueue := queue })

def popGlobalReady (w : ThreeLaneWorker) : Option PriorityTask × ThreeLaneWorker :=
  (w.global.popReady.1, { w with global := w.global.popReady.2 })

def takeGlobalReadyTask (w : ThreeLaneWorker) (c : CallInput) :
    Option PriorityTask × ThreeLaneWorker :=
  match w.globalReadyBuffer with
  | prefetched :: rest => (some prefetched, { w with globalReadyBuffer := rest })
  | [] =>
    let batchSize := max c.readyBatchSize 1
    let batchThreshold := max (min (batchSize * 2) usizeMax) globalReadyBatchDrainMinDepth
    if 1 < batchSize ∧ batchThreshold ≤ w.global.readyCount then
      match w.global.popReadyBatchInto batchSize with
      | (first :: rest, g) =>
        (some first,
          { w with
            global := g
            globalReadyBuffer := rest
            preemptionMetrics :=
              { w.preemptionMetrics with
                globalReadyBatchDrains := w.preemptionMetrics.globalReadyBatchDrains + 1
                globalReadyBatchTasks :=
                  w.preemptionMetrics.globalReadyBatchTasks + (rest.length + 1) } })
      | ([], g) => { w with global := g }.popGlobalReady
    else w.popGlobalReady

def tryGlobalReady (w : ThreeLaneWorker) (c : CallInput) : Option Dispatch × ThreeLaneWorker :=
  match w.takeGlobalReadyTask c with
  | (some pt, w) => w.dispatchReady c ⟨pt.task, .globalReady⟩ (some pt.priority) 0
  | (none, w) => (none, w)

def tryLocalReady (w : ThreeLaneWorker) : Option Dispatch × ThreeLaneWorker :=
  match w.localReady with
  | task :: rest =>
    (some ⟨task, .localReady⟩,
      { { w with localReady := rest }.recordReadyDispatch with fastQueueDispatchStreak := 0 })
  | [] => (none, w)

def tryPhase3ReadyWork (w : ThreeLaneWorker) (c : CallInput) (site : HintSite) :
    Option Dispatch × ThreeLaneWorker :=
  orElse w.tryLocalReady fun w =>
    let shouldPrioritizeLocal :=
      decide (w.config.fastQueueFairnessLimit ≤ w.fastQueueDispatchStreak)
    orElse (if shouldPrioritizeLocal then w.tryReadyHeap c site else (none, w)) fun w =>
      orElse (w.tryFastQueue c) fun w =>
        orElse (w.tryGlobalReady c) fun w =>
          if shouldPrioritizeLocal then (none, w) else w.tryReadyHeap c site

/-- The order in which the peers of a segment are probed: round robin from a
random start. -/
def probeOrder (rngHint : UInt64) (segmentStart segmentLen : Nat) : List Nat :=
  (List.range segmentLen).map fun i =>
    segmentStart + (rngHint.toNat % segmentLen + i) % segmentLen

/-- Steals one task from the fast queues of the peers, in the given order. -/
def stealFast (c : CallInput) : List Nat → ThreeLaneWorker → Option TaskId × ThreeLaneWorker
  | [], w => (none, w)
  | idx :: rest, w =>
    match w.fastStealers[idx]? with
    | none => stealFast c rest w
    | some victim =>
      match victim.steal c.arena with
      | (victim, some task) =>
        (some task, { w with fastStealers := w.fastStealers.set idx victim })
      | (victim, none) =>
        stealFast c rest { w with fastStealers := w.fastStealers.set idx victim }

/-- What a batch steal keeps beside its first task goes to the local ready lane
if that has work, and to the fast queue otherwise. -/
def keepStolen (w : ThreeLaneWorker) (kept : List (TaskId × Nat)) : ThreeLaneWorker :=
  if kept = [] then w
  else
    match w.localHeap.nextValidReadyEntry with
    | (some _, heap) =>
      { w with localHeap := kept.foldl (fun heap entry => heap.schedule entry.1 entry.2) heap }
    | (none, heap) =>
      { w with
        localHeap := heap
        fastQueue := kept.reverse.foldl (fun queue entry => queue.push entry.1) w.fastQueue }

/-- Steals a batch from the ready lanes of the peers, in the given order. -/
def stealHeap (c : CallInput) : List Nat → ThreeLaneWorker → Option TaskId × ThreeLaneWorker
  | [], w => (none, w)
  | idx :: rest, w =>
    match w.stealers[idx]? with
    | none => stealHeap c rest w
    | some victim =>
      if c.stealerLocked idx then stealHeap c rest w
      else
        match victim.stealReadyBatch w.config.stealBatchSize with
        | ((first, _) :: kept, victim) =>
          (some first, { w with stealers := w.stealers.set idx victim }.keepStolen kept)
        | ([], victim) => stealHeap c rest { w with stealers := w.stealers.set idx victim }

def trySteal (w : ThreeLaneWorker) (c : CallInput) : Option TaskId × ThreeLaneWorker :=
  let preferredFast := min w.config.preferredFastStealerCount w.fastStealers.length
  let fastOrder := probeOrder (c.hint .stealFastPreferred) 0 preferredFast ++
    probeOrder (c.hint .stealFastRemote) preferredFast (w.fastStealers.length - preferredFast)
  let preferredHeap := min w.config.preferredHeapStealerCount w.stealers.length
  let heapOrder := probeOrder (c.hint .stealHeapPreferred) 0 preferredHeap ++
    probeOrder (c.hint .stealHeapRemote) preferredHeap (w.stealers.length - preferredHeap)
  match stealFast c fastOrder w with
  | (some task, w) => (some task, w)
  | (none, w) => stealHeap c heapOrder w

def tryCancelWork (w : ThreeLaneWorker) (c : CallInput) : Option TaskId × ThreeLaneWorker :=
  match w.global.popCancel with
  | (some pt, g) => (some pt.task, { w with global := g })
  | (none, g) =>
    match w.localHeap.popCancelOnlyWithHint (c.hint .fallback) with
    | (task, heap) => (task, { w with global := g, localHeap := heap })

/-- The metrics that a call updates before it looks for work. -/
def beginCall (w : ThreeLaneWorker) (c : CallInput) : ThreeLaneWorker :=
  { w with
    preemptionMetrics :=
      { w.preemptionMetrics with
        adaptiveCurrentLimit := c.baseLimit
        maxEffectiveLimitObserved :=
          max w.preemptionMetrics.maxEffectiveLimitObserved c.effectiveLimit
        fairnessYields :=
          if w.cancelStreak < c.effectiveLimit then w.preemptionMetrics.fairnessYields
          else w.preemptionMetrics.fairnessYields + 1 } }

/-- Ready work is probed before more timed work once the timed streak is full. -/
def timedGate (w : ThreeLaneWorker) (c : CallInput) (checkTimed : Bool) :
    Option Dispatch × ThreeLaneWorker :=
  if !checkTimed && decide (c.suggestion = .meetDeadlines) then
    match w.tryPhase3ReadyWork c .gate with
    | (some dispatch, w) => (some dispatch, { w with timedDispatchStreak := 0 })
    | (none, w) =>
      (none,
        { w with
          preemptionMetrics :=
            { w.preemptionMetrics with
              fairnessYields := w.preemptionMetrics.fairnessYields + 1 } })
  else (none, w)

/-- A lane that is only looked at under a condition. -/
def onlyIf (cond : Bool) (lane : ThreeLaneWorker → Option Dispatch × ThreeLaneWorker)
    (w : ThreeLaneWorker) : Option Dispatch × ThreeLaneWorker :=
  if cond then lane w else (none, w)

/-- The first global lane. -/
def phase1 (w : ThreeLaneWorker) (c : CallInput) (checkCancel checkTimed : Bool) :
    Option Dispatch × ThreeLaneWorker :=
  if decide (c.suggestion = .meetDeadlines) && checkTimed then w.tryGlobalTimed c true
  else onlyIf checkCancel (·.tryGlobalCancel c) w

/-- The remaining cancel and timed lanes, in the order of the suggestion. -/
def phase2 (w : ThreeLaneWorker) (c : CallInput) (checkCancel checkTimed : Bool) :
    Option Dispatch × ThreeLaneWorker :=
  if decide (c.suggestion = .meetDeadlines) && checkTimed then
    orElse (w.tryLocalTimed c true) fun w =>
      orElse (onlyIf checkCancel (·.tryGlobalCancel c) w) fun w =>
        onlyIf checkCancel (·.tryLocalCancel c) w
  else
    orElse (onlyIf checkCancel (·.tryLocalCancel c) w) fun w =>
      orElse (w.tryGlobalTimed c false) fun w => w.tryLocalTimed c false

/-- The test of the local ready lane prunes it. -/
def shouldForceReadyHandoff (w : ThreeLaneWorker) (c : CallInput) : Bool × ThreeLaneWorker :=
  if w.config.browserReadyHandoffLimit = 0 ∨
      w.readyDispatchStreak < w.config.browserReadyHandoffLimit then (false, w)
  else if !w.fastQueue.isEmpty || !w.globalReadyBuffer.isEmpty || w.global.hasReadyWork then
    (true, w)
  else if !c.localReadyLocked && !w.localReady.isEmpty then (true, w)
  else (w.localHeap.hasReadyWork.1, { w with localHeap := w.localHeap.hasReadyWork.2 })

/-- The one-shot handoff to the host. -/
def handoff (w : ThreeLaneWorker) : ThreeLaneWorker :=
  { w with
    cancelStreak := 0
    readyDispatchStreak := 0
    preemptionMetrics :=
      { w.preemptionMetrics with
        browserReadyHandoffYields := w.preemptionMetrics.browserReadyHandoffYields + 1 } }

/-- Stealing from other workers. -/
def phase4 (w : ThreeLaneWorker) (c : CallInput) : Option Dispatch × ThreeLaneWorker :=
  match w.trySteal c with
  | (some task, w) => (some ⟨task, .stolen⟩, w.recordReadyDispatch)
  | (none, w) => (none, w)

/-- The fallback for cancel work that the streak limit has deferred. -/
def phase5 (w : ThreeLaneWorker) (c : CallInput) (checkCancel : Bool) :
    Option Dispatch × ThreeLaneWorker :=
  if checkCancel then (none, { w with readyDispatchStreak := 0 })
  else
    match w.tryCancelWork c with
    | (some task, w) =>
      (some ⟨task, .cancel⟩,
        { w with
          cancelStreak := 1
          readyDispatchStreak := 0
          preemptionMetrics :=
            { w.preemptionMetrics with
              fallbackCancelDispatches := w.preemptionMetrics.fallbackCancelDispatches + 1 }
          }.recordCancelDispatch c.baseLimit c.effectiveLimit)
    | (none, w) => (none, { w with cancelStreak := 0, readyDispatchStreak := 0 })

def nextTask (w : ThreeLaneWorker) (c : CallInput) : Option Dispatch × ThreeLaneWorker :=
  let checkCancel := decide (w.cancelStreak < c.effectiveLimit)
  let checkTimed := decide (w.timedDispatchStreak < w.config.timedFairnessLimit)
  orElse ((w.beginCall c).timedGate c checkTimed) fun w =>
    orElse (w.phase1 c checkCancel checkTimed) fun w =>
      orElse (w.phase2 c checkCancel checkTimed) fun w =>
        match w.shouldForceReadyHandoff c with
        | (true, w) => (none, w.handoff)
        | (false, w) =>
          orElse (w.tryPhase3ReadyWork c .ready) fun w =>
            orElse (w.phase4 c) fun w => w.phase5 c checkCancel

/-- What `run_loop` does after a backoff. -/
def afterBackoff (w : ThreeLaneWorker) : ThreeLaneWorker :=
  { w with cancelStreak := 0, readyDispatchStreak := 0 }

structure PreemptionFairnessCertificate where
  baseLimit : Nat
  effectiveLimit : Nat
  observedMaxCancelStreak : Nat
  effectiveLimitExceedances : Nat
deriving DecidableEq, Repr

/-- The certificate's limits and cancel fields; its other fields copy metrics. -/
def preemptionFairnessCertificate (w : ThreeLaneWorker) (adaptiveCurrentLimit : Nat) :
    PreemptionFairnessCertificate :=
  { baseLimit := adaptiveCurrentLimit
    effectiveLimit :=
      max (max w.preemptionMetrics.maxEffectiveLimitObserved adaptiveCurrentLimit) 1
    observedMaxCancelStreak := w.preemptionMetrics.maxCancelStreak
    effectiveLimitExceedances := w.preemptionMetrics.effectiveLimitExceedances }

/-- A worker with empty queues. -/
def new (config : WorkerConfig) (capacity : Nat) (peers : Nat) : ThreeLaneWorker :=
  { config := config
    global := .new
    localHeap := Scheduler.withCapacity capacity
    localReady := []
    fastQueue := .new
    globalReadyBuffer := []
    fastStealers := List.replicate peers .new
    stealers := List.replicate peers (Scheduler.withCapacity capacity)
    cancelStreak := 0
    readyDispatchStreak := 0
    fastQueueDispatchStreak := 0
    timedDispatchStreak := 0
    preemptionMetrics := {} }

end ThreeLaneWorker
end Asupersync
