import Asupersync.Lib.Streak
import Asupersync.Scheduler.ThreeLaneSpec

/-!
# Fairness of the three-lane worker

How long cancel work, the fast queue and timed work can keep other work waiting,
along every sequence of `next_task` calls of one worker.

**Runs.**  Between two calls the environment may change the queues in any way: the
injections of `Injection` are some of the ways.  A call carries the worker it was
made on, so that a condition can be put on the work available there.  A call
without a task may be followed by a backoff.

**Results.**
* `three_lane_fairness`: the bounds on cancel dispatches and on the fast queue, and
  what the preemption metrics and the certificate say in every reachable state.
* `timed_fairness`: the bound on timed dispatches under deadline pressure while the
  worker has ready work of its own whenever the timed streak is full.
* `timed_fairness_stealable_waits`: ready work that could be stolen does not
  suffice for that bound.
-/

namespace Asupersync

open Lib ThreeLaneWorker List

namespace DispatchSource

def isReady : DispatchSource → Bool
  | .cancel | .timed => false
  | _ => true

end DispatchSource

namespace ThreeLaneWorker

/-- What others do to the queues between two calls.  The counters and the prefetch
buffer are the worker's own. -/
structure Environment (w w' : ThreeLaneWorker) : Prop where
  same : w' =
    { w with
      global := w'.global
      localHeap := w'.localHeap
      localReady := w'.localReady
      fastQueue := w'.fastQueue
      fastStealers := w'.fastStealers
      stealers := w'.stealers }
  valid : w'.Valid

variable {w w' : ThreeLaneWorker}

theorem Environment.tally (h : w.Environment w') : w'.tally = w.tally := by
  rw [h.same]
  rfl

theorem Environment.config (h : w.Environment w') : w'.config = w.config := by
  rw [h.same]

/-- One task that enters a queue of the worker or of a peer. -/
inductive Injection where
  | globalCancel (task : TaskId) (priority : Nat)
  | globalTimed (task : TaskId) (deadline : Time)
  | globalReady (task : TaskId) (priority : Nat)
  | localCancel (task : TaskId) (priority : Nat)
  | localTimed (task : TaskId) (deadline : Time)
  | localHeap (task : TaskId) (priority : Nat)
  | localReady (task : TaskId)
  | fastQueue (task : TaskId)
  | peerFastQueue (peer : Nat) (task : TaskId)
  | peerHeap (peer : Nat) (task : TaskId) (priority : Nat)

def Injection.exec (w : ThreeLaneWorker) : Injection → ThreeLaneWorker
  | .globalCancel task priority => { w with global := w.global.injectCancel task priority }
  | .globalTimed task deadline => { w with global := w.global.injectTimed task deadline }
  | .globalReady task priority => { w with global := w.global.injectReady task priority }
  | .localCancel task priority => { w with localHeap := w.localHeap.scheduleCancel task priority }
  | .localTimed task deadline => { w with localHeap := w.localHeap.scheduleTimed task deadline }
  | .localHeap task priority => { w with localHeap := w.localHeap.schedule task priority }
  | .localReady task => { w with localReady := w.localReady ++ [task] }
  | .fastQueue task => { w with fastQueue := w.fastQueue.push task }
  | .peerFastQueue peer task => { w with fastStealers := w.fastStealers.modify peer (·.push task) }
  | .peerHeap peer task priority =>
    { w with stealers := w.stealers.modify peer (·.schedule task priority) }

theorem Injection.environment (hw : w.Valid) (i : Injection) : w.Environment (i.exec w) := by
  have hglobal := hw.global
  cases i with
  | globalCancel task priority =>
    exact ⟨rfl, hw.heap, ⟨FaaFifoQueue.push_valid hglobal.cancel _, hglobal.ready, hglobal.count,
      hglobal.cached⟩, hw.fast⟩
  | globalTimed task deadline =>
    exact ⟨rfl, hw.heap, ⟨hglobal.cancel, hglobal.ready, Nat.succ_le_succ hglobal.count, rfl⟩,
      hw.fast⟩
  | globalReady task priority =>
    exact ⟨rfl, hw.heap, ⟨hglobal.cancel, FaaFifoQueue.push_valid hglobal.ready _, hglobal.count,
      hglobal.cached⟩, hw.fast⟩
  | localCancel task priority =>
    exact ⟨rfl, (Scheduler.scheduleCancel_added task priority hw.heap).valid, hw.global, hw.fast⟩
  | localTimed task deadline =>
    exact ⟨rfl, (Scheduler.scheduleTimed_added task deadline hw.heap).valid, hw.global, hw.fast⟩
  | localHeap task priority =>
    exact ⟨rfl, (Scheduler.schedule_added task priority hw.heap).valid, hw.global, hw.fast⟩
  | localReady task | peerFastQueue peer task | peerHeap peer task priority =>
    exact ⟨rfl, hw.heap, hw.global, hw.fast⟩
  | fastQueue task => exact ⟨rfl, hw.heap, hw.global, rfl⟩

theorem new_valid (config : WorkerConfig) (capacity peers : Nat) :
    (new config capacity peers).Valid :=
  ⟨(ScheduledSet.withCapacity_spec _).1, GlobalInjector.new_valid, rfl⟩

/-- A steal at this call would find a ready task of another worker. -/
def StealReady (w : ThreeLaneWorker) (c : CallInput) : Prop := (w.trySteal c).1 ≠ none

instance (w : ThreeLaneWorker) (c : CallInput) : Decidable (w.StealReady c) :=
  inferInstanceAs (Decidable (_ ≠ _))

instance (w : ThreeLaneWorker) : Decidable w.HeapReady :=
  inferInstanceAs (Decidable (∃ entry ∈ w.localHeap.readyLane, _))

instance (w : ThreeLaneWorker) : Decidable w.OwnReady :=
  inferInstanceAs (Decidable (_ ∨ _ ∨ _ ∨ _ ∨ _))

instance (w : ThreeLaneWorker) (now : Time) : Decidable (w.TimedDue now) :=
  inferInstanceAs (Decidable
    ((∃ entry ∈ w.global.timedHeap, _) ∨ (∃ entry ∈ w.localHeap.timedLane, _)))

end ThreeLaneWorker

/-- One call of `next_task`: the worker it is made on, its input and answer, and
whether a backoff follows. -/
structure WorkerCall where
  worker : ThreeLaneWorker
  input : CallInput
  reply : Option Dispatch
  parked : Bool

inductive WorkerEvent where
  | environment
  | call (call : WorkerCall)

inductive WorkerStep : ThreeLaneWorker → WorkerEvent → ThreeLaneWorker → Prop
  | environment {w w' : ThreeLaneWorker} (h : w.Environment w') : WorkerStep w .environment w'
  | call (w : ThreeLaneWorker) (c : CallInput) :
      WorkerStep w (.call ⟨w, c, (w.nextTask c).1, false⟩) (w.nextTask c).2
  | parked (w : ThreeLaneWorker) (c : CallInput) (hnone : (w.nextTask c).1 = none) :
      WorkerStep w (.call ⟨w, c, none, true⟩) (w.nextTask c).2.afterBackoff

/-- The runs of one worker, from its construction on. -/
def workerSystem : TransitionSystem ThreeLaneWorker WorkerEvent where
  init w := ∃ config capacity peers, w = ThreeLaneWorker.new config capacity peers
  step := WorkerStep

def calls (events : List WorkerEvent) : List WorkerCall :=
  events.filterMap fun
    | .environment => none
    | .call call => some call

/-- The successful answers of a run. -/
def dispatches (events : List WorkerEvent) : List Dispatch :=
  (calls events).filterMap (·.reply)

def readyDispatches (events : List WorkerEvent) : List Dispatch :=
  (dispatches events).filter (·.source.isReady)

/-- The largest effective limit used in a run. -/
def maxEffectiveLimit (events : List WorkerEvent) : Nat :=
  (calls events).foldl (fun limit call => max limit call.input.effectiveLimit) 0

section Snoc

variable (events : List WorkerEvent) (call : WorkerCall)

@[simp]
theorem calls_snoc_environment : calls (events ++ [.environment]) = calls events := by
  simp [calls]

@[simp]
theorem calls_snoc_call : calls (events ++ [.call call]) = calls events ++ [call] := by
  simp [calls]

@[simp]
theorem dispatches_snoc_environment :
    dispatches (events ++ [.environment]) = dispatches events := by
  simp [dispatches]

@[simp]
theorem dispatches_snoc_call :
    dispatches (events ++ [.call call]) = dispatches events ++ call.reply.toList := by
  cases hreply : call.reply <;> simp [dispatches, hreply]

@[simp]
theorem maxEffectiveLimit_snoc_environment :
    maxEffectiveLimit (events ++ [.environment]) = maxEffectiveLimit events := by
  simp [maxEffectiveLimit]

@[simp]
theorem maxEffectiveLimit_snoc_call :
    maxEffectiveLimit (events ++ [.call call]) =
      max (maxEffectiveLimit events) call.input.effectiveLimit := by
  simp [maxEffectiveLimit]

end Snoc

namespace ThreeLaneWorker

variable {w : ThreeLaneWorker} {c : CallInput} {d : Dispatch} {t : Tally}

/-- What a dispatch does to the metrics of cancel work. -/
theorem LaneStep.metrics (h : LaneStep w c d t) :
    t.effectiveLimitExceedances = w.tally.effectiveLimitExceedances ∧
      t.maxCancelStreak ≤ max w.tally.maxCancelStreak c.effectiveLimit ∧
      t.maxEffectiveLimitObserved = w.tally.maxEffectiveLimitObserved := by
  have hpos : 1 ≤ c.effectiveLimit := c.effectiveLimit_pos
  cases h with
  | cancel task hlimit =>
    refine ⟨if_neg (Nat.not_lt.mpr hlimit), ?_, rfl⟩
    exact max_le_max (le_refl _) hlimit
  | fallback task hlimit hready htimed =>
    refine ⟨if_neg (Nat.not_lt.mpr hpos), ?_, rfl⟩
    exact max_le_max (le_refl _) hpos
  | _ => exact ⟨rfl, le_max_left _ _, rfl⟩

theorem IdleStep.metrics (h : IdleStep w c t) :
    t.effectiveLimitExceedances = w.tally.effectiveLimitExceedances ∧
      t.maxCancelStreak = w.tally.maxCancelStreak ∧
      t.maxEffectiveLimitObserved = w.tally.maxEffectiveLimitObserved := by
  cases h <;> exact ⟨rfl, rfl, rfl⟩

/-- A cancel dispatch while other work is available is below the limit. -/
theorem LaneStep.cancel_streak (h : LaneStep w c d t) (havail : w.OwnReady ∨ w.TimedDue c.now)
    (hcancel : d.source = .cancel) :
    w.cancelStreak < c.effectiveLimit ∧ t.cancelStreak = w.cancelStreak + 1 ∧
      t.readyDispatchStreak = 0 := by
  cases h with
  | cancel task hlimit => exact ⟨hlimit, rfl, rfl⟩
  | fallback task hlimit hready htimed =>
    rcases havail with hr | ht
    · exact absurd hr hready
    · exact absurd ht htimed
  | _ => cases hcancel

/-- The fast queue's streak after a dispatch. -/
theorem LaneStep.fast_streak (h : LaneStep w c d t) (hheap : w.HeapReady) :
    (d.source.isReady = false → t.fastQueueDispatchStreak = w.fastQueueDispatchStreak) ∧
      (d.source = .fastQueue →
        w.fastQueueDispatchStreak < w.config.fastQueueFairnessLimit ∧
          t.fastQueueDispatchStreak = w.fastQueueDispatchStreak + 1) := by
  cases h with
  | fastQueue task hfast => exact ⟨nofun, fun _ => ⟨hfast hheap, rfl⟩⟩
  | cancel | timedCounted | timedFree | fallback => exact ⟨fun _ => rfl, nofun⟩
  | localReady | readyHeap | globalReady | stolen =>
    exact ⟨nofun, nofun⟩

/-- The timed streak after a timed dispatch. -/
theorem LaneStep.timed_streak (h : LaneStep w c d t) (hdeadlines : c.suggestion = .meetDeadlines)
    (hfree : w.timedDispatchStreak < w.config.timedFairnessLimit) (htimed : d.source = .timed) :
    t.timedDispatchStreak = w.timedDispatchStreak + 1 := by
  cases h with
  | timedCounted task _ _ => rfl
  | timedFree task hfull => exact absurd (hfull hdeadlines) (Nat.not_le.mpr hfree)
  | _ => cases htimed

end ThreeLaneWorker

section Runs

variable {w w' : ThreeLaneWorker} {events : List WorkerEvent}

theorem workerStep_valid {e : WorkerEvent} (hw : w.Valid) (hstep : WorkerStep w e w') :
    w'.Valid ∧ w'.config = w.config := by
  cases hstep with
  | environment h => exact ⟨h.valid, h.config⟩
  | call c =>
    have hspec := nextTask_spec c hw
    exact ⟨hspec.valid, hspec.config⟩
  | parked c _ =>
    have hspec := nextTask_spec c hw
    exact ⟨⟨hspec.valid.heap, hspec.valid.global, hspec.valid.fast⟩, hspec.config⟩

theorem valid_of_reachable (h : workerSystem.Reachable w) : w.Valid := by
  refine h.invariant (I := Valid) ?_ fun _ _ _ hu hstep =>
    (workerStep_valid hu hstep).1
  rintro _ ⟨config, capacity, peers, rfl⟩
  exact new_valid config capacity peers

/-- The induction rule for what a run of calls under a condition does to the tally. -/
theorem tally_induction {P : WorkerCall → Prop} {I : List WorkerEvent → Tally → Prop} (hw : w.Valid)
    (hrun : workerSystem.Run w events w') (hcalls : ∀ call ∈ calls events, P call)
    (hstart : I [] w.tally) (henv : ∀ events t, I events t → I (events ++ [.environment]) t)
    (hfound : ∀ events u c d t, u.Valid → u.config = w.config → P ⟨u, c, some d, false⟩ →
      (u.nextTask c).1 = some d → (u.beginCall c).LaneStep c d t → I events u.tally →
      I (events ++ [.call ⟨u, c, some d, false⟩]) t)
    (hempty : ∀ events u c parked t, u.Valid → P ⟨u, c, none, parked⟩ →
      (u.nextTask c).1 = none → (u.beginCall c).IdleStep c t → I events u.tally →
      I (events ++ [.call ⟨u, c, none, parked⟩]) (if parked then t.idle 0 else t)) :
    I events w'.tally := by
  refine (hrun.history_induction
    (I := fun events u => u.Valid ∧ u.config = w.config ∧
      ((∀ call ∈ calls events, P call) → I events u.tally))
    ⟨hw, rfl, fun _ => hstart⟩ ?_).2.2 hcalls
  rintro history u e u' - ⟨hu, hconfig, ih⟩ hstep
  obtain ⟨hu', hconfig'⟩ := workerStep_valid hu hstep
  refine ⟨hu', hconfig'.trans hconfig, fun hall => ?_⟩
  cases hstep with
  | environment h =>
    rw [h.tally]
    exact henv _ _ (ih (by simpa using hall))
  | call c =>
    simp only [calls_snoc_call, forall_mem_append, forall_mem_singleton] at hall
    have hspec := nextTask_spec c hu
    cases hreply : (u.nextTask c).1 with
    | some d =>
      rw [hreply] at hall
      exact hfound _ _ _ _ _ hu hconfig hall.2 hreply (hspec.found d hreply) (ih hall.1)
    | none =>
      rw [hreply] at hall
      exact hempty _ _ _ false _ hu hall.2 hreply (hspec.empty hreply) (ih hall.1)
  | parked c hnone =>
    simp only [calls_snoc_call, forall_mem_append, forall_mem_singleton] at hall
    have hspec := nextTask_spec c hu
    exact hempty _ _ _ true _ hu hall.2 hnone (hspec.empty hnone) (ih hall.1)

/-- No cancel streak exceeds the effective limit of its call. -/
theorem metrics_run (hw : w.Valid) (hrun : workerSystem.Run w events w')
    (hexceed : w.tally.effectiveLimitExceedances = 0)
    (hmax : w.tally.maxCancelStreak ≤ w.tally.maxEffectiveLimitObserved) :
    w'.tally.effectiveLimitExceedances = 0 ∧
      w'.tally.maxCancelStreak ≤ w'.tally.maxEffectiveLimitObserved := by
  refine tally_induction (P := fun _ => True) (I := fun _ t => t.effectiveLimitExceedances = 0 ∧
      t.maxCancelStreak ≤ t.maxEffectiveLimitObserved)
    hw hrun (fun _ _ => trivial) ⟨hexceed, hmax⟩ (fun _ _ h => h) ?_ ?_
  · rintro _ u c d t - - - - hstep ⟨hzero, hle⟩
    obtain ⟨hexceed, hstreak, hlimit⟩ := hstep.metrics
    exact ⟨hexceed.trans hzero, (hstreak.trans (max_le_max hle le_rfl)).trans_eq hlimit.symm⟩
  · rintro _ u c parked t - - - hstep ⟨hzero, hle⟩
    obtain ⟨hexceed, hstreak, hlimit⟩ := hstep.metrics
    have hkept := (hstreak.trans_le (le_max_of_le_left hle)).trans_eq hlimit.symm
    cases parked <;> exact ⟨hexceed.trans hzero, hkept⟩

def isCancel (d : Dispatch) : Bool := decide (d.source = .cancel)

def isFast (d : Dispatch) : Bool := decide (d.source = .fastQueue)

def isTimed (d : Dispatch) : Bool := decide (d.source = .timed)

/-- The cancel streak counts the cancel dispatches at the end of a run, and an empty
answer cannot come between them. -/
structure CancelInv (events : List WorkerEvent) (t : Tally) : Prop where
  counted : Counted isCancel (dispatches events) t.cancelStreak (maxEffectiveLimit events)
  burst : 0 < trailing isCancel (dispatches events) → t.readyDispatchStreak = 0

variable {u : ThreeLaneWorker} {c : CallInput} {t : Tally} {d : Dispatch} {parked : Bool}

theorem CancelInv.found (inv : CancelInv events u.tally) (havail : u.OwnReady ∨ u.TimedDue c.now)
    (hstep : (u.beginCall c).LaneStep c d t) :
    CancelInv (events ++ [.call ⟨u, c, some d, false⟩]) t := by
  have hcounted : Counted isCancel (dispatches events) u.tally.cancelStreak
      (max (maxEffectiveLimit events) c.effectiveLimit) :=
    inv.counted.mono (le_refl _) (le_max_left _ _)
  constructor
  case counted =>
    rw [dispatches_snoc_call, maxEffectiveLimit_snoc_call]
    by_cases hcancel : d.source = .cancel
    · obtain ⟨hlimit, hstreak, -⟩ := hstep.cancel_streak havail hcancel
      rw [hstreak]
      exact hcounted.hit (decide_eq_true hcancel) (lt_max_of_lt_right hlimit)
    · exact hcounted.miss (decide_eq_false hcancel)
  case burst =>
    rw [dispatches_snoc_call]
    by_cases hcancel : d.source = .cancel
    · exact fun _ => (hstep.cancel_streak havail hcancel).2.2
    · intro hpos
      have hd : isCancel d = false := decide_eq_false hcancel
      rw [Option.toList_some, trailing_snoc, hd] at hpos
      exact absurd hpos (Nat.lt_irrefl 0)

/-- An empty answer while work is available is a handoff after ready dispatches, so no
cancel streak is open. -/
theorem CancelInv.empty (inv : CancelInv events u.tally) (havail : u.OwnReady ∨ u.TimedDue c.now)
    (hstep : (u.beginCall c).IdleStep c t) :
    CancelInv (events ++ [.call ⟨u, c, none, parked⟩]) (if parked then t.idle 0 else t) := by
  have hclosed : trailing isCancel (dispatches events) = 0 := by
    cases hstep with
    | handoff hpos hburst =>
      have hburst : (u.beginCall c).config.browserReadyHandoffLimit ≤
        u.tally.readyDispatchStreak := hburst
      refine Nat.eq_zero_of_not_pos fun h => ?_
      rw [inv.burst h] at hburst
      omega
    | idle hready htimed =>
      rcases havail with hr | ht
      · exact absurd hr hready
      · exact absurd ht htimed
  have hsame : dispatches (events ++ [.call ⟨u, c, none, parked⟩]) = dispatches events := by
    simp
  constructor
  case counted =>
    rw [hsame, maxEffectiveLimit_snoc_call]
    refine ⟨?_, fun l hl => le_max_of_le_left (inv.counted.bound l hl)⟩
    rw [hclosed]
    exact Nat.zero_le _
  case burst =>
    rw [hsame, hclosed]
    exact fun h => absurd h (Nat.lt_irrefl 0)

theorem cancelInv_run (hw : w.Valid) (hrun : workerSystem.Run w events w')
    (havail : ∀ call ∈ calls events, call.worker.OwnReady ∨ call.worker.TimedDue call.input.now) :
    CancelInv events w'.tally := by
  refine tally_induction hw hrun havail ⟨.nil, fun h => absurd h (Nat.lt_irrefl 0)⟩ ?_ ?_ ?_
  · rintro history t ⟨hcounted, hburst⟩
    exact ⟨by simpa using hcounted, by simpa using hburst⟩
  · exact fun _ _ _ _ _ _ _ havail _ hstep inv => inv.found havail hstep
  · exact fun _ _ _ _ _ _ havail _ hstep inv => inv.empty havail hstep

/-- The fast queue's streak counts the fast queue dispatches at the end of the ready
dispatches of a run. -/
def FastInv (limit : Nat) (events : List WorkerEvent) (t : Tally) : Prop :=
  Counted isFast (readyDispatches events) t.fastQueueDispatchStreak limit

theorem readyDispatches_snoc (call : WorkerCall) :
    readyDispatches (events ++ [.call call]) =
      readyDispatches events ++ call.reply.toList.filter (·.source.isReady) := by
  simp [readyDispatches]

theorem FastInv.found (inv : FastInv u.config.fastQueueFairnessLimit events u.tally) (hheap : u.HeapReady)
    (hstep : (u.beginCall c).LaneStep c d t) :
    FastInv u.config.fastQueueFairnessLimit (events ++ [.call ⟨u, c, some d, false⟩]) t := by
  obtain ⟨hother, hfast⟩ := hstep.fast_streak hheap
  unfold FastInv at inv ⊢
  rw [readyDispatches_snoc]
  cases hready : d.source.isReady with
  | false =>
    have hstreak : t.fastQueueDispatchStreak = u.tally.fastQueueDispatchStreak := hother hready
    simpa [hready, hstreak] using inv
  | true =>
    simp only [Option.toList_some, filter_cons, hready, if_true, filter_nil]
    by_cases hd : d.source = .fastQueue
    · obtain ⟨hlimit, hstreak⟩ := hfast hd
      rw [hstreak]
      exact inv.hit (decide_eq_true hd) hlimit
    · exact inv.miss (decide_eq_false hd)

theorem FastInv.empty {limit : Nat}
    (inv : FastInv limit events u.tally) (hstep : (u.beginCall c).IdleStep c t) :
    FastInv limit (events ++ [.call ⟨u, c, none, parked⟩]) (if parked then t.idle 0 else t) := by
  have hstreak : (if parked then t.idle 0 else t).fastQueueDispatchStreak =
      u.tally.fastQueueDispatchStreak := by
    cases hstep <;> cases parked <;> rfl
  unfold FastInv at inv ⊢
  rw [hstreak, readyDispatches_snoc]
  simpa using inv

theorem fastInv_run (hw : w.Valid) (hrun : workerSystem.Run w events w')
    (hheap : ∀ call ∈ calls events, call.worker.HeapReady) :
    FastInv w.config.fastQueueFairnessLimit events w'.tally := by
  refine tally_induction hw hrun hheap .nil ?_ ?_ ?_
  · intro history t inv
    simpa [FastInv, readyDispatches] using inv
  · intro _ u _ _ _ _ hconfig hheap _ hstep inv
    rw [← hconfig] at inv ⊢
    exact inv.found hheap hstep
  · exact fun _ _ _ _ _ _ _ _ hstep inv => inv.empty hstep

/-- Deadline pressure, due timed work, and ready work of the worker's own whenever the
timed streak is full. -/
structure DeadlinePressure (call : WorkerCall) : Prop where
  suggestion : call.input.suggestion = .meetDeadlines
  due : call.worker.TimedDue call.input.now
  ready : call.worker.config.timedFairnessLimit ≤ call.worker.timedDispatchStreak →
    call.worker.OwnReady

theorem DeadlinePressure.reply {call : WorkerCall} (hw : call.worker.Valid)
    (h : DeadlinePressure call) :
    ∃ d, (call.worker.nextTask call.input).1 = some d ∧
      (d.source = .timed ∧ call.worker.timedDispatchStreak < call.worker.config.timedFairnessLimit ∨
        d.source.isReady = true) := by
  rcases Nat.lt_or_ge call.worker.timedDispatchStreak call.worker.config.timedFairnessLimit
    with hfree | hfull
  · obtain ⟨d, hd, hsource⟩ :=
      nextTask_timedFirst hw h.suggestion hfree h.due
    exact ⟨d, hd, .inl ⟨hsource, hfree⟩⟩
  · obtain ⟨d, hd, hsource⟩ :=
      nextTask_gate hw h.suggestion hfull (h.ready hfull)
    have hready : ∀ source ∈ ownReadySources, source.isReady = true := by decide
    exact ⟨d, hd, .inr (hready _ hsource)⟩

/-- The timed streak counts the timed dispatches at the end of a run, and no call goes
without an answer. -/
theorem timed_run (hw : w.Valid) (hrun : workerSystem.Run w events w')
    (hpressure : ∀ call ∈ calls events, DeadlinePressure call) :
    Counted isTimed (dispatches events) w'.tally.timedDispatchStreak
      w.config.timedFairnessLimit ∧
    ∀ call ∈ calls events,
      ∃ d, call.reply = some d ∧ (d.source = .timed ∨ d.source.isReady = true) := by
  refine tally_induction
    (I := fun events t => Counted isTimed (dispatches events) t.timedDispatchStreak
      w.config.timedFairnessLimit ∧ ∀ call ∈ calls events,
        ∃ d, call.reply = some d ∧ (d.source = .timed ∨ d.source.isReady = true))
    hw hrun hpressure ⟨.nil, nofun⟩ ?_ ?_ ?_
  · intro history t inv
    simpa using inv
  · intro history u c d t hu hconfig hcall hreply hstep ⟨inv, hanswered⟩
    obtain ⟨d', hd', hsource⟩ := hcall.reply hu
    cases hreply.symm.trans hd'
    rw [dispatches_snoc_call, calls_snoc_call, forall_mem_append, forall_mem_singleton]
    refine ⟨?_, hanswered, d, rfl, hsource.imp_left And.left⟩
    rcases hsource with ⟨htimed, hfree⟩ | hready
    · rw [hstep.timed_streak hcall.suggestion hfree htimed]
      exact inv.hit (decide_eq_true htimed) (hconfig ▸ hfree)
    · refine inv.miss (decide_eq_false fun htimed => ?_)
      rw [htimed] at hready
      cases hready
  · intro history u c parked t hu hcall hnone _ _
    obtain ⟨d, hd, -⟩ := hcall.reply hu
    cases hnone.symm.trans hd

end Runs

section Examples

/-- A new worker with the default limits and one peer, after some injections. -/
def injected (injections : List ThreeLaneWorker.Injection) : ThreeLaneWorker :=
  injections.foldl ThreeLaneWorker.Injection.exec (.new (.defaults 1) 1 1)

theorem injected_reachable (injections : List Injection) :
    workerSystem.Reachable (injected injections) := by
  induction injections using reverseRecOn with
  | nil => exact ⟨_, [], ⟨_, _, _, rfl⟩, .nil⟩
  | append_singleton injections i ih =>
    have hstep := i.environment (valid_of_reachable ih)
    obtain ⟨w₀, events, hinit, hrun⟩ := ih
    have hlast : injected (injections ++ [i]) = i.exec (injected injections) :=
      foldl_append
    have hnext : workerSystem.Run (injected injections) [.environment]
        (injected (injections ++ [i])) := by
      rw [hlast]
      exact .single (WorkerStep.environment hstep)
    exact ⟨w₀, events ++ [.environment], hinit, hrun.append hnext⟩

/-- Calls with one and the same input. -/
def repeatCall (c : CallInput) : Nat → ThreeLaneWorker → List WorkerEvent × ThreeLaneWorker
  | 0, w => ([], w)
  | n + 1, w =>
    let rest := repeatCall c n (w.nextTask c).2
    (.call ⟨w, c, (w.nextTask c).1, false⟩ :: rest.1, rest.2)

theorem repeatCall_run (c : CallInput) (n : Nat) (w : ThreeLaneWorker) :
    workerSystem.Run w (repeatCall c n w).1 (repeatCall c n w).2 := by
  induction n generalizing w with
  | zero => exact .nil
  | succ n ih =>
    have hfirst : workerSystem.Run w [.call ⟨w, c, (w.nextTask c).1, false⟩]
        (w.nextTask c).2 := .single (WorkerStep.call w c)
    exact hfirst.append (ih _)

/-- A call at time 0 without contention, with a fixed cancel limit. -/
def plainInput (suggestion : SchedulingSuggestion) (cancelStreakLimit : Nat) : CallInput :=
  { suggestion := suggestion
    cancelStreakLimit := cancelStreakLimit
    now := 0
    hint := fun _ => 0
    readyBatchSize := 1
    schedPriority := fun _ => none
    arena := fun _ => none
    localLocked := false
    localReadyLocked := false
    stealerLocked := fun _ => false }

end Examples

/-- What holds of a worker and of every later run of it. -/
structure FairnessOk (w : ThreeLaneWorker) : Prop where
  cancel : ∀ {events : List WorkerEvent} {w' : ThreeLaneWorker},
    workerSystem.Run w events w' →
    (∀ call ∈ calls events, call.worker.OwnReady ∨ call.worker.TimedDue call.input.now) →
    ∀ before block after, dispatches events = before ++ block ++ after →
      (∀ d ∈ block, d.source = .cancel) → block.length ≤ maxEffectiveLimit events
  fastQueue : ∀ {events : List WorkerEvent} {w' : ThreeLaneWorker},
    workerSystem.Run w events w' →
    (∀ call ∈ calls events, call.worker.HeapReady) →
    ∀ before block after, readyDispatches events = before ++ block ++ after →
      (∀ d ∈ block, d.source = .fastQueue) → block.length ≤ w.config.fastQueueFairnessLimit
  exceedances : w.preemptionMetrics.effectiveLimitExceedances = 0
  certificate : ∀ adaptiveCurrentLimit,
    (w.preemptionFairnessCertificate adaptiveCurrentLimit).observedMaxCancelStreak ≤
      (w.preemptionFairnessCertificate adaptiveCurrentLimit).effectiveLimit

/-- **Cancel and stolen-work fairness.**  From every reachable state on: while due timed
work or ready work of the worker's own is available at every call, consecutive cancel
dispatches are bounded by the largest effective limit in use; while the local ready
heap is not empty, consecutive fast queue dispatches among the ready ones are bounded
by their limit; and the metrics witness the bound. -/
theorem three_lane_fairness {w : ThreeLaneWorker} (hreach : workerSystem.Reachable w) :
    FairnessOk w := by
  have hw := valid_of_reachable hreach
  have hmetrics : w.tally.effectiveLimitExceedances = 0 ∧
      w.tally.maxCancelStreak ≤ w.tally.maxEffectiveLimitObserved := by
    obtain ⟨w₀, events, ⟨config, capacity, peers, rfl⟩, hrun⟩ := hreach
    exact metrics_run (ThreeLaneWorker.new_valid _ _ _) hrun rfl (le_refl _)
  constructor
  case cancel =>
    intro events w' hrun havail before block after heq hblock
    exact (cancelInv_run hw hrun havail).counted.block_length_le heq
      fun d hd => decide_eq_true (hblock d hd)
  case fastQueue =>
    intro events w' hrun hheap before block after heq hblock
    exact Counted.block_length_le (fastInv_run hw hrun hheap) heq
      fun d hd => decide_eq_true (hblock d hd)
  case exceedances => exact hmetrics.1
  case certificate =>
    intro limit
    exact le_max_of_le_left (le_max_of_le_left hmetrics.2)

/-- Two cancel tasks and a ready task: with a limit of one, the ready task is second. -/
theorem three_lane_fairness_ready_second :
    let run := repeatCall (plainInput .noPreference 1) 2
      (injected [.globalCancel ⟨⟨0, 0⟩⟩ 0, .globalCancel ⟨⟨1, 0⟩⟩ 0, .globalReady ⟨⟨2, 0⟩⟩ 0])
    (dispatches run.1).map (·.source) = [.cancel, .globalReady] ∧
      ∀ before block after, dispatches run.1 = before ++ block ++ after →
        (∀ d ∈ block, d.source = .cancel) → block.length ≤ maxEffectiveLimit run.1 := by
  refine ⟨by decide +kernel, ?_⟩
  exact (three_lane_fairness (injected_reachable _)).cancel (repeatCall_run _ _ _)
    (by decide +kernel)

/-- What holds of a run under deadline pressure. -/
structure TimedFairnessOk (limit : Nat) (events : List WorkerEvent) : Prop where
  answered : ∀ call ∈ calls events,
    ∃ d, call.reply = some d ∧ (d.source = .timed ∨ d.source.isReady = true)
  bound : ∀ before block after, dispatches events = before ++ block ++ after →
    (∀ d ∈ block, d.source = .timed) → block.length ≤ limit

/-- **Timed fairness.**  Under deadline pressure with timed work due at every call, and
with ready work of the worker's own at every call whose timed streak is full, every
call dispatches a timed or a ready task, and at most `timedFairnessLimit` consecutive
dispatches are timed. -/
theorem timed_fairness {w w' : ThreeLaneWorker} {events : List WorkerEvent}
    (hreach : workerSystem.Reachable w) (hrun : workerSystem.Run w events w')
    (hpressure : ∀ call ∈ calls events, DeadlinePressure call) :
    TimedFairnessOk w.config.timedFairnessLimit events := by
  obtain ⟨hcounted, hanswered⟩ := timed_run (valid_of_reachable hreach) hrun hpressure
  refine ⟨hanswered, fun before block after heq hblock => ?_⟩
  exact hcounted.block_length_le heq fun d hd => decide_eq_true (hblock d hd)

/-- Seven due timed tasks and a ready task of the worker's own: the gate lets the ready
task go seventh. -/
theorem timed_fairness_ready_seventh :
    let w := injected (.globalReady ⟨⟨9, 0⟩⟩ 0 ::
      (List.range 8).map fun i => .globalTimed ⟨⟨i.toUInt32, 0⟩⟩ 0)
    let run := repeatCall (plainInput .meetDeadlines 16) 7 w
    (dispatches run.1).map (·.source) = List.replicate 6 .timed ++ [.globalReady] ∧
      TimedFairnessOk w.config.timedFairnessLimit run.1 := by
  refine ⟨by decide +kernel, ?_⟩
  have hpressure : ∀ call ∈ calls (repeatCall (plainInput .meetDeadlines 16) 7 (injected
      (.globalReady ⟨⟨9, 0⟩⟩ 0 :: (List.range 8).map fun i => .globalTimed ⟨⟨i.toUInt32, 0⟩⟩ 0))).1,
      call.input.suggestion = .meetDeadlines ∧ call.worker.TimedDue call.input.now ∧
        call.worker.OwnReady := by
    decide +kernel
  exact timed_fairness (injected_reachable _) (repeatCall_run _ _ _) fun call hcall =>
    ⟨(hpressure call hcall).1, (hpressure call hcall).2.1, fun _ => (hpressure call hcall).2.2⟩

/-- A stealable ready task waits past the limit: the gate does not try to steal, and
the timed lanes that follow do not stop at a full streak. -/
theorem timed_fairness_stealable_waits :
    ∃ (w w' : ThreeLaneWorker) (events : List WorkerEvent),
      workerSystem.Reachable w ∧ workerSystem.Run w events w' ∧
      (∀ call ∈ calls events,
        call.input.suggestion = .meetDeadlines ∧ call.worker.TimedDue call.input.now ∧
          (call.worker.OwnReady ∨ call.worker.StealReady call.input)) ∧
      (∀ d ∈ dispatches events, d.source = .timed) ∧
      w.config.timedFairnessLimit < (dispatches events).length := by
  let w := injected (.peerFastQueue 0 ⟨⟨9, 0⟩⟩ ::
    (List.range 8).map fun i => .globalTimed ⟨⟨i.toUInt32, 0⟩⟩ 0)
  refine ⟨w, _, _, injected_reachable _, repeatCall_run (plainInput .meetDeadlines 16) 8 w,
    ?_, ?_, ?_⟩
  · decide +kernel
  · decide +kernel
  · decide +kernel

end Asupersync
