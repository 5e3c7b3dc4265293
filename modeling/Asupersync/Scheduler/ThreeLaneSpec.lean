import Asupersync.Scheduler.PriorityDispatch
import Asupersync.Scheduler.ThreeLane

/-!
# What one call of `next_task` does

The streak counters before and after a call of `next_task`, for every way in
which the call can end.

**Method.**  `Tally` is the part of the worker that fairness depends on.  A step
of `next_task` that finds nothing is `Quiet`: it prunes the local heap at most.
`Phase` says what a step does in either case, and `Phase.orElse` composes steps.

**Results.**  `nextTask_spec`: every answer of `next_task` with its effect on the
tally, and what was not available when a fallback or an empty answer was reached.
`nextTask_gate` and `nextTask_timedFirst`: which lane answers under deadline
pressure.
-/

namespace Asupersync

open Lib GlobalInjector Scheduler List

/-- The streaks and the metrics of cancel dispatches. -/
structure Tally where
  cancelStreak : Nat
  readyDispatchStreak : Nat
  fastQueueDispatchStreak : Nat
  timedDispatchStreak : Nat
  maxCancelStreak : Nat
  effectiveLimitExceedances : Nat
  maxEffectiveLimitObserved : Nat

namespace Tally

/-- The start of a call. -/
def begin (t : Tally) (effectiveLimit : Nat) : Tally :=
  { t with maxEffectiveLimitObserved := max t.maxEffectiveLimitObserved effectiveLimit }

/-- A cancel dispatch after which the streak is `streak`. -/
def cancel (t : Tally) (streak effectiveLimit : Nat) : Tally :=
  { t with
    cancelStreak := streak
    readyDispatchStreak := 0
    timedDispatchStreak := 0
    maxCancelStreak := max t.maxCancelStreak streak
    effectiveLimitExceedances :=
      if effectiveLimit < streak then t.effectiveLimitExceedances + 1
      else t.effectiveLimitExceedances }

def timed (t : Tally) (timedStreak : Nat) : Tally :=
  { t with cancelStreak := 0, readyDispatchStreak := 0, timedDispatchStreak := timedStreak }

def ready (t : Tally) (fastStreak : Nat) : Tally :=
  { t with
    cancelStreak := 0
    readyDispatchStreak := min (t.readyDispatchStreak + 1) usizeMax
    timedDispatchStreak := 0
    fastQueueDispatchStreak := fastStreak }

/-- An empty answer. -/
def idle (t : Tally) (cancelStreak : Nat) : Tally :=
  { t with cancelStreak := cancelStreak, readyDispatchStreak := 0 }

end Tally

namespace ThreeLaneWorker

def tally (w : ThreeLaneWorker) : Tally :=
  { cancelStreak := w.cancelStreak
    readyDispatchStreak := w.readyDispatchStreak
    fastQueueDispatchStreak := w.fastQueueDispatchStreak
    timedDispatchStreak := w.timedDispatchStreak
    maxCancelStreak := w.preemptionMetrics.maxCancelStreak
    effectiveLimitExceedances := w.preemptionMetrics.effectiveLimitExceedances
    maxEffectiveLimitObserved := w.preemptionMetrics.maxEffectiveLimitObserved }

/-- The caches and counters of the queues are in step with their contents. -/
structure Valid (w : ThreeLaneWorker) : Prop where
  heap : w.localHeap.scheduled.Valid
  global : w.global.Valid
  fast : w.fastQueue.cachedLen = w.fastQueue.queue.length

/-- The local ready heap holds a task. -/
def HeapReady (w : ThreeLaneWorker) : Prop :=
  ∃ entry ∈ w.localHeap.readyLane, w.localHeap.scheduled.contains entry.task = true

/-- One of the worker's own ready sources holds a task. -/
def OwnReady (w : ThreeLaneWorker) : Prop :=
  w.localReady ≠ [] ∨ w.fastQueue.queue ≠ [] ∨ w.global.readyQueue.items ≠ [] ∨
    w.globalReadyBuffer ≠ [] ∨ w.HeapReady

/-- A timed task is due in the global timed lane. -/
def GlobalTimedDue (w : ThreeLaneWorker) (now : Time) : Prop :=
  ∃ entry ∈ w.global.timedHeap, entry.deadline ≤ now

/-- A timed task is due in the local timed lane. -/
def LocalTimedDue (w : ThreeLaneWorker) (now : Time) : Prop :=
  ∃ entry ∈ w.localHeap.timedLane,
    entry.deadline ≤ now ∧ w.localHeap.scheduled.contains entry.task = true

def TimedDue (w : ThreeLaneWorker) (now : Time) : Prop :=
  w.GlobalTimedDue now ∨ w.LocalTimedDue now

theorem heapReady_iff_entries (w : ThreeLaneWorker) :
    w.HeapReady ↔ ∃ x, x ∈ w.localHeap.entries .ready ∧
      w.localHeap.scheduled.contains x.1 = true := by
  simp [HeapReady, entries]

theorem localTimedDue_iff_entries (w : ThreeLaneWorker) (now : Time) :
    w.LocalTimedDue now ↔ ∃ x, x.2 ≤ now ∧ x ∈ w.localHeap.entries .timed ∧
      w.localHeap.scheduled.contains x.1 = true := by
  simp [LocalTimedDue, entries, and_left_comm]

/-- A step that finds no task: it prunes the local heap and counts at most. -/
structure Quiet (w w' : ThreeLaneWorker) : Prop where
  same : w' = { w with localHeap := w'.localHeap, preemptionMetrics := w'.preemptionMetrics }
  heap : Scheduler.Took w.localHeap none w'.localHeap
  tally : w'.tally = w.tally

namespace Quiet

variable {w w₁ w₂ : ThreeLaneWorker}

theorem refl (h : w.Valid) : Quiet w w := ⟨rfl, .refl h.heap, rfl⟩

theorem trans (h₁ : Quiet w w₁) (h₂ : Quiet w₁ w₂) : Quiet w w₂ := by
  refine ⟨?_, h₁.heap.trans h₂.heap, h₂.tally.trans h₁.tally⟩
  rw [h₂.same, h₁.same]

variable (h : Quiet w w₁) {now : Time}

include h

theorem eq : ∃ heap metrics, w₁ = { w with localHeap := heap, preemptionMetrics := metrics } :=
  ⟨_, _, h.same⟩

theorem config : w₁.config = w.config := by rw [h.same]

theorem fastQueue_eq : w₁.fastQueue = w.fastQueue := by rw [h.same]

theorem valid (hw : w.Valid) : w₁.Valid := by
  obtain ⟨heap, metrics, rfl⟩ := h.eq
  exact ⟨h.heap.valid, hw.global, hw.fast⟩

/-- What a lane of the local heap offers is still there, and nothing new appears in it. -/
theorem mem_entries_iff {lane : DispatchLane} {x : TaskId × Nat} :
    (x ∈ w₁.localHeap.entries lane ∧ w₁.localHeap.scheduled.contains x.1 = true) ↔
      x ∈ w.localHeap.entries lane ∧ w.localHeap.scheduled.contains x.1 = true := by
  have hsame := h.heap.none_spec rfl
  rw [← ScheduledSet.mem_elems, ← ScheduledSet.mem_elems, ← hsame]
  exact and_congr_left fun hin => ⟨h.heap.sub lane x, fun hx => h.heap.keep lane x hx hin⟩

theorem heapReady_iff : w₁.HeapReady ↔ w.HeapReady := by
  rw [heapReady_iff_entries, heapReady_iff_entries]
  exact exists_congr fun x => h.mem_entries_iff

theorem ownReady_iff : w₁.OwnReady ↔ w.OwnReady := by
  rw [OwnReady, OwnReady, h.heapReady_iff, h.same]

theorem globalTimedDue_iff : w₁.GlobalTimedDue now ↔ w.GlobalTimedDue now := by
  rw [GlobalTimedDue, GlobalTimedDue, h.same]

theorem localTimedDue_iff : w₁.LocalTimedDue now ↔ w.LocalTimedDue now := by
  rw [localTimedDue_iff_entries, localTimedDue_iff_entries]
  exact exists_congr fun x => and_congr_right fun _ => h.mem_entries_iff

theorem timedDue_iff : w₁.TimedDue now ↔ w.TimedDue now :=
  or_congr h.globalTimedDue_iff h.localTimedDue_iff

end Quiet

/-- What taking a task out of a queue keeps: the queues stay valid and the tally is
untouched. -/
structure Framed (w w' : ThreeLaneWorker) : Prop where
  valid : w'.Valid
  config : w'.config = w.config
  tally : w'.tally = w.tally

theorem Framed.trans {w w₁ w₂ : ThreeLaneWorker} (h₁ : Framed w w₁) (h₂ : Framed w₁ w₂) :
    Framed w w₂ :=
  ⟨h₂.valid, h₂.config.trans h₁.config, h₂.tally.trans h₁.tally⟩

/-- How a call can dispatch a task, and the tally afterwards. -/
inductive LaneStep (w : ThreeLaneWorker) (c : CallInput) : Dispatch → Tally → Prop
  | cancel (task : TaskId) (hlimit : w.cancelStreak < c.effectiveLimit) :
      LaneStep w c ⟨task, .cancel⟩ (w.tally.cancel (w.cancelStreak + 1) c.effectiveLimit)
  | timedCounted (task : TaskId) (hdeadlines : c.suggestion = .meetDeadlines)
      (hlimit : w.timedDispatchStreak < w.config.timedFairnessLimit) :
      LaneStep w c ⟨task, .timed⟩ (w.tally.timed (w.timedDispatchStreak + 1))
  | timedFree (task : TaskId)
      (hfree : c.suggestion = .meetDeadlines →
        w.config.timedFairnessLimit ≤ w.timedDispatchStreak) :
      LaneStep w c ⟨task, .timed⟩ (w.tally.timed w.timedDispatchStreak)
  | localReady (task : TaskId) : LaneStep w c ⟨task, .localReady⟩ (w.tally.ready 0)
  | readyHeap (task : TaskId) : LaneStep w c ⟨task, .readyHeap⟩ (w.tally.ready 0)
  | globalReady (task : TaskId) : LaneStep w c ⟨task, .globalReady⟩ (w.tally.ready 0)
  | fastQueue (task : TaskId)
      (hfast : w.HeapReady → w.fastQueueDispatchStreak < w.config.fastQueueFairnessLimit) :
      LaneStep w c ⟨task, .fastQueue⟩ (w.tally.ready (w.fastQueueDispatchStreak + 1))
  | stolen (task : TaskId) :
      LaneStep w c ⟨task, .stolen⟩ (w.tally.ready w.fastQueueDispatchStreak)
  | fallback (task : TaskId) (hlimit : c.effectiveLimit ≤ w.cancelStreak)
      (hready : ¬ w.OwnReady) (htimed : ¬ w.TimedDue c.now) :
      LaneStep w c ⟨task, .cancel⟩ (w.tally.cancel 1 c.effectiveLimit)

/-- Quiet steps before a dispatch do not show in its effect. -/
theorem LaneStep.of_quiet {w w₁ : ThreeLaneWorker} {c : CallInput} {d : Dispatch} {t : Tally}
    (h : Quiet w w₁) (hstep : LaneStep w₁ c d t) :
    LaneStep w c d t := by
  obtain ⟨heap, metrics, rfl⟩ := h.eq
  cases hstep <;> rw [h.tally]
  case cancel task hlimit => exact .cancel task hlimit
  case timedCounted task hdeadlines hlimit => exact .timedCounted task hdeadlines hlimit
  case timedFree task hfree => exact .timedFree task hfree
  case localReady task => exact .localReady task
  case readyHeap task => exact .readyHeap task
  case globalReady task => exact .globalReady task
  case fastQueue task hfast => exact .fastQueue task fun hready => hfast (h.heapReady_iff.mpr hready)
  case stolen task => exact .stolen task
  case fallback task hlimit hready htimed =>
    exact .fallback task hlimit (mt h.ownReady_iff.mpr hready) (mt h.timedDue_iff.mpr htimed)

/-- What a step of `next_task` does.  `S` holds of the sources it dispatches from,
and `N` is what is known when it finds nothing. -/
structure Phase (w : ThreeLaneWorker) (c : CallInput) (S : DispatchSource → Prop) (N : Prop)
    (out : Option Dispatch × ThreeLaneWorker) : Prop where
  found : ∀ d, out.1 = some d →
    out.2.Valid ∧ out.2.config = w.config ∧ S d.source ∧ LaneStep w c d out.2.tally
  quiet : out.1 = none → Quiet w out.2 ∧ N

namespace Phase

variable {w : ThreeLaneWorker} {c : CallInput} {S : DispatchSource → Prop}

variable {N : Prop} {w' : ThreeLaneWorker}

theorem of_some {d : Dispatch} (h : w'.Valid ∧ w'.config = w.config ∧ S d.source ∧
    LaneStep w c d w'.tally) : Phase w c S N (some d, w') :=
  ⟨fun _ hd => Option.some.inj hd ▸ h, nofun⟩

theorem of_none (h : Quiet w w' ∧ N) : Phase w c S N (none, w') :=
  ⟨nofun, fun _ => h⟩

/-- A step that is skipped. -/
theorem skip (h : w.Valid) : Phase w c S True (none, w) :=
  .of_none ⟨.refl h, trivial⟩

theorem weaken {N' : Prop} {out : Option Dispatch × ThreeLaneWorker}
    (h : Phase w c S N out) (himp : N → N') : Phase w c S N' out :=
  ⟨h.found, fun hnone => ⟨(h.quiet hnone).1, himp (h.quiet hnone).2⟩⟩

/-- A step, and another one if the first finds nothing. -/
theorem orElse {N₁ N₂ : Prop} {first : Option Dispatch × ThreeLaneWorker}
    {second : ThreeLaneWorker → Option Dispatch × ThreeLaneWorker} (hw : w.Valid)
    (h₁ : Phase w c S N₁ first)
    (h₂ : ∀ w₁, w₁.Valid → Quiet w w₁ → N₁ → Phase w₁ c S N₂ (second w₁)) :
    Phase w c S (N₁ ∧ N₂) (orElse first second) := by
  obtain ⟨r, w₁⟩ := first
  cases r with
  | some d => exact .of_some (h₁.found d rfl)
  | none =>
    obtain ⟨hquiet, hN₁⟩ := h₁.quiet rfl
    have hvalid₁ : w₁.Valid := hquiet.valid hw
    have h₂ := h₂ w₁ hvalid₁ hquiet hN₁
    constructor
    case found =>
      intro d hd
      obtain ⟨hvalid, hconfig, hsource, hstep⟩ := h₂.found d hd
      exact ⟨hvalid, hconfig.trans hquiet.config, hsource, hstep.of_quiet hquiet⟩
    case quiet =>
      intro hnone
      obtain ⟨hquiet₂, hN₂⟩ := h₂.quiet hnone
      exact ⟨hquiet.trans hquiet₂, hN₁, hN₂⟩

end Phase

/-- The worker's own ready sources. -/
def ownReadySources : List DispatchSource := [.localReady, .fastQueue, .globalReady, .readyHeap]

section Lanes

variable {w : ThreeLaneWorker} {c : CallInput} {S : DispatchSource → Prop}

theorem tryGlobalCancel_phase (hS : S .cancel) (hw : w.Valid)
    (hlimit : w.cancelStreak < c.effectiveLimit) :
    Phase w c S True (w.tryGlobalCancel c) := by
  have hvalid := popCancel_valid hw.global
  unfold tryGlobalCancel
  rcases hpop : w.global.popCancel with ⟨r, g⟩
  rw [hpop] at hvalid
  cases r with
  | some pt =>
    exact .of_some ⟨⟨hw.heap, hvalid, hw.fast⟩, rfl, hS, .cancel pt.task hlimit⟩
  | none =>
    rw [popCancel_none_same hpop]
    exact .skip hw

/-- A pop of the local heap that finds nothing is quiet. -/
theorem quiet_of_took {heap : Scheduler} (htook : Took w.localHeap none heap) :
    Quiet w { w with localHeap := heap } :=
  ⟨rfl, htook, rfl⟩

theorem tryLocalCancel_phase (hS : S .cancel) (hw : w.Valid)
    (hlimit : w.cancelStreak < c.effectiveLimit) :
    Phase w c S True (w.tryLocalCancel c) := by
  have hspec := (PopKind.popCancelOnlyWithHint (c.hint .lanes)).exec_spec hw.heap
  simp only [PopKind.exec] at hspec
  unfold tryLocalCancel
  rcases hpop : w.localHeap.popCancelOnlyWithHint (c.hint .lanes) with ⟨r, heap⟩
  rw [hpop] at hspec
  cases r with
  | some task =>
    exact .of_some ⟨⟨hspec.took.valid, hw.global, hw.fast⟩, rfl, hS, .cancel task hlimit⟩
  | none =>
    exact .of_none ⟨quiet_of_took hspec.took, trivial⟩

section Timed

variable {counted : Bool}
  (hcounted : counted = true → c.suggestion = .meetDeadlines ∧
    w.timedDispatchStreak < w.config.timedFairnessLimit)
  (hfree : counted = false → c.suggestion = .meetDeadlines →
    w.config.timedFairnessLimit ≤ w.timedDispatchStreak)

include hcounted hfree

/-- The timed dispatches, counted under deadline pressure. -/
theorem dispatchTimed_phase {w' : ThreeLaneWorker} {N : Prop} (task : TaskId)
    (hS : S .timed) (h : Framed w w') : Phase w c S N (w'.dispatchTimed counted task) := by
  obtain ⟨hw', hconfig, htally⟩ := h
  have hstreak : w'.timedDispatchStreak = w.timedDispatchStreak :=
    congrArg Tally.timedDispatchStreak htally
  cases counted with
  | true =>
    have hstep : LaneStep w c ⟨task, .timed⟩ _ :=
      .timedCounted task (hcounted rfl).1 (hcounted rfl).2
    rw [← htally, ← hstreak] at hstep
    exact .of_some ⟨⟨hw'.heap, hw'.global, hw'.fast⟩, hconfig, hS, hstep⟩
  | false =>
    have hstep : LaneStep w c ⟨task, .timed⟩ _ :=
      .timedFree task (hfree rfl)
    rw [← htally, ← hstreak] at hstep
    exact .of_some ⟨⟨hw'.heap, hw'.global, hw'.fast⟩, hconfig, hS, hstep⟩

theorem tryGlobalTimed_phase (hS : S .timed) (hw : w.Valid) :
    Phase w c S (¬ w.GlobalTimedDue c.now) (w.tryGlobalTimed c counted) := by
  have hvalid := popTimedIfDue_valid hw.global c.now
  unfold tryGlobalTimed
  rcases hpop : w.global.popTimedIfDue c.now with ⟨r, g⟩
  rw [hpop] at hvalid
  cases r with
  | some tt =>
    exact dispatchTimed_phase hcounted hfree tt.task hS ⟨⟨hw.heap, hvalid, hw.fast⟩, rfl, rfl⟩
  | none =>
    have hlate := popTimedIfDue_none hw.global (congrArg Prod.fst hpop)
    rw [popTimedIfDue_none_same hpop]
    refine .of_none ⟨.refl hw, ?_⟩
    rintro ⟨entry, hentry, hnow⟩
    exact absurd (hlate entry hentry) (Nat.not_lt.mpr hnow)

theorem tryLocalTimed_phase (hS : S .timed) (hw : w.Valid) :
    Phase w c S (¬ w.LocalTimedDue c.now) (w.tryLocalTimed c counted) := by
  have hspec :=
    (PopKind.popTimedOnlyWithHint (c.hint .lanes) c.now).exec_spec hw.heap
  simp only [PopKind.exec] at hspec
  unfold tryLocalTimed
  rcases hpop : w.localHeap.popTimedOnlyWithHint (c.hint .lanes) c.now with ⟨r, heap⟩
  rw [hpop] at hspec
  cases r with
  | some task =>
    exact dispatchTimed_phase hcounted hfree task hS
      ⟨⟨hspec.took.valid, hw.global, hw.fast⟩, rfl, rfl⟩
  | none =>
    have hquiet : Quiet w { w with localHeap := heap } := quiet_of_took hspec.took
    refine .of_none ⟨hquiet, fun hdue => ?_⟩
    obtain ⟨entry, hentry, hnow, -⟩ := hquiet.localTimedDue_iff.mpr hdue
    obtain ⟨-, now, heq, hlate⟩ := hspec.left rfl .timed mem_cons_self
      (entry.task, entry.deadline) (mem_map.mpr ⟨entry, hentry, rfl⟩)
    cases heq
    exact absurd hlate (Nat.not_lt.mpr hnow)

end Timed

theorem tryReadyHeap_phase (site : HintSite) (hS : S .readyHeap) (hw : w.Valid) :
    Phase w c S (¬ w.HeapReady) (w.tryReadyHeap c site) := by
  have hspec := (PopKind.popReadyOnlyWithHint (c.hint site)).exec_spec hw.heap
  simp only [PopKind.exec] at hspec
  unfold tryReadyHeap
  rcases hpop : w.localHeap.popReadyOnlyWithHint (c.hint site) with ⟨r, heap⟩
  rw [hpop] at hspec
  cases r with
  | some task =>
    exact .of_some ⟨⟨hspec.took.valid, hw.global, hw.fast⟩, rfl, hS, .readyHeap task⟩
  | none =>
    have hquiet : Quiet w { w with localHeap := heap } := quiet_of_took hspec.took
    refine .of_none ⟨hquiet, fun hready => ?_⟩
    obtain ⟨entry, hentry, -⟩ := hquiet.heapReady_iff.mpr hready
    obtain ⟨hlane, -⟩ := hspec.left rfl .ready mem_cons_self
      (entry.task, entry.priority) (mem_map.mpr ⟨entry, hentry, rfl⟩)
    cases hlane

theorem tryLocalReady_phase (hS : S .localReady) (hw : w.Valid) :
    Phase w c S (w.localReady = []) w.tryLocalReady := by
  unfold tryLocalReady
  cases hready : w.localReady with
  | cons task rest =>
    exact .of_some ⟨⟨hw.heap, hw.global, hw.fast⟩, rfl, hS, .localReady task⟩
  | nil => exact .of_none ⟨.refl hw, rfl⟩

/-- The look at the blocked local task and the inversion metrics are quiet. -/
theorem peekBlockedLocalReady_quiet (hw : w.Valid) : Quiet w (w.peekBlockedLocalReady c).2 := by
  unfold peekBlockedLocalReady
  split
  · exact .refl hw
  · exact quiet_of_took (pruneReadyHead_took hw.heap)

theorem recordReadyPriorityInversion_quiet
    (hw : w.Valid) (blocked : Option SchedulerEntry) (executing : Option Nat) :
    Quiet w (w.recordReadyPriorityInversion blocked executing) := by
  unfold recordReadyPriorityInversion
  split
  · split
    · exact .refl hw
    · exact ⟨rfl, .refl hw.heap, rfl⟩
  · exact .refl hw

/-- The ready dispatches, from a worker that has taken the task out of its queue. -/
theorem dispatchReady_phase {w' : ThreeLaneWorker} {N : Prop} {d : Dispatch} {fastStreak : Nat}
    (executing : Option Nat) (hS : S d.source) (h : Framed w w')
    (hstep : LaneStep w c d (w.tally.ready fastStreak)) :
    Phase w c S N (w'.dispatchReady c d executing fastStreak) := by
  obtain ⟨hw', hconfig, htally⟩ := h
  have hpeek : Quiet w' (w'.peekBlockedLocalReady c).2 := peekBlockedLocalReady_quiet hw'
  have hquiet := hpeek.trans (recordReadyPriorityInversion_quiet (hpeek.valid hw')
    (w'.peekBlockedLocalReady c).1 executing)
  have hvalid := hquiet.valid hw'
  rw [← htally, ← hquiet.tally] at hstep
  exact .of_some ⟨⟨hvalid.heap, hvalid.global, hvalid.fast⟩, hquiet.config.trans hconfig, hS, hstep⟩

theorem tryFastQueue_phase (hS : S .fastQueue) (hw : w.Valid)
    (hfast : w.HeapReady → w.fastQueueDispatchStreak < w.config.fastQueueFairnessLimit) :
    Phase w c S (w.fastQueue.queue = []) (w.tryFastQueue c) := by
  unfold tryFastQueue LocalQueue.popFast
  split_ifs with hlen
  · have hnil : w.fastQueue.queue = [] := by
      rw [hw.fast] at hlen
      exact length_eq_zero_iff.mp hlen
    exact .of_none ⟨.refl hw, hnil⟩
  have hpublished : w.fastQueue.pop.1.cachedLen = w.fastQueue.pop.1.queue.length := by
    unfold LocalQueue.pop
    split <;> rfl
  cases hpop : w.fastQueue.pop.2 with
  | none =>
    have hnil : w.fastQueue.queue = [] := by
      unfold LocalQueue.pop at hpop
      split at hpop
      · exact getLast?_eq_none_iff.mp ‹_›
      · cases hpop
    rw [hw.fast, hnil] at hlen
    exact absurd rfl hlen
  | some task =>
    exact dispatchReady_phase _ hS ⟨⟨hw.heap, hw.global, hpublished⟩, rfl, rfl⟩
      (.fastQueue task hfast)

theorem popGlobalReady_spec (hw : w.Valid) :
    Framed w w.popGlobalReady.2 ∧ (w.popGlobalReady.1 = none →
      w.popGlobalReady.2 = w ∧ w.global.readyQueue.items = []) := by
  refine ⟨⟨⟨hw.heap, popReady_valid hw.global, hw.fast⟩, rfl, rfl⟩, fun hnone => ?_⟩
  refine ⟨?_, FaaFifoQueue.pop_none hw.global.ready hnone⟩
  exact congrArg (fun queue => { w with global := { w.global with readyQueue := queue } })
    (FaaFifoQueue.pop_none_same hnone)

/-- Taking a global ready task: from the prefetch buffer, from a batch or from
the queue. -/
theorem takeGlobalReadyTask_spec (hw : w.Valid) :
    Framed w (w.takeGlobalReadyTask c).2 ∧
    ((w.takeGlobalReadyTask c).1 = none → (w.takeGlobalReadyTask c).2 = w ∧
      w.globalReadyBuffer = [] ∧ w.global.readyQueue.items = []) := by
  obtain ⟨hframed, hnone⟩ := popGlobalReady_spec hw
  unfold takeGlobalReadyTask
  cases hbuffer : w.globalReadyBuffer with
  | cons prefetched rest =>
    exact ⟨⟨⟨hw.heap, hw.global, hw.fast⟩, rfl, rfl⟩, nofun⟩
  | nil =>
    simp only
    split
    · have hvalid := popReadyBatchInto_valid hw.global (max c.readyBatchSize 1)
      rcases hbatch : w.global.popReadyBatchInto (max c.readyBatchSize 1) with ⟨drained, g⟩
      rw [hbatch] at hvalid
      cases drained with
      | cons first rest =>
        exact ⟨⟨⟨hw.heap, hvalid, hw.fast⟩, rfl, rfl⟩, nofun⟩
      | nil =>
        have hsame : ({ w with global := g, globalReadyBuffer := [] } : ThreeLaneWorker) = w := by
          rw [popReadyBatchInto_nil_same hbatch, ← hbuffer]
        simp only [hsame]
        exact ⟨hframed, fun h => ⟨(hnone h).1, trivial, (hnone h).2⟩⟩
    · exact ⟨hframed, fun h => ⟨(hnone h).1, trivial, (hnone h).2⟩⟩

theorem tryGlobalReady_phase (hS : S .globalReady) (hw : w.Valid) :
    Phase w c S (w.globalReadyBuffer = [] ∧ w.global.readyQueue.items = [])
      (w.tryGlobalReady c) := by
  obtain ⟨hframed, hnone⟩ := takeGlobalReadyTask_spec (c := c) hw
  unfold tryGlobalReady
  rcases htake : w.takeGlobalReadyTask c with ⟨r, w₁⟩
  rw [htake] at hframed hnone
  cases r with
  | some pt => exact dispatchReady_phase _ hS hframed (.globalReady pt.task)
  | none =>
    obtain ⟨hsame, hempty⟩ := hnone rfl
    simp only at hsame ⊢
    rw [hsame]
    exact .of_none ⟨.refl hw, hempty⟩

theorem tryPhase3ReadyWork_phase (site : HintSite) (hS : ∀ source ∈ ownReadySources, S source)
    (hw : w.Valid) :
    Phase w c S (¬ w.OwnReady) (w.tryPhase3ReadyWork c site) := by
  have hglobal : ∀ w', w'.Valid → Quiet w w' →
      Phase w' c S (w.globalReadyBuffer = [] ∧ w.global.readyQueue.items = [])
        (w'.tryGlobalReady c) := by
    intro w' hw' hq
    obtain ⟨heap, metrics, rfl⟩ := hq.eq
    exact tryGlobalReady_phase (hS _ (by decide)) hw'
  have hown : w.localReady = [] → ¬ w.HeapReady → w.fastQueue.queue = [] →
      (w.globalReadyBuffer = [] ∧ w.global.readyQueue.items = []) → ¬ w.OwnReady := by
    rintro h₁ h₂ h₃ ⟨h₄, h₅⟩ (hr | hr | hr | hr | hr)
    · exact hr h₁
    · exact hr h₃
    · exact hr h₅
    · exact hr h₄
    · exact h₂ hr
  have hdecide (w₁ : ThreeLaneWorker) (hq : Quiet w w₁) :
      decide (w₁.config.fastQueueFairnessLimit ≤ w₁.fastQueueDispatchStreak) =
        decide (w.config.fastQueueFairnessLimit ≤ w.fastQueueDispatchStreak) := by
    rw [hq.same]
  by_cases hlocal : w.config.fastQueueFairnessLimit ≤ w.fastQueueDispatchStreak
  · refine Phase.weaken (N := w.localReady = [] ∧ ¬ w.HeapReady ∧ w.fastQueue.queue = [] ∧
        (w.globalReadyBuffer = [] ∧ w.global.readyQueue.items = []) ∧ True)
      (Phase.orElse hw (tryLocalReady_phase (hS _ (by decide)) hw) fun w₁ hw₁ hq₁ _ => ?_)
      fun ⟨h₁, h₂, h₃, h₄, _⟩ => hown h₁ h₂ h₃ h₄
    simp only [hdecide w₁ hq₁, hlocal, decide_true, if_true]
    -- the local heap comes first, so the fast queue is reached with an empty heap only
    refine Phase.orElse hw₁ ((tryReadyHeap_phase site (hS _ (by decide)) hw₁).weaken
      (mt hq₁.heapReady_iff.mpr)) fun w₂ hw₂ hq₂ hempty => ?_
    have hq₂ := hq₁.trans hq₂
    refine Phase.orElse hw₂ (hq₂.fastQueue_eq ▸ tryFastQueue_phase (hS _ (by decide)) hw₂
      fun hr => absurd (hq₂.heapReady_iff.mp hr) hempty) fun w₃ hw₃ hq₃ _ => ?_
    exact Phase.orElse hw₃ (hglobal w₃ hw₃ (hq₂.trans hq₃)) fun w₄ hw₄ _ _ => .skip hw₄
  · refine Phase.weaken (N := w.localReady = [] ∧ True ∧ w.fastQueue.queue = [] ∧
        (w.globalReadyBuffer = [] ∧ w.global.readyQueue.items = []) ∧ ¬ w.HeapReady)
      (Phase.orElse hw (tryLocalReady_phase (hS _ (by decide)) hw) fun w₁ hw₁ hq₁ _ => ?_)
      fun ⟨h₁, _, h₃, h₄, h₂⟩ => hown h₁ h₂ h₃ h₄
    simp only [hdecide w₁ hq₁, hlocal, decide_false, Bool.false_eq_true, if_false]
    refine Phase.orElse hw₁ (.skip hw₁) fun w₂ hw₂ hq₂ _ => ?_
    have hq₂ := hq₁.trans hq₂
    have hstreak : w₂.fastQueueDispatchStreak < w₂.config.fastQueueFairnessLimit := by
      rw [hq₂.same]
      exact Nat.lt_of_not_le hlocal
    refine Phase.orElse hw₂ (hq₂.fastQueue_eq ▸ tryFastQueue_phase (hS _ (by decide)) hw₂
      fun _ => hstreak) fun w₃ hw₃ hq₃ _ => ?_
    have hq₃ := hq₂.trans hq₃
    exact Phase.orElse hw₃ (hglobal w₃ hw₃ hq₃) fun w₄ hw₄ hq₄ _ =>
      (tryReadyHeap_phase site (hS _ (by decide)) hw₄).weaken (mt (hq₃.trans hq₄).heapReady_iff.mpr)

theorem timedGate_phase (hS : ∀ source ∈ ownReadySources, S source) (checkTimed : Bool)
    (hw : w.Valid) :
    Phase w c S (checkTimed = false → c.suggestion = .meetDeadlines → ¬ w.OwnReady)
      (w.timedGate c checkTimed) := by
  unfold timedGate
  split
  · have hphase : Phase w c (· ∈ ownReadySources) _ (w.tryPhase3ReadyWork c .gate) :=
      tryPhase3ReadyWork_phase .gate (fun _ h => h) hw
    rcases hout : w.tryPhase3ReadyWork c .gate with ⟨r, w₁⟩
    rw [hout] at hphase
    cases r with
    | some d =>
      obtain ⟨hvalid, hconfig, hsource, hstep⟩ := hphase.found d rfl
      refine .of_some ⟨⟨hvalid.heap, hvalid.global, hvalid.fast⟩, hconfig, hS _ hsource, ?_⟩
      have hzero : w₁.timedDispatchStreak = 0 := by
        change w₁.tally.timedDispatchStreak = 0
        generalize w₁.tally = t at hstep
        cases hstep with
        | timedCounted | timedFree => simp [ownReadySources] at hsource
        | _ => rfl
      have hsame : ({ w₁ with timedDispatchStreak := 0 } : ThreeLaneWorker) = w₁ := by
        rw [← hzero]
      simp only [hsame]
      exact hstep
    | none =>
      obtain ⟨hquiet, hN⟩ := hphase.quiet rfl
      refine .of_none ⟨⟨?_, hquiet.heap, hquiet.tally⟩, fun _ _ => hN⟩
      have hsame := hquiet.same
      simp only at hsame ⊢
      rw [hsame]
  · rename_i hskip
    refine (Phase.skip hw).weaken fun _ hcheck hdeadlines => ?_
    simp [hcheck, hdeadlines] at hskip

/-- The two tests at the start of a call. -/
structure Checks (w : ThreeLaneWorker) (c : CallInput) (checkCancel checkTimed : Bool) :
    Prop where
  cancel : checkCancel = decide (w.cancelStreak < c.effectiveLimit)
  timed : checkTimed = decide (w.timedDispatchStreak < w.config.timedFairnessLimit)

namespace Checks

variable {checkCancel checkTimed : Bool}

variable (h : Checks w c checkCancel checkTimed)

include h

theorem of_quiet {w₁ : ThreeLaneWorker} (hq : Quiet w w₁) : Checks w₁ c checkCancel checkTimed := by
  obtain ⟨heap, metrics, rfl⟩ := hq.eq
  exact ⟨h.cancel, h.timed⟩

/-- Under deadline pressure with a free timed streak, timed dispatches count. -/
theorem counted (hcond : (decide (c.suggestion = .meetDeadlines) && checkTimed) = true) :
    c.suggestion = .meetDeadlines ∧ w.timedDispatchStreak < w.config.timedFairnessLimit := by
  rw [Bool.and_eq_true] at hcond
  exact ⟨of_decide_eq_true hcond.1, of_decide_eq_true (h.timed.symm.trans hcond.2)⟩

theorem free (hcond : ¬ (decide (c.suggestion = .meetDeadlines) && checkTimed) = true) :
    c.suggestion = .meetDeadlines → w.config.timedFairnessLimit ≤ w.timedDispatchStreak := by
  intro hdeadlines
  rw [h.timed] at hcond
  simpa [hdeadlines] using hcond

end Checks

variable {checkCancel checkTimed : Bool}

/-- A cancel lane, behind its test. -/
theorem onlyIf_cancel_phase {step : ThreeLaneWorker → Option Dispatch × ThreeLaneWorker}
    (hstep : w.cancelStreak < c.effectiveLimit → Phase w c S True (step w)) (hw : w.Valid)
    (hchecks : Checks w c checkCancel checkTimed) : Phase w c S True (onlyIf checkCancel step w) := by
  unfold onlyIf
  split
  · exact hstep (of_decide_eq_true (hchecks.cancel.symm.trans ‹_›))
  · exact .skip hw

/-- Under deadline pressure with a free timed streak the timed lanes come first. -/
def timedFirst (c : CallInput) (checkTimed : Bool) : Bool :=
  decide (c.suggestion = .meetDeadlines) && checkTimed

/-- The first two phases find nothing only when no timed task is due. -/
theorem phases12_phase (hcancel : (timedFirst c checkTimed = true → ¬ w.TimedDue c.now) → S .cancel)
    (htimed : S .timed) (hw : w.Valid) (hchecks : Checks w c checkCancel checkTimed) :
    Phase w c S (¬ w.TimedDue c.now)
      (orElse (w.phase1 c checkCancel checkTimed) fun w => w.phase2 c checkCancel checkTimed) := by
  unfold phase1 phase2
  by_cases hcond : (decide (c.suggestion = .meetDeadlines) && checkTimed) = true
  · -- deadline pressure: cancel work is only reached when nothing is due
    simp only [hcond, if_true]
    refine Phase.weaken (N := ¬ w.GlobalTimedDue c.now ∧ ¬ w.LocalTimedDue c.now ∧ True ∧ True)
      (Phase.orElse hw (tryGlobalTimed_phase (fun _ => hchecks.counted hcond)
        nofun htimed hw) fun w₁ hw₁ hq₁ hglobal => ?_)
      fun ⟨hg, hl, _⟩ => not_or.mpr ⟨hg, hl⟩
    have hchecks₁ := hchecks.of_quiet hq₁
    refine Phase.orElse hw₁
      (.weaken (tryLocalTimed_phase (fun _ => hchecks₁.counted hcond) nofun htimed hw₁)
        (mt hq₁.localTimedDue_iff.mpr))
      fun w₂ hw₂ hq₂ hlocal => ?_
    have hchecks₂ := hchecks₁.of_quiet hq₂
    have hS : S .cancel := hcancel fun _ => not_or.mpr ⟨hglobal, hlocal⟩
    exact Phase.orElse hw₂ (onlyIf_cancel_phase (tryGlobalCancel_phase hS hw₂) hw₂ hchecks₂)
      fun w₃ hw₃ hq₃ _ => onlyIf_cancel_phase (tryLocalCancel_phase hS hw₃) hw₃ (hchecks₂.of_quiet hq₃)
  · simp only [hcond, Bool.false_eq_true, if_false]
    have hS : S .cancel := hcancel fun h => absurd h hcond
    refine Phase.weaken (N := True ∧ True ∧ ¬ w.GlobalTimedDue c.now ∧ ¬ w.LocalTimedDue c.now)
      (Phase.orElse hw (onlyIf_cancel_phase (tryGlobalCancel_phase hS hw) hw hchecks)
        fun w₁ hw₁ hq₁ _ => ?_)
      fun ⟨_, _, hg, hl⟩ => not_or.mpr ⟨hg, hl⟩
    have hchecks₁ := hchecks.of_quiet hq₁
    refine Phase.orElse hw₁ (onlyIf_cancel_phase (tryLocalCancel_phase hS hw₁) hw₁ hchecks₁)
      fun w₂ hw₂ hq₂ _ => ?_
    have hchecks₂ := hchecks₁.of_quiet hq₂
    have hq₂ := hq₁.trans hq₂
    refine Phase.orElse hw₂
      (.weaken (tryGlobalTimed_phase nofun (fun _ => hchecks₂.free hcond) htimed hw₂)
        (mt hq₂.globalTimedDue_iff.mpr))
      fun w₃ hw₃ hq₃ _ => ?_
    have hchecks₃ := hchecks₂.of_quiet hq₃
    exact .weaken (tryLocalTimed_phase nofun (fun _ => hchecks₃.free hcond) htimed hw₃)
      (mt (hq₂.trans hq₃).localTimedDue_iff.mpr)

end Lanes

section Tail

variable {w : ThreeLaneWorker} {c : CallInput} {w₁ : ThreeLaneWorker} {checkCancel : Bool}

theorem stealFast_framed (order : List Nat) (w : ThreeLaneWorker) (hw : w.Valid) :
    Framed w (stealFast c order w).2 := by
  induction order generalizing w with
  | nil => exact ⟨hw, rfl, rfl⟩
  | cons idx rest ih =>
    unfold stealFast
    split
    · exact ih w hw
    · rename_i victim _
      rcases victim.steal c.arena with ⟨victim', r⟩
      have hw' : Valid { w with fastStealers := w.fastStealers.set idx victim' } :=
        ⟨hw.heap, hw.global, hw.fast⟩
      cases r with
      | some task => exact ⟨hw', rfl, rfl⟩
      | none => exact .trans ⟨hw', rfl, rfl⟩ (ih _ hw')

theorem keepStolen_framed (kept : List (TaskId × Nat)) (hw : w.Valid) :
    Framed w (w.keepStolen kept) := by
  have hprune := pruneReadyHead_took hw.heap
  unfold keepStolen
  split
  · exact ⟨hw, rfl, rfl⟩
  · rcases hpeek : w.localHeap.nextValidReadyEntry with ⟨top, heap⟩
    have hsame : w.localHeap.pruneReadyHead = heap := congrArg Prod.snd hpeek
    rw [hsame] at hprune
    have hheap := hprune.valid
    cases top with
    | some _ =>
      refine ⟨⟨?_, hw.global, hw.fast⟩, rfl, rfl⟩
      exact foldlRecOn (motive := fun heap : Scheduler => heap.scheduled.Valid) kept _ hheap
        fun _ h entry _ => (schedule_added entry.1 entry.2 h).valid
    | none =>
      refine ⟨⟨hheap, hw.global, ?_⟩, rfl, rfl⟩
      exact foldlRecOn (motive := fun queue : LocalQueue => queue.cachedLen = queue.queue.length)
        _ _ hw.fast fun _ _ _ _ => rfl

theorem stealHeap_framed (order : List Nat) (w : ThreeLaneWorker) (hw : w.Valid) :
    Framed w (stealHeap c order w).2 := by
  induction order generalizing w with
  | nil => exact ⟨hw, rfl, rfl⟩
  | cons idx rest ih =>
    unfold stealHeap
    split
    · exact ih w hw
    rename_i victim _
    split
    · exact ih w hw
    rcases victim.stealReadyBatch w.config.stealBatchSize with ⟨stolen, victim'⟩
    have hw' : Valid { w with stealers := w.stealers.set idx victim' } :=
      ⟨hw.heap, hw.global, hw.fast⟩
    cases stolen with
    | cons first kept => exact .trans ⟨hw', rfl, rfl⟩ (keepStolen_framed kept hw')
    | nil => exact .trans ⟨hw', rfl, rfl⟩ (ih _ hw')

theorem trySteal_framed (hw : w.Valid) : Framed w (w.trySteal c).2 := by
  unfold trySteal
  simp only
  generalize probeOrder (c.hint .stealFastPreferred) 0 _ ++ _ = fastOrder
  generalize probeOrder (c.hint .stealHeapPreferred) 0 _ ++ _ = heapOrder
  have hfast := stealFast_framed (c := c) fastOrder w hw
  rcases hout : stealFast c fastOrder w with ⟨r, w₁⟩
  rw [hout] at hfast
  cases r with
  | some task => exact hfast
  | none => exact hfast.trans (stealHeap_framed heapOrder w₁ hfast.valid)

theorem tryCancelWork_framed (hw : w.Valid) : Framed w (w.tryCancelWork c).2 := by
  have hvalid := popCancel_valid hw.global
  have hspec := (PopKind.popCancelOnlyWithHint (c.hint .fallback)).exec_spec hw.heap
  unfold tryCancelWork
  rcases hpop : w.global.popCancel with ⟨r, g⟩
  rw [hpop] at hvalid
  cases r with
  | some pt => exact ⟨⟨hw.heap, hvalid, hw.fast⟩, rfl, rfl⟩
  | none => exact ⟨⟨hspec.took.valid, hvalid, hw.fast⟩, rfl, rfl⟩

theorem shouldForceReadyHandoff_quiet (hw : w.Valid) : Quiet w (w.shouldForceReadyHandoff c).2 := by
  unfold shouldForceReadyHandoff
  iterate 3
    split
    · exact .refl hw
  exact quiet_of_took (pruneReadyHead_took hw.heap)

/-- The part of a call after the timed lanes. -/
def tail (w : ThreeLaneWorker) (c : CallInput) (checkCancel : Bool) :
    Option Dispatch × ThreeLaneWorker :=
  match w.shouldForceReadyHandoff c with
  | (true, w) => (none, w.handoff)
  | (false, w) =>
    orElse (w.tryPhase3ReadyWork c .ready) fun w =>
      orElse (w.phase4 c) fun w => w.phase5 c checkCancel

/-- What an empty answer means: a handoff after a burst of ready work, or no
timed and no own ready work. -/
inductive IdleStep (w : ThreeLaneWorker) (c : CallInput) : Tally → Prop
  | handoff (hpos : 0 < w.config.browserReadyHandoffLimit)
      (hburst : w.config.browserReadyHandoffLimit ≤ w.readyDispatchStreak) :
      IdleStep w c (w.tally.idle 0)
  | idle (hready : ¬ w.OwnReady) (htimed : ¬ w.TimedDue c.now) :
      IdleStep w c
        (w.tally.idle (if w.cancelStreak < c.effectiveLimit then w.cancelStreak else 0))

theorem IdleStep.of_quiet {t : Tally} (h : Quiet w w₁) (hstep : IdleStep w₁ c t) :
    IdleStep w c t := by
  obtain ⟨heap, metrics, rfl⟩ := h.eq
  cases hstep with
  | handoff hpos hburst =>
    rw [h.tally]
    exact .handoff hpos hburst
  | idle hready htimed =>
    rw [h.tally]
    exact .idle (mt h.ownReady_iff.mpr hready) (mt h.timedDue_iff.mpr htimed)

/-- What a call does, in either case of its answer. -/
structure CallSpec (w : ThreeLaneWorker) (c : CallInput)
    (out : Option Dispatch × ThreeLaneWorker) : Prop where
  valid : out.2.Valid
  config : out.2.config = w.config
  found : ∀ d, out.1 = some d → LaneStep w c d out.2.tally
  empty : out.1 = none → IdleStep w c out.2.tally

theorem CallSpec.of_quiet {out : Option Dispatch × ThreeLaneWorker}
    (h : Quiet w w₁) (hspec : CallSpec w₁ c out) :
    CallSpec w c out :=
  ⟨hspec.valid, hspec.config.trans h.config, fun d hd => (hspec.found d hd).of_quiet h,
    fun hnone => (hspec.empty hnone).of_quiet h⟩

/-- A step, and a rest of the call that always ends it. -/
theorem CallSpec.orElse {S : DispatchSource → Prop} {N : Prop}
    {first : Option Dispatch × ThreeLaneWorker}
    {second : ThreeLaneWorker → Option Dispatch × ThreeLaneWorker} (hw : w.Valid)
    (h₁ : Phase w c S N first) (h₂ : ∀ w₁, w₁.Valid → Quiet w w₁ → N → CallSpec w₁ c (second w₁)) :
    CallSpec w c (orElse first second) := by
  obtain ⟨r, w₁⟩ := first
  cases r with
  | some d =>
    obtain ⟨hvalid, hconfig, -, hstep⟩ := h₁.found d rfl
    refine ⟨hvalid, hconfig, fun d' hd' => ?_, nofun⟩
    cases hd'
    exact hstep
  | none =>
    obtain ⟨hquiet, hN⟩ := h₁.quiet rfl
    exact (h₂ w₁ (hquiet.valid hw) hquiet hN).of_quiet hquiet

theorem phases45_spec (hw : w.Valid)
    (hcheck : checkCancel = decide (w.cancelStreak < c.effectiveLimit)) (hready : ¬ w.OwnReady)
    (htimed : ¬ w.TimedDue c.now) :
    CallSpec w c (orElse (w.phase4 c) fun w => w.phase5 c checkCancel) := by
  have hsteal := trySteal_framed (c := c) hw
  unfold phase4
  rcases hout : w.trySteal c with ⟨r, w₁⟩
  rw [hout] at hsteal
  have ⟨hw₁, hconfig₁, htally₁⟩ := hsteal
  have hstreak₁ : w₁.cancelStreak = w.cancelStreak := congrArg Tally.cancelStreak htally₁
  cases r with
  | some task =>
    refine ⟨⟨hw₁.heap, hw₁.global, hw₁.fast⟩, hconfig₁, fun d hd => ?_, nofun⟩
    cases hd
    have hfast : w₁.fastQueueDispatchStreak = w.fastQueueDispatchStreak :=
      congrArg Tally.fastQueueDispatchStreak htally₁
    have hstep : LaneStep w c ⟨task, .stolen⟩ _ := .stolen task
    rw [← htally₁, ← hfast] at hstep
    exact hstep
  | none =>
    simp only [orElse]
    unfold phase5
    by_cases hbelow : w.cancelStreak < c.effectiveLimit
    · rw [hcheck, decide_eq_true hbelow, if_pos rfl]
      refine ⟨⟨hw₁.heap, hw₁.global, hw₁.fast⟩, hconfig₁, nofun, fun _ => ?_⟩
      have hstep : IdleStep w c _ := .idle hready htimed
      rw [if_pos hbelow, ← htally₁, ← hstreak₁] at hstep
      exact hstep
    rw [hcheck, decide_eq_false hbelow, if_neg Bool.false_ne_true]
    have hcancel := hsteal.trans (tryCancelWork_framed (c := c) hsteal.valid)
    rcases hfallback : w₁.tryCancelWork c with ⟨r₂, w₂⟩
    rw [hfallback] at hcancel
    obtain ⟨hw₂, hconfig₂, htally⟩ := hcancel
    cases r₂ with
    | some task =>
      refine ⟨⟨hw₂.heap, hw₂.global, hw₂.fast⟩, hconfig₂, fun d hd => ?_, nofun⟩
      cases hd
      have hstep : LaneStep w c ⟨task, .cancel⟩ _ :=
        .fallback task (Nat.le_of_not_lt hbelow) hready htimed
      rw [← htally] at hstep
      exact hstep
    | none =>
      refine ⟨⟨hw₂.heap, hw₂.global, hw₂.fast⟩, hconfig₂, nofun, fun _ => ?_⟩
      have hstep : IdleStep w c _ := .idle hready htimed
      rw [if_neg hbelow, ← htally] at hstep
      exact hstep

theorem tail_spec (hw : w.Valid) (hcheck : checkCancel = decide (w.cancelStreak < c.effectiveLimit))
    (htimed : ¬ w.TimedDue c.now) :
    CallSpec w c (w.tail c checkCancel) := by
  have hquiet := shouldForceReadyHandoff_quiet (c := c) hw
  unfold tail
  rcases hforce : w.shouldForceReadyHandoff c with ⟨force, w₁⟩
  rw [hforce] at hquiet
  have hw₁ := hquiet.valid hw
  cases force with
  | true =>
    refine ⟨⟨hw₁.heap, hw₁.global, hw₁.fast⟩, hquiet.config, nofun, fun _ => ?_⟩
    rw [shouldForceReadyHandoff] at hforce
    split at hforce
    · cases hforce
    have hstep : IdleStep w c _ := .handoff (by omega) (by omega)
    rw [← hquiet.tally] at hstep
    exact hstep
  | false =>
    refine CallSpec.of_quiet hquiet ?_
    have hphase : Phase w₁ c (fun _ => True) (¬ w₁.OwnReady) _ :=
      tryPhase3ReadyWork_phase .ready (fun _ _ => trivial) hw₁
    refine CallSpec.orElse hw₁ hphase fun w₂ hw₂ hq₂ hready => ?_
    refine phases45_spec hw₂ ?_ ?_ ?_
    · rw [(hquiet.trans hq₂).same]
      exact hcheck
    · exact mt hq₂.ownReady_iff.mp hready
    · exact mt (hquiet.trans hq₂).timedDue_iff.mp htimed

theorem orElse_assoc (first : Option Dispatch × ThreeLaneWorker)
    (second third : ThreeLaneWorker → Option Dispatch × ThreeLaneWorker) :
    orElse (orElse first second) third = orElse first fun w => orElse (second w) third := by
  obtain ⟨r, w⟩ := first
  cases r <;> rfl

@[simp] theorem orElse_none
    (w : ThreeLaneWorker) (next : ThreeLaneWorker → Option Dispatch × ThreeLaneWorker) :
    orElse (none, w) next = next w := rfl

theorem nextTask_eq {checkCancel checkTimed : Bool}
    (hchecks : Checks (w.beginCall c) c checkCancel checkTimed) :
    w.nextTask c = orElse ((w.beginCall c).timedGate c checkTimed) fun w₁ =>
        orElse (orElse (w₁.phase1 c checkCancel checkTimed) fun w₂ =>
          w₂.phase2 c checkCancel checkTimed) fun w₃ => w₃.tail c checkCancel := by
  obtain ⟨rfl, rfl⟩ := hchecks
  simp only [orElse_assoc]
  rfl

/-- **One call of `next_task`.**  The effect of every answer on the tally. -/
theorem nextTask_spec (c : CallInput) (hw : w.Valid) :
    CallSpec (w.beginCall c) c (w.nextTask c) := by
  have hw₀ : (w.beginCall c).Valid := ⟨hw.heap, hw.global, hw.fast⟩
  have hchecks : Checks (w.beginCall c) c _ _ := ⟨rfl, rfl⟩
  rw [nextTask_eq hchecks]
  refine CallSpec.orElse (S := fun _ => True) hw₀ (timedGate_phase (fun _ _ => trivial) _ hw₀)
    fun w₁ hw₁ hq₁ _ => ?_
  have hchecks₁ := hchecks.of_quiet hq₁
  refine CallSpec.orElse (S := fun _ => True) hw₁
    (phases12_phase (fun _ => trivial) trivial hw₁ hchecks₁) fun w₂ hw₂ hq₂ hdue => ?_
  exact tail_spec hw₂ (hchecks₁.of_quiet hq₂).cancel (mt hq₂.timedDue_iff.mp hdue)

/-- A full timed streak under deadline pressure: own ready work goes first. -/
theorem nextTask_gate (hw : w.Valid) (hdeadlines : c.suggestion = .meetDeadlines)
    (hfull : w.config.timedFairnessLimit ≤ w.timedDispatchStreak) (hready : w.OwnReady) :
    ∃ d, (w.nextTask c).1 = some d ∧ d.source ∈ ownReadySources := by
  have hw₀ : (w.beginCall c).Valid := ⟨hw.heap, hw.global, hw.fast⟩
  have hchecks : Checks (w.beginCall c) c _ false :=
    ⟨rfl, (decide_eq_false (Nat.not_lt.mpr hfull)).symm⟩
  have hgate : Phase (w.beginCall c) c (· ∈ ownReadySources) _ _ :=
    timedGate_phase (fun _ h => h) false hw₀
  rw [nextTask_eq hchecks]
  rcases hout : (w.beginCall c).timedGate c false with ⟨r, w₁⟩
  rw [hout] at hgate
  cases r with
  | some d => exact ⟨d, rfl, (hgate.found d rfl).2.2.1⟩
  | none => exact absurd hready ((hgate.quiet rfl).2 rfl hdeadlines)

/-- A free timed streak under deadline pressure: due timed work goes first. -/
theorem nextTask_timedFirst (hw : w.Valid) (hdeadlines : c.suggestion = .meetDeadlines)
    (hfree : w.timedDispatchStreak < w.config.timedFairnessLimit) (hdue : w.TimedDue c.now) :
    ∃ d, (w.nextTask c).1 = some d ∧ d.source = .timed := by
  have hw₀ : (w.beginCall c).Valid := ⟨hw.heap, hw.global, hw.fast⟩
  have hchecks : Checks (w.beginCall c) c _ true := ⟨rfl, (decide_eq_true hfree).symm⟩
  have hphases : Phase (w.beginCall c) c (· = .timed) _ _ :=
    phases12_phase (fun h => absurd hdue (h (by simp [timedFirst, hdeadlines]))) rfl hw₀ hchecks
  have hgate : (w.beginCall c).timedGate c true = (none, w.beginCall c) := by
    simp [timedGate]
  rw [nextTask_eq hchecks, hgate, orElse_none]
  generalize orElse ((w.beginCall c).phase1 c _ true) _ = out at hphases
  obtain ⟨r, w₁⟩ := out
  cases r with
  | some d => exact ⟨d, rfl, (hphases.found d rfl).2.2.1⟩
  | none => exact absurd hdue (hphases.quiet rfl).2

end Tail

end ThreeLaneWorker
end Asupersync
