import Asupersync.Lib.TransitionSystem
import Asupersync.Scheduler.PrioritySpec

/-!
# Exactly-once dispatch of the priority scheduler

The priority scheduler as a transition system: a step is one call, and its label
records the call and the tasks that it hands out.

**Input.**  Any finite sequence of calls from an empty scheduler: schedulings in
the three lanes, promotions to the cancel lane, removals, every pop variant,
steals, and the queries that prune the lanes.

**Results.**  `exactly_once_dispatch`: a task that is handed out has been
scheduled and not been handed out or removed since; every scheduled task has an
entry in a lane; `len` counts the scheduled tasks; and a drain at a time past
every deadline hands out the scheduled tasks, each once.
-/

namespace Asupersync

open Lib Scheduler List Lane

namespace Scheduler

/-- The pop variants with their arguments. -/
inductive PopKind where
  | pop
  | popWithRngHint (rngHint : UInt64)
  | popWithLane (rngHint : UInt64)
  | popWithLaneIfDue (rngHint : UInt64) (now : Time)
  | popCancelWithRng (rngHint : UInt64)
  | popNonCancelWithRng (rngHint : UInt64)
  | popNonCancelWithRngIfDue (rngHint : UInt64) (now : Time)
  | popCancelOnly
  | popCancelOnlyWithHint (rngHint : UInt64)
  | popTimedOnly (now : Time)
  | popTimedOnlyWithHint (rngHint : UInt64) (now : Time)
  | popReadyOnly
  | popReadyOnlyWithHint (rngHint : UInt64)
  | popAnyLaneWithHint (rngHint : UInt64) (now : Time)
deriving DecidableEq, Repr

namespace PopKind

/-- Runs a pop; the lane in the answer is forgotten. -/
def exec (s : Scheduler) : PopKind → Option TaskId × Scheduler
  | .pop => s.pop
  | .popWithRngHint rngHint => s.popWithRngHint rngHint
  | .popWithLane rngHint => ((s.popWithLane rngHint).1.map Prod.fst, (s.popWithLane rngHint).2)
  | .popWithLaneIfDue rngHint now =>
    ((s.popWithLaneIfDue rngHint now).1.map Prod.fst, (s.popWithLaneIfDue rngHint now).2)
  | .popCancelWithRng rngHint =>
    ((s.popCancelWithRng rngHint).1.map Prod.fst, (s.popCancelWithRng rngHint).2)
  | .popNonCancelWithRng rngHint =>
    ((s.popNonCancelWithRng rngHint).1.map Prod.fst, (s.popNonCancelWithRng rngHint).2)
  | .popNonCancelWithRngIfDue rngHint now =>
    ((s.popNonCancelWithRngIfDue rngHint now).1.map Prod.fst,
      (s.popNonCancelWithRngIfDue rngHint now).2)
  | .popCancelOnly => s.popCancelOnly
  | .popCancelOnlyWithHint rngHint => s.popCancelOnlyWithHint rngHint
  | .popTimedOnly now => s.popTimedOnly now
  | .popTimedOnlyWithHint rngHint now => s.popTimedOnlyWithHint rngHint now
  | .popReadyOnly => s.popReadyOnly
  | .popReadyOnlyWithHint rngHint => s.popReadyOnlyWithHint rngHint
  | .popAnyLaneWithHint rngHint now =>
    ((s.popAnyLaneWithHint rngHint now).1.map Prod.snd, (s.popAnyLaneWithHint rngHint now).2)

/-- The lanes a pop looks at. -/
def looks : PopKind → List DispatchLane
  | .popCancelWithRng _ | .popCancelOnly | .popCancelOnlyWithHint _ => [.cancel]
  | .popTimedOnly _ | .popTimedOnlyWithHint _ _ => [.timed]
  | .popReadyOnly | .popReadyOnlyWithHint _ => [.ready]
  | .popNonCancelWithRng _ | .popNonCancelWithRngIfDue _ _ => [.timed, .ready]
  | _ => [.cancel, .timed, .ready]

/-- The time up to which a pop takes timed entries, if it compares deadlines. -/
def now : PopKind → Option Time
  | .popWithLaneIfDue _ now | .popNonCancelWithRngIfDue _ now | .popTimedOnly now
  | .popTimedOnlyWithHint _ now | .popAnyLaneWithHint _ now => some now
  | _ => none

theorem exec_spec {s : Scheduler} (kind : PopKind) (hvalid : s.scheduled.Valid) :
    PopSpec kind.looks kind.now s (kind.exec s).1 (kind.exec s).2 := by
  have hsize : s.size < s.size + 1 := Nat.lt_succ_self _
  cases kind with
  | pop => exact pop_spec hvalid
  | popWithRngHint rngHint | popWithLane rngHint =>
    exact popLoop_spec true none rngHint _ s hsize hvalid
  | popWithLaneIfDue rngHint now => exact popLoop_spec true (some now) rngHint _ s hsize hvalid
  | popCancelWithRng rngHint =>
    have h := claimCancel_spec (popWithRng_pops s.scratchCapacity rngHint) hvalid
    have hanswer : ((s.popCancelWithRng rngHint).1.map Prod.fst) =
        (s.claimCancel (popWithRng s.scratchCapacity rngHint)).1 := by
      simp [Scheduler.popCancelWithRng, Function.comp_def]
    simp only [exec, hanswer]
    exact h
  | popNonCancelWithRng rngHint => exact popLoop_spec false none rngHint _ s hsize hvalid
  | popNonCancelWithRngIfDue rngHint now =>
    exact popLoop_spec false (some now) rngHint _ s hsize hvalid
  | popCancelOnly => exact claimCancel_spec pop_pops hvalid
  | popCancelOnlyWithHint rngHint =>
    exact claimCancel_spec (popWithRng_pops _ rngHint) hvalid
  | popTimedOnly now => exact claimTimedDue_spec pop_pops now hvalid
  | popTimedOnlyWithHint rngHint now =>
    exact claimTimedDue_spec (popWithRng_pops _ rngHint) now hvalid
  | popReadyOnly => exact claimReady_spec pop_pops hvalid
  | popReadyOnlyWithHint rngHint => exact claimReady_spec (popWithRng_pops _ rngHint) hvalid
  | popAnyLaneWithHint rngHint now => exact popAnyLaneWithHint_spec rngHint now hvalid

end PopKind

/-- The queries that prune lanes. -/
inductive Query where
  | hasRunnableWork (now : Time)
  | nextDeadline
  | hasCancelWork
  | hasTimedWork
  | hasReadyWork
deriving DecidableEq, Repr

/-- The state after a query. -/
def Query.exec (s : Scheduler) : Query → Scheduler
  | .hasRunnableWork now => (s.hasRunnableWork now).2
  | .nextDeadline => s.nextDeadline.2
  | .hasCancelWork => s.hasCancelWork.2
  | .hasTimedWork => s.hasTimedWork.2
  | .hasReadyWork => s.hasReadyWork.2

variable {s : Scheduler}

theorem pruneCancelHead_took (hvalid : s.scheduled.Valid) : Took s none s.pruneCancelHead :=
  Took.cancel (pruneHead_spec s.scheduled s.cancelLane.length s.cancelLane hvalid).1

theorem pruneTimedHead_took (hvalid : s.scheduled.Valid) : Took s none s.pruneTimedHead :=
  Took.timed (pruneHead_spec s.scheduled s.timedLane.length s.timedLane hvalid).1

theorem pruneReadyHead_took (hvalid : s.scheduled.Valid) : Took s none s.pruneReadyHead :=
  Took.ready (pruneHead_spec s.scheduled s.readyLane.length s.readyLane hvalid).1

theorem Query.exec_took (query : Query) (hvalid : s.scheduled.Valid) :
    Took s none (query.exec s) := by
  cases query with
  | hasRunnableWork now =>
    have hcancel := pruneCancelHead_took hvalid
    have hready := hcancel.trans (pruneReadyHead_took hcancel.valid)
    have htimed := hready.trans (pruneTimedHead_took hready.valid)
    simp only [exec, Scheduler.hasRunnableWork, nextValidCancelEntry, nextValidReadyEntry,
      nextValidTimedEntry]
    cases peek s.pruneCancelHead.cancelLane with
    | some _ => exact hcancel
    | none =>
      simp only
      cases peek s.pruneCancelHead.pruneReadyHead.readyLane with
      | some _ => exact hready
      | none =>
        simp only
        cases peek s.pruneCancelHead.pruneReadyHead.pruneTimedHead.timedLane with
        | some _ | none => exact htimed
  | nextDeadline | hasTimedWork => exact pruneTimedHead_took hvalid
  | hasCancelWork => exact pruneCancelHead_took hvalid
  | hasReadyWork => exact pruneReadyHead_took hvalid

end Scheduler

/-- The calls of the scheduler. -/
inductive SchedulerOp where
  | schedule (task : TaskId) (priority : Nat)
  | scheduleTimed (task : TaskId) (deadline : Time)
  | scheduleCancel (task : TaskId) (priority : Nat)
  | moveToCancelLane (task : TaskId) (priority : Nat)
  | remove (task : TaskId)
  | pop (kind : Scheduler.PopKind)
  | stealReadyBatch (maxSteal : Nat)
  | query (q : Scheduler.Query)
deriving DecidableEq, Repr

/-- Runs a call: the tasks it hands out, and the scheduler afterwards. -/
def SchedulerOp.exec (s : Scheduler) : SchedulerOp → List TaskId × Scheduler
  | .schedule task priority => ([], s.schedule task priority)
  | .scheduleTimed task deadline => ([], s.scheduleTimed task deadline)
  | .scheduleCancel task priority => ([], s.scheduleCancel task priority)
  | .moveToCancelLane task priority => ([], s.moveToCancelLane task priority)
  | .remove task => ([], s.remove task)
  | .pop kind => ((kind.exec s).1.toList, (kind.exec s).2)
  | .stealReadyBatch maxSteal =>
    ((s.stealReadyBatch maxSteal).1.map Prod.fst, (s.stealReadyBatch maxSteal).2)
  | .query q => ([], q.exec s)

/-- A call in a history, with the tasks it handed out. -/
structure SchedulerEvent where
  op : SchedulerOp
  dispatched : List TaskId
deriving DecidableEq, Repr

namespace SchedulerEvent

/-- The call schedules the task. -/
def Schedules (e : SchedulerEvent) (task : TaskId) : Prop :=
  (∃ priority, e.op = .schedule task priority) ∨ (∃ deadline, e.op = .scheduleTimed task deadline) ∨
    (∃ priority, e.op = .scheduleCancel task priority) ∨
      ∃ priority, e.op = .moveToCancelLane task priority

/-- The call pops, steals or removes the task. -/
def Takes (e : SchedulerEvent) (task : TaskId) : Prop :=
  task ∈ e.dispatched ∨ e.op = .remove task

end SchedulerEvent

/-- The task has been scheduled, and since its last scheduling it has not been
popped, stolen or removed. -/
def Pending (history : List SchedulerEvent) (task : TaskId) : Prop :=
  ∃ before e after, history = before ++ e :: after ∧ e.Schedules task ∧
    ∀ e' ∈ after, ¬ e'.Schedules task ∧ ¬ e'.Takes task

/-- The scheduler as a transition system, for a given initial capacity. -/
def schedulerSystem (capacity : Nat) : TransitionSystem Scheduler SchedulerEvent where
  init s := s = Scheduler.withCapacity capacity
  step s e s' := e.op.exec s = (e.dispatched, s')

theorem pending_snoc_iff (history : List SchedulerEvent) (e : SchedulerEvent) (task : TaskId) :
    Pending (history ++ [e]) task ↔
      e.Schedules task ∨ (Pending history task ∧ ¬ e.Takes task) := by
  constructor
  · rintro ⟨before, e₀, after, heq, hsched, hafter⟩
    rcases snoc_cases heq with ⟨-, rfl, -⟩ | ⟨after', rfl, hhist⟩
    · exact .inl hsched
    · refine .inr ⟨⟨before, e₀, after', hhist, hsched, fun e' he' => ?_⟩, ?_⟩
      · exact hafter e' (mem_append_left _ he')
      · exact (hafter e (mem_append_right _ mem_cons_self)).2
  · intro h
    by_cases hsched : e.Schedules task
    · exact ⟨history, e, [], rfl, hsched, nofun⟩
    · obtain ⟨⟨before, e₀, after, rfl, hs₀, hafter⟩, htakes⟩ := h.resolve_left hsched
      refine ⟨before, e₀, after ++ [e], by simp, hs₀, fun e' he' => ?_⟩
      rcases mem_append.mp he' with he' | he'
      · exact hafter e' he'
      · rw [mem_singleton.mp he']
        exact ⟨hsched, htakes⟩

variable {capacity : Nat} {s s' : Scheduler} {history : List SchedulerEvent}
  {e : SchedulerEvent}

/-- What a call does to the scheduled set: it schedules one task, or it takes
some tasks out. -/
theorem schedulerStep_cases
    (hstep : (schedulerSystem capacity).step s e s') (hvalid : s.scheduled.Valid) :
    (∃ task, Added s task s' ∧ e.dispatched = [] ∧
      (∀ t, e.Schedules t ↔ t = task) ∧ ∀ t, ¬ e.Takes t) ∨
    (∃ taken, TookMany s taken s' ∧ (∀ t, ¬ e.Schedules t) ∧
      (∀ t ∈ s.scheduled.elems, e.Takes t ↔ t ∈ taken) ∧
      e.dispatched.Nodup ∧ ∀ t ∈ e.dispatched, t ∈ taken) := by
  obtain ⟨op, dispatched⟩ := e
  have hexec : op.exec s = (dispatched, s') := hstep
  obtain rfl : (op.exec s).1 = dispatched := congrArg Prod.fst hexec
  obtain rfl : (op.exec s).2 = s' := congrArg Prod.snd hexec
  cases op with
  | schedule task x | scheduleTimed task x | scheduleCancel task x | moveToCancelLane task x =>
    refine .inl ⟨task, ?_, rfl, ?_, ?_⟩
    · first
      | exact schedule_added task x hvalid
      | exact scheduleTimed_added task x hvalid
      | exact scheduleCancel_added task x hvalid
      | exact moveToCancelLane_added task x hvalid
    · intro t
      simp [SchedulerEvent.Schedules, eq_comm]
    · intro t
      simp [SchedulerEvent.Takes, SchedulerOp.exec]
  | remove task =>
    refine .inr ⟨_, .of_took (remove_took task hvalid), ?_, ?_, nodup_nil, nofun⟩
    · intro t
      simp [SchedulerEvent.Schedules]
    · intro t ht
      simp only [SchedulerEvent.Takes, SchedulerOp.exec, not_mem_nil, false_or,
        SchedulerOp.remove.injEq]
      by_cases hin : task ∈ s.scheduled.elems
      · simp [hin, eq_comm]
      · have hne : task ≠ t := fun heq => hin (heq ▸ ht)
        simp [hin, hne]
  | pop kind =>
    have hmany := TookMany.of_took (kind.exec_spec hvalid).took
    refine .inr ⟨_, hmany, ?_, ?_, hmany.nodup, fun t ht => ht⟩
    · intro t
      simp [SchedulerEvent.Schedules]
    · intro t _
      simp [SchedulerEvent.Takes, SchedulerOp.exec]
  | stealReadyBatch maxSteal =>
    have hmany := stealReadyBatch_took maxSteal hvalid
    refine .inr ⟨_, hmany, ?_, ?_, hmany.nodup, fun t ht => ht⟩
    · intro t
      simp [SchedulerEvent.Schedules]
    · intro t _
      simp only [SchedulerEvent.Takes, SchedulerOp.exec, reduceCtorEq, or_false]
  | query q =>
    have hmany := TookMany.of_took (q.exec_took hvalid)
    refine .inr ⟨_, hmany, ?_, ?_, nodup_nil, fun t ht => ht⟩
    · intro t
      simp [SchedulerEvent.Schedules]
    · intro t _
      simp [SchedulerEvent.Takes, SchedulerOp.exec]

/-- What a history says about the scheduler it leads to. -/
structure DispatchInv (history : List SchedulerEvent) (s : Scheduler) : Prop where
  valid : s.scheduled.Valid
  covered : ∀ task ∈ s.scheduled.elems, ∃ lane, ∃ x ∈ s.entries lane, x.1 = task
  pending : ∀ task, task ∈ s.scheduled.elems ↔ Pending history task
  dispatched : ∀ before e after, history = before ++ e :: after →
    e.dispatched.Nodup ∧ ∀ task ∈ e.dispatched, Pending before task

theorem dispatchInv_step
    (inv : DispatchInv history s) (hstep : (schedulerSystem capacity).step s e s') :
    DispatchInv (history ++ [e]) s' := by
  -- the last event of a longer history is the new one
  have hpast : (e.dispatched.Nodup ∧ ∀ task ∈ e.dispatched, Pending history task) →
      ∀ before e₀ after, history ++ [e] = before ++ e₀ :: after →
        e₀.dispatched.Nodup ∧ ∀ task ∈ e₀.dispatched, Pending before task := by
    intro hnew before e₀ after heq
    rcases snoc_cases heq with ⟨rfl, rfl, -⟩ | ⟨after', -, hhist⟩
    · exact hnew
    · exact inv.dispatched before e₀ after' hhist
  rcases schedulerStep_cases hstep inv.valid with
    ⟨task, hadd, hnone, hsched, htakes⟩ | ⟨taken, hmany, hsched, htakes, hnodup, htaken⟩
  · constructor
    case valid => exact hadd.valid
    case covered =>
      intro t ht
      rw [hadd.elems, Finset.mem_insert] at ht
      by_cases hin : t ∈ s.scheduled.elems
      · obtain ⟨lane, x, hx, hxt⟩ := inv.covered t hin
        exact ⟨lane, x, hadd.grow lane x hx, hxt⟩
      · have heq : t = task := ht.resolve_right hin
        rw [heq] at hin ⊢
        exact hadd.covers hin
    case pending =>
      intro t
      rw [hadd.elems, Finset.mem_insert, pending_snoc_iff, hsched, inv.pending]
      simp [htakes t]
    case dispatched =>
      refine hpast ?_
      rw [hnone]
      exact ⟨nodup_nil, nofun⟩
  · constructor
    case valid => exact hmany.valid
    case covered =>
      intro t ht
      have hin : t ∈ s.scheduled.elems := by
        rw [hmany.elems] at ht
        exact (Finset.mem_sdiff.mp ht).1
      obtain ⟨lane, x, hx, rfl⟩ := inv.covered t hin
      exact ⟨lane, x, hmany.keep lane x hx ht, rfl⟩
    case pending =>
      intro t
      rw [hmany.elems, Finset.mem_sdiff, mem_toFinset, pending_snoc_iff, ← inv.pending]
      by_cases hin : t ∈ s.scheduled.elems
      · simp [hin, hsched t, htakes t hin]
      · simp [hin, hsched t]
    case dispatched =>
      refine hpast ⟨hnodup, fun t ht => ?_⟩
      rw [← inv.pending]
      exact hmany.mem t (htaken t ht)

theorem dispatchInv_run {s₀ : Scheduler} (hinit : (schedulerSystem capacity).init s₀)
    (hrun : (schedulerSystem capacity).Run s₀ history s) :
    DispatchInv history s := by
  refine hrun.history_induction ?_ fun _ _ _ _ _ inv hstep => dispatchInv_step inv hstep
  have hnew : s₀ = withCapacity capacity := hinit
  obtain ⟨hvalid, hempty⟩ := ScheduledSet.withCapacity_spec (max capacity 1)
  have hset : s₀.scheduled = ScheduledSet.withCapacity (max capacity 1) := by rw [hnew]; rfl
  constructor
  case valid => rwa [hset]
  case covered =>
    intro task htask
    rw [hset, hempty] at htask
    exact absurd htask (Finset.notMem_empty _)
  case pending =>
    intro task
    rw [hset, hempty]
    simp [Pending]
  case dispatched =>
    intro before e after heq
    simp at heq

section Drain

/-- Pops one after the other until one of them answers nothing. -/
def drain : List Scheduler.PopKind → Scheduler → List TaskId × Scheduler
  | [], s => ([], s)
  | kind :: kinds, s =>
    match kind.exec s with
    | (none, s) => ([], s)
    | (some task, s) => (task :: (drain kinds s).1, (drain kinds s).2)

/-- A pop over all lanes, at a time past the deadline of every scheduled task. -/
def Scheduler.PopKind.Drains (kind : PopKind) (s : Scheduler) : Prop :=
  kind.looks = [.cancel, .timed, .ready] ∧
    ∀ now, kind.now = some now →
      ∀ entry ∈ s.timedLane, entry.task ∈ s.scheduled.elems → entry.deadline ≤ now

variable {s : Scheduler} {kind : PopKind}

theorem Scheduler.PopKind.Drains.of_took {r : Option TaskId}
    (h : kind.Drains s) (htook : Took s r s') :
    kind.Drains s' := by
  refine ⟨h.1, fun now hnow entry hentry htask => ?_⟩
  have hmem := htook.sub .timed (entry.task, entry.deadline) (mem_map.mpr ⟨entry, hentry, rfl⟩)
  obtain ⟨old, hold, heq⟩ := mem_map.mp hmem
  obtain ⟨hsame, hdeadline⟩ := Prod.mk.inj heq
  rw [← hdeadline]
  refine h.2 now hnow old hold ?_
  rw [hsame]
  exact htook.subset htask

/-- A draining pop answers nothing only when nothing is scheduled. -/
theorem drains_none (hvalid : s.scheduled.Valid)
    (hcovered : ∀ task ∈ s.scheduled.elems, ∃ lane, ∃ x ∈ s.entries lane, x.1 = task)
    (hdrains : kind.Drains s) (hnone : (kind.exec s).1 = none) :
    s.scheduled.elems = ∅ := by
  have hspec := kind.exec_spec hvalid
  have hsame := hspec.took.none_spec hnone
  rw [Finset.eq_empty_iff_forall_notMem]
  intro task htask
  obtain ⟨lane, x, hx, rfl⟩ := hcovered task htask
  have hx' := hspec.took.keep lane x hx (by rwa [hsame])
  have hlane : lane ∈ kind.looks := by
    rw [hdrains.1]
    cases lane <;> simp
  obtain ⟨rfl, now, hnow, hlate⟩ := hspec.left hnone lane hlane x hx'
  obtain ⟨entry, hentry, rfl⟩ := mem_map.mp hx
  exact absurd hlate (Nat.not_lt.mpr (hdrains.2 now hnow entry hentry htask))

theorem drain_spec (kinds : List PopKind) (hvalid : s.scheduled.Valid)
    (hcovered : ∀ task ∈ s.scheduled.elems, ∃ lane, ∃ x ∈ s.entries lane, x.1 = task)
    (hdrains : ∀ kind ∈ kinds, kind.Drains s) (hlong : s.scheduled.elems.card < kinds.length) :
    (drain kinds s).1.Nodup ∧ (drain kinds s).1.toFinset = s.scheduled.elems ∧
      (drain kinds s).2.scheduled.len = 0 := by
  induction kinds generalizing s with
  | nil => exact absurd hlong (Nat.not_lt_zero _)
  | cons kind kinds ih =>
    have hkind := hdrains kind mem_cons_self
    have hspec := kind.exec_spec hvalid
    have hempty := drains_none hvalid hcovered hkind
    unfold drain
    rcases hexec : kind.exec s with ⟨r, s'⟩
    rw [hexec] at hspec hempty
    cases r with
    | none =>
      have hnil := hempty rfl
      refine ⟨nodup_nil, by simp [hnil], ?_⟩
      have hsame : s'.scheduled.elems = s.scheduled.elems := hspec.took.none_spec rfl
      have hlen : s'.scheduled.len = s'.scheduled.elems.card := hspec.took.valid.len
      rw [hlen, hsame, hnil, Finset.card_empty]
    | some task =>
      obtain ⟨hin, helems⟩ := hspec.took.some_spec task rfl
      have hcard := Finset.card_erase_of_mem hin
      have hpos := Finset.card_pos.mpr ⟨task, hin⟩
      rw [length_cons] at hlong
      have hcovered' : ∀ t ∈ s'.scheduled.elems, ∃ lane, ∃ x ∈ s'.entries lane, x.1 = t := by
        intro t ht
        obtain ⟨lane, x, hx, rfl⟩ := hcovered t (hspec.took.subset ht)
        exact ⟨lane, x, hspec.took.keep lane x hx ht, rfl⟩
      obtain ⟨hnodup, hset, hleft⟩ := ih hspec.took.valid hcovered'
        (fun k hk => (hdrains k (mem_cons_of_mem _ hk)).of_took hspec.took)
        (by simp only [helems, hcard]; omega)
      refine ⟨nodup_cons.mpr ⟨?_, hnodup⟩, ?_, hleft⟩
      · rw [← mem_toFinset, hset, helems]
        exact Finset.notMem_erase task _
      · rw [toFinset_cons, hset, helems, Finset.insert_erase hin]

end Drain

/-- What holds of a scheduler reached by a history of calls. -/
structure DispatchOk (history : List SchedulerEvent) (s : Scheduler) : Prop where
  covered : ∀ task, s.scheduled.contains task = true →
    ∃ lane, ∃ x ∈ s.entries lane, x.1 = task
  scheduled : ∀ task, s.scheduled.contains task = true ↔ Pending history task
  dispatched : ∀ before e after, history = before ++ e :: after →
    e.dispatched.Nodup ∧ ∀ task ∈ e.dispatched, Pending before task
  len : ∃ tasks : Finset TaskId,
    (∀ task, task ∈ tasks ↔ s.scheduled.contains task = true) ∧ s.len = tasks.card
  drained : ∀ kinds : List Scheduler.PopKind, (∀ kind ∈ kinds, kind.Drains s) →
    s.len < kinds.length →
      (drain kinds s).1.Nodup ∧
      (∀ task, task ∈ (drain kinds s).1 ↔ s.scheduled.contains task = true) ∧
      (drain kinds s).2.isEmpty = true

/-- **Exactly-once dispatch.**  After any sequence of calls every scheduled task
has an entry in a lane, every task handed out so far was scheduled and not
popped, stolen or removed since, `len` is the size of the scheduled set, and
draining hands out the scheduled tasks, each once. -/
theorem exactly_once_dispatch {capacity : Nat} {s₀ s : Scheduler} {history : List SchedulerEvent}
    (hinit : (schedulerSystem capacity).init s₀)
    (hrun : (schedulerSystem capacity).Run s₀ history s) :
    DispatchOk history s := by
  have inv := dispatchInv_run hinit hrun
  constructor
  case covered =>
    intro task htask
    exact inv.covered task ((ScheduledSet.mem_elems _ _).mpr htask)
  case scheduled =>
    intro task
    rw [← ScheduledSet.mem_elems]
    exact inv.pending task
  case dispatched => exact inv.dispatched
  case len => exact ⟨s.scheduled.elems, ScheduledSet.mem_elems _, inv.valid.len⟩
  case drained =>
    intro kinds hdrains hlong
    have hlen : s.len = s.scheduled.elems.card := inv.valid.len
    obtain ⟨hnodup, hset, hleft⟩ := drain_spec kinds inv.valid inv.covered hdrains (by rwa [← hlen])
    refine ⟨hnodup, fun task => ?_, ?_⟩
    · rw [← List.mem_toFinset, hset, ScheduledSet.mem_elems]
    · exact decide_eq_true hleft

/-- A task that is scheduled, promoted to the cancel lane and then popped. -/
theorem exactly_once_dispatch_promoted :
    DispatchOk
      [⟨.schedule ⟨⟨3, 0⟩⟩ 7, []⟩, ⟨.scheduleCancel ⟨⟨3, 0⟩⟩ 9, []⟩,
        ⟨.pop (.popAnyLaneWithHint 5 0), [⟨⟨3, 0⟩⟩]⟩]
      (((((Scheduler.withCapacity 1).schedule ⟨⟨3, 0⟩⟩ 7).scheduleCancel
        ⟨⟨3, 0⟩⟩ 9).popAnyLaneWithHint 5 0).2) := by
  have hinit : (schedulerSystem 1).init (Scheduler.withCapacity 1) := rfl
  refine exactly_once_dispatch hinit ?_
  refine .snoc (.snoc (.single rfl) rfl) ?_
  refine Prod.ext ?_ rfl
  decide +kernel

end Asupersync
