import Asupersync.Record.Task
import Asupersync.Lib.TransitionSystem

/-!
# The cancellation lifecycle of a task record

Every sequence of lifecycle calls on one fresh task record is a run of
`taskSystem`.  A label is the call together with its reply, so the history of a
run names every budget that was requested and every witness that was handed out.

**Invariant.**  `LifecycleInv history t` ties the current record to the whole
history: the phase cell agrees with the state, every store so far was a legal
transition, every witness handed out so far precedes whatever the record can
still witness, and the cleanup budget is the combination of all requested
budgets.

**Results.**
* `lifecycleInv_step`: one call keeps the invariant.
* `task_lifecycle`: what follows for every run.
-/

namespace Asupersync

open Lib TaskRecord TaskState Option

/-- The lifecycle calls on a task record. -/
inductive TaskOp where
  | startRunning
  | requestCancelWithBudget (reason : CancelReason) (cleanupBudget : Budget)
  | acknowledgeCancel
  | cleanupDone
  | finalizeDoneWithWitness
  | complete (outcome : TaskOutcome)
  | cancelWitness

/-- What a lifecycle call returns. -/
inductive TaskReply where
  | flag (changed : Bool)
  | reason (reason : Option CancelReason)
  | witness (witness : Option CancelWitness)

/-- A call with its reply. -/
abbrev TaskEvent := TaskOp × TaskReply

namespace TaskRecord

/-- Performs one lifecycle call. -/
def exec (t : TaskRecord) : TaskOp → TaskRecord × TaskReply
  | .startRunning => (t.startRunning.1, .flag t.startRunning.2)
  | .requestCancelWithBudget reason budget =>
    ((t.requestCancelWithBudget reason budget).1,
      .flag (t.requestCancelWithBudget reason budget).2)
  | .acknowledgeCancel => (t.acknowledgeCancel.1, .reason t.acknowledgeCancel.2)
  | .cleanupDone => (t.cleanupDone.1, .flag t.cleanupDone.2)
  | .finalizeDoneWithWitness =>
    (t.finalizeDoneWithWitness.1, .witness t.finalizeDoneWithWitness.2)
  | .complete outcome => ((t.complete outcome).1, .flag (t.complete outcome).2)
  | .cancelWitness => (t, .witness t.cancelWitness)

/-- A record as the constructor leaves it, with or without a shared context. -/
def Fresh (t : TaskRecord) : Prop :=
  ∃ id owner budget createdAt,
    t = newWithTime id owner budget createdAt ∨
      ∃ inner, t = (newWithTime id owner budget createdAt).setCxInner inner

end TaskRecord

/-- The lifecycle calls as a transition system. -/
def taskSystem : TransitionSystem TaskRecord TaskEvent where
  init := TaskRecord.Fresh
  step t event t' := t.exec event.1 = (t', event.2)

/-- The witness an event hands out. -/
def TaskEvent.witness? (event : TaskEvent) : Option CancelWitness :=
  match event.2 with
  | .witness w => w
  | _ => none

/-- The cleanup budget an event requests. -/
def TaskEvent.budget? (event : TaskEvent) : Option Budget :=
  match event.1 with
  | .requestCancelWithBudget _ budget => some budget
  | _ => none

/-- All witnesses handed out, oldest first. -/
def witnesses (history : List TaskEvent) : List CancelWitness :=
  history.filterMap TaskEvent.witness?

/-- All cleanup budgets requested, oldest first. -/
def requestedBudgets (history : List TaskEvent) : List Budget :=
  history.filterMap TaskEvent.budget?

/-- Some cancel request was answered with `true`. -/
def CancelAccepted (history : List TaskEvent) : Prop :=
  ∃ reason budget,
    ((TaskOp.requestCancelWithBudget reason budget, TaskReply.flag true) : TaskEvent) ∈ history

/-- The outcome is a cancellation or a panic. -/
def Outcome.isCancelledOrPanicked : TaskOutcome → Prop
  | .cancelled _ | .panicked _ => True
  | _ => False

section Invariant

/-- The reason a state carries for witnesses, with the phase it is witnessed in. -/
def TaskState.witnessed? : TaskState → Option (CancelPhase × CancelReason)
  | .cancelRequested reason _ => some (.requested, reason)
  | .cancelling reason _ => some (.cancelling, reason)
  | .finalizing reason _ => some (.finalizing, reason)
  | .completed (.cancelled reason) => some (.completed, reason)
  | _ => none

theorem TaskRecord.cancelWitness_eq (t : TaskRecord) :
    t.cancelWitness = if t.cancelEpoch = 0 then none
      else t.state.witnessed?.map fun p => ⟨t.id, t.owner, t.cancelEpoch, p.1, p.2⟩ := by
  unfold cancelWitness
  split
  · rfl
  · cases t.state with
    | completed outcome => cases outcome <;> rfl
    | _ => rfl

/-- `Precedes w t`: no witness that `t` can still hand out contradicts `w`. -/
structure Precedes (w : CancelWitness) (t : TaskRecord) : Prop where
  taskId : w.taskId = t.id
  regionId : w.regionId = t.owner
  epoch : w.epoch = t.cancelEpoch
  monotone :
    (∃ phase reason, t.state.witnessed? = some (phase, reason) ∧
      w.phase.rank ≤ phase.rank ∧ w.reason.severity ≤ reason.severity) ∨
    (t.state.isTerminal = true ∧ t.state.witnessed? = none)

/-- The epoch is 1 exactly from the first cancellation on; a panicked or plain
completion keeps the epoch it found. -/
def EpochOk (t : TaskRecord) : Prop :=
  t.cancelEpoch ≤ 1 ∧
    (t.state.witnessed?.isSome = true → t.cancelEpoch = 1) ∧
    (t.state = .created ∨ t.state = .running → t.cancelEpoch = 0)

/-- Once the cleanup phase has begun the context and the poll counter respect the
cleanup budget. -/
def BudgetInForce (t : TaskRecord) : Prop :=
  match t.state with
  | .cancelling _ budget | .finalizing _ budget =>
    t.pollsRemaining ≤ budget.pollQuota ∧
      ∀ inner, t.cxInner = some inner →
        inner.budget = budget ∧ inner.budgetBaseline = budget
  | _ => True

/-- The record agrees with everything that was done to it. -/
structure LifecycleInv (history : List TaskEvent) (t : TaskRecord) : Prop where
  cell : t.phase.load = t.state.phase
  stores : ∀ p ∈ t.phase.stores, TaskPhase.isValidTransition p.1 p.2 = true
  epoch : EpochOk t
  precedes : ∀ w ∈ witnesses history, Precedes w t
  ordered : (witnesses history).Pairwise
    fun w w' => CancelWitness.validateTransition (some w) w' = .ok ()
  accepted : CancelAccepted history →
    t.state.isCancelling = true ∨
      ∃ outcome, t.state = .completed outcome ∧ outcome.isCancelledOrPanicked
  budget : t.state.isTerminal = false →
    t.cleanupBudget = Budget.combineAll (requestedBudgets history)
  inForce : BudgetInForce t

end Invariant

section Moves

/-- The state changes a lifecycle call can make, with the call and its reply. -/
inductive LifecycleMove : TaskState → TaskEvent → TaskState → Prop
  | start :
      LifecycleMove .created (.startRunning, .flag true) .running
  | requestCreated (reason : CancelReason) (budget : Budget) :
      LifecycleMove .created (.requestCancelWithBudget reason budget, .flag true)
        (.cancelRequested reason budget)
  | requestRunning (reason : CancelReason) (budget : Budget) :
      LifecycleMove .running (.requestCancelWithBudget reason budget, .flag true)
        (.cancelRequested reason budget)
  | strengthenRequested (old reason : CancelReason) (b budget : Budget) :
      LifecycleMove (.cancelRequested old b)
        (.requestCancelWithBudget reason budget, .flag false)
        (.cancelRequested (old.strengthen reason) (b.combine budget))
  | strengthenCancelling (old reason : CancelReason) (b budget : Budget) :
      LifecycleMove (.cancelling old b)
        (.requestCancelWithBudget reason budget, .flag false)
        (.cancelling (old.strengthen reason) (b.combine budget))
  | strengthenFinalizing (old reason : CancelReason) (b budget : Budget) :
      LifecycleMove (.finalizing old b)
        (.requestCancelWithBudget reason budget, .flag false)
        (.finalizing (old.strengthen reason) (b.combine budget))
  | acknowledge (reason : CancelReason) (b : Budget) :
      LifecycleMove (.cancelRequested reason b) (.acknowledgeCancel, .reason (some reason))
        (.cancelling reason b)
  | cleanup (reason : CancelReason) (b : Budget) :
      LifecycleMove (.cancelling reason b) (.cleanupDone, .flag true)
        (.finalizing reason b)
  | finalize (reason : CancelReason) (b : Budget) (w : CancelWitness) :
      LifecycleMove (.finalizing reason b) (.finalizeDoneWithWitness, .witness (some w))
        (.completed (.cancelled reason))
  | complete (state : TaskState) (outcome : TaskOutcome) (h : state.isTerminal = false) :
      LifecycleMove state (.complete outcome, .flag true)
        (.completed (TaskRecord.finalOutcome state outcome))

/-- What a call that changes the record does to its other fields. -/
structure Moved (t : TaskRecord) (event : TaskEvent) (t' : TaskRecord) : Prop where
  move : LifecycleMove t.state event t'.state
  id : t'.id = t.id
  owner : t'.owner = t.owner
  phase : t'.phase = t.phase.store t'.state.phase
  epoch : t'.cancelEpoch =
    if t.cancelEpoch = 0 ∧ t'.state.witnessed?.isSome = true then 1 else t.cancelEpoch
  witness : ∀ w, event.witness? = some w →
    ∃ p, t'.state.witnessed? = some p ∧ w = ⟨t'.id, t'.owner, t'.cancelEpoch, p.1, p.2⟩
  inForce : BudgetInForce t → BudgetInForce t'

/-- What a call that changes nothing can reply. -/
structure Idle (t : TaskRecord) (event : TaskEvent) : Prop where
  notAccepted : event.2 ≠ .flag true
  budget : t.state.isTerminal = false → event.budget? = none
  witness : ∀ w, event.witness? = some w → t.cancelWitness = some w

variable {t : TaskRecord} {event : TaskEvent}

theorem Idle.of_quiet (hreply : event.2 ≠ .flag true)
    (hbudget : event.budget? = none) (hwitness : event.witness? = none) : Idle t event :=
  ⟨hreply, fun _ => hbudget, fun w hw => by cases hwitness.symm.trans hw⟩

theorem moved_startRunning (hs : t.state = .created) :
    Moved t (.startRunning, .flag true) (t.moveTo .running) := by
  constructor
  case move => rw [hs]; exact .start
  case epoch => simp [moveTo, witnessed?]
  case witness => simp [TaskEvent.witness?]
  case inForce => simp [BudgetInForce, moveTo]
  all_goals rfl

variable {reason : CancelReason} {b budget : Budget}

theorem moved_acknowledgeCancel (hepoch : EpochOk t) (hs : t.state = .cancelRequested reason b) :
    Moved t (.acknowledgeCancel, .reason (some reason))
      ({ t.installBudget b with pollsRemaining := b.pollQuota }.moveTo
        (.cancelling reason b)) := by
  have hone : t.cancelEpoch = 1 := hepoch.2.1 (by simp [hs, witnessed?])
  constructor
  case move => rw [hs]; exact .acknowledge reason b
  case epoch => simp [moveTo, installBudget, updateCx, hone]
  case witness => simp [TaskEvent.witness?]
  case inForce =>
    intro _
    refine ⟨le_refl _, ?_⟩
    intro inner hinner
    simp only [moveTo, installBudget, updateCx, map_eq_some_iff] at hinner
    obtain ⟨inner₀, _, rfl⟩ := hinner
    exact ⟨rfl, rfl⟩
  all_goals rfl

theorem moved_cleanupDone (hepoch : EpochOk t) (hs : t.state = .cancelling reason b) :
    Moved t (.cleanupDone, .flag true) (t.moveTo (.finalizing reason b)) := by
  have hone : t.cancelEpoch = 1 := hepoch.2.1 (by simp [hs, witnessed?])
  constructor
  case move => rw [hs]; exact .cleanup reason b
  case epoch => simp [moveTo, hone]
  case witness => simp [TaskEvent.witness?]
  case inForce => simp [BudgetInForce, moveTo, hs]
  all_goals rfl

theorem moved_finalizeDone (hepoch : EpochOk t) (hs : t.state = .finalizing reason b) :
    Moved t
      (.finalizeDoneWithWitness, .witness (some ⟨t.id, t.owner, t.cancelEpoch, .completed, reason⟩))
      (t.moveTo (.completed (.cancelled reason))) := by
  have hone : t.cancelEpoch = 1 := hepoch.2.1 (by simp [hs, witnessed?])
  constructor
  case move => rw [hs]; exact .finalize reason b _
  case epoch => simp [moveTo, hone]
  case witness =>
    intro w hw
    simp only [TaskEvent.witness?, some.injEq] at hw
    exact ⟨(.completed, reason), rfl, hw.symm⟩
  case inForce => simp [BudgetInForce, moveTo]
  all_goals rfl

theorem moved_complete (outcome : TaskOutcome) (hs : t.state.isTerminal = false) :
    Moved t (.complete outcome, .flag true) (t.complete outcome).1 := by
  have hrec : (t.complete outcome).1 =
      { t with
        cancelEpoch :=
          if (finalOutcome t.state outcome).isCancelled && t.cancelEpoch == 0
          then 1 else t.cancelEpoch }.moveTo
        (.completed (finalOutcome t.state outcome)) := by
    simp [complete, hs]
  rw [hrec]
  constructor
  case move => exact .complete t.state outcome hs
  case epoch =>
    have hwitness : ∀ outcome, (completed outcome).witnessed?.isSome = outcome.isCancelled := by
      rintro (_ | _ | _ | _) <;> rfl
    simp only [moveTo, hwitness, Bool.and_eq_true, beq_iff_eq]
    by_cases hc : (finalOutcome t.state outcome).isCancelled = true
    · simp [hc]
    · simp [hc]
  case witness => simp [TaskEvent.witness?]
  case inForce => simp [BudgetInForce, moveTo]
  all_goals rfl

/-- The first request. -/
theorem moved_requestFresh {epoch : Nat} (hzero : t.cancelEpoch = 0)
    (hmove : LifecycleMove t.state (.requestCancelWithBudget reason budget, .flag true)
      (.cancelRequested reason budget)) :
    Moved t (.requestCancelWithBudget reason budget, .flag true)
      (({ t.raiseCancelFlags with
        cancelEpoch := if t.cancelEpoch = 0 then 1 else epoch }.moveTo
          (.cancelRequested reason budget)).publishReason reason) := by
  constructor
  case move => exact hmove
  case epoch =>
    simp [hzero, publishReason, updateCx, moveTo, witnessed?]
  case witness => simp [TaskEvent.witness?]
  case inForce =>
    simp [BudgetInForce, publishReason, updateCx, moveTo]
  all_goals rfl

theorem moved_requestCancel (reason : CancelReason) (budget : Budget) (hepoch : EpochOk t)
    (hs : t.state.isTerminal = false) :
    Moved t
      (.requestCancelWithBudget reason budget, .flag (t.requestCancelWithBudget reason budget).2)
      (t.requestCancelWithBudget reason budget).1 := by
  -- one case per live state; the two fresh states share their branch
  cases hstate : t.state with
  | created =>
    simp only [requestCancelWithBudget, hstate]
    exact moved_requestFresh (hepoch.2.2 (.inl hstate)) (hstate ▸ .requestCreated reason budget)
  | running =>
    simp only [requestCancelWithBudget, hstate]
    exact moved_requestFresh (hepoch.2.2 (.inr hstate)) (hstate ▸ .requestRunning reason budget)
  | cancelRequested old b =>
    have hone : t.cancelEpoch = 1 := hepoch.2.1 (by simp [hstate, witnessed?])
    simp only [requestCancelWithBudget, hstate]
    constructor
    case move => rw [hstate]; exact .strengthenRequested old reason b budget
    case epoch =>
      simp [hone, publishReason, updateCx, moveTo, raiseCancelFlags]
    case witness => simp [TaskEvent.witness?]
    case inForce =>
      simp [BudgetInForce, publishReason, updateCx, moveTo]
    all_goals rfl
  | cancelling old b | finalizing old b =>
    have hone : t.cancelEpoch = 1 := hepoch.2.1 (by simp [hstate, witnessed?])
    simp only [requestCancelWithBudget, hstate]
    constructor
    case move =>
      rw [hstate]
      first
      | exact .strengthenCancelling old reason b budget
      | exact .strengthenFinalizing old reason b budget
    case epoch =>
      simp [hone, publishReason, updateCx, moveTo, raiseCancelFlags, installBudget]
    case witness => simp [TaskEvent.witness?]
    case inForce =>
      -- the new budget is put in force at once
      intro _
      refine And.intro (min_le_right _ _) fun inner hinner => ?_
      simp only [publishReason, updateCx, installBudget, moveTo, raiseCancelFlags, map_map,
        map_eq_some_iff] at hinner
      obtain ⟨inner₀, _, rfl⟩ := hinner
      exact ⟨rfl, rfl⟩
    all_goals rfl
  | completed outcome => simp [hstate, isTerminal] at hs

/-- Every call either leaves the record as it is or makes one of the listed moves. -/
theorem exec_cases {t' : TaskRecord} (hepoch : EpochOk t) (h : taskSystem.step t event t') :
    (t' = t ∧ Idle t event) ∨ Moved t event t' := by
  obtain ⟨op, reply⟩ := event
  have hexec : t.exec op = (t', reply) := h
  cases op with
  | startRunning | acknowledgeCancel | cleanupDone | finalizeDoneWithWitness =>
    simp only [exec, startRunning, acknowledgeCancel, cleanupDone, finalizeDoneWithWitness] at hexec
    split at hexec
    · rename_i hstate
      cases hexec
      first
      | exact .inr (moved_startRunning hstate)
      | exact .inr (moved_acknowledgeCancel hepoch hstate)
      | exact .inr (moved_cleanupDone hepoch hstate)
      | exact .inr (moved_finalizeDone hepoch hstate)
    · cases hexec
      exact .inl ⟨rfl, .of_quiet nofun rfl rfl⟩
  | requestCancelWithBudget reason budget =>
    cases hexec
    cases hstate : t.state with
    | completed outcome =>
      simp only [requestCancelWithBudget, hstate]
      exact .inl ⟨trivial, by simp, by simp [hstate, isTerminal], by simp [TaskEvent.witness?]⟩
    | _ => exact .inr (moved_requestCancel reason budget hepoch (by rw [hstate]; rfl))
  | complete outcome =>
    cases hexec
    cases hterm : t.state.isTerminal with
    | true =>
      simp only [complete, hterm, if_true]
      exact .inl ⟨trivial, .of_quiet nofun rfl rfl⟩
    | false =>
      have hflag : (t.complete outcome).2 = true := by
        simp [complete, hterm]
      rw [hflag]
      exact .inr (moved_complete outcome hterm)
  | cancelWitness =>
    cases hexec
    exact .inl ⟨rfl, by simp, by simp [TaskEvent.budget?], by simp [TaskEvent.witness?]⟩

end Moves

section Step

theorem witnesses_snoc (history : List TaskEvent) (event : TaskEvent) :
    witnesses (history ++ [event]) = witnesses history ++ event.witness?.toList := by
  cases h : event.witness? <;> simp [witnesses, h]

theorem requestedBudgets_snoc (history : List TaskEvent) (event : TaskEvent) :
    requestedBudgets (history ++ [event]) = requestedBudgets history ++ event.budget?.toList := by
  cases h : event.budget? <;> simp [requestedBudgets, h]

theorem cancelAccepted_snoc {history : List TaskEvent} {event : TaskEvent}
    (h : CancelAccepted (history ++ [event])) :
    CancelAccepted history ∨
      ∃ reason budget, event = (.requestCancelWithBudget reason budget, .flag true) := by
  obtain ⟨reason, budget, hmem⟩ := h
  rcases List.mem_append.mp hmem with hmem | hmem
  · exact .inl ⟨reason, budget, hmem⟩
  · exact .inr ⟨reason, budget, (List.mem_singleton.mp hmem).symm⟩

variable {s s' : TaskState} {event : TaskEvent}

theorem LifecycleMove.valid (h : LifecycleMove s event s') :
    TaskPhase.isValidTransition s.phase s'.phase = true := by
  cases h with
  | complete _ outcome hlive =>
    cases s with
    | completed o => simp [isTerminal] at hlive
    | _ => rfl
  | _ => rfl

theorem LifecycleMove.source_live (h : LifecycleMove s event s') : s.isTerminal = false := by
  cases h with
  | complete _ outcome hlive => exact hlive
  | _ => rfl

variable {reason : CancelReason} {phase : CancelPhase}

/-- The outcome of a task under cancellation: a panic, or a cancellation at least
as severe as the pending reason. -/
theorem finalOutcome_of_cancelling (hs : s.isTerminal = false)
    (hw : s.witnessed? = some (phase, reason)) (outcome : TaskOutcome) :
    (∃ payload, finalOutcome s outcome = .panicked payload) ∨
      ∃ reason', finalOutcome s outcome = .cancelled reason' ∧
        reason.severity ≤ reason'.severity := by
  have hcases : ∃ r b, r = reason ∧
      (s = .cancelRequested r b ∨ s = .cancelling r b ∨ s = .finalizing r b) := by
    cases s with
    | cancelRequested r b | cancelling r b | finalizing r b =>
      simp only [witnessed?, some.injEq, Prod.mk.injEq] at hw
      exact ⟨r, b, hw.2, by simp⟩
    | completed o => simp [isTerminal] at hs
    | created | running => simp [witnessed?] at hw
  obtain ⟨r, b, rfl, hs'⟩ := hcases
  cases outcome with
  | ok v | err e =>
    refine .inr ⟨r, ?_, le_refl _⟩
    rcases hs' with rfl | rfl | rfl <;> rfl
  | cancelled other =>
    refine .inr ⟨r.strengthen other, ?_, CancelReason.severity_le_strengthen r other⟩
    rcases hs' with rfl | rfl | rfl <;> rfl
  | panicked payload =>
    refine .inl ⟨payload, ?_⟩
    rcases hs' with rfl | rfl | rfl <;> rfl

/-- A move keeps the order of what is witnessed: the phase does not fall back and
the severity does not weaken, unless the task ends in a panic. -/
theorem LifecycleMove.witnessed_mono (h : LifecycleMove s event s')
    (hw : s.witnessed? = some (phase, reason)) :
    (∃ phase' reason', s'.witnessed? = some (phase', reason') ∧
      phase.rank ≤ phase'.rank ∧ reason.severity ≤ reason'.severity) ∨
    (s'.isTerminal = true ∧ s'.witnessed? = none) := by
  have hlive := h.source_live
  cases h with
  | start | requestCreated | requestRunning => simp [witnessed?] at hw
  | strengthenRequested old new b c
  | strengthenCancelling old new b c
  | strengthenFinalizing old new b c =>
    cases hw
    exact .inl ⟨_, _, rfl, le_refl _, CancelReason.severity_le_strengthen _ _⟩
  | acknowledge old b | cleanup old b | finalize old b w =>
    cases hw
    exact .inl ⟨_, _, rfl, by decide, le_refl _⟩
  | complete _ outcome _ =>
    rcases finalOutcome_of_cancelling hlive hw outcome with ⟨payload, hp⟩ | ⟨r', hr, hsev⟩
    · rw [hp]
      exact .inr ⟨rfl, rfl⟩
    · rw [hr]
      have hrank : phase.rank ≤ CancelPhase.completed.rank := by cases phase <;> decide
      exact .inl ⟨.completed, r', rfl, hrank, hsev⟩

variable {t t' : TaskRecord}

theorem Precedes.moved {w : CancelWitness} (hw : Precedes w t) (hepoch : EpochOk t)
    (h : Moved t event t') :
    Precedes w t' := by
  rcases hw.monotone with ⟨phase, reason, hsome, hrank, hsev⟩ | ⟨hterm, _⟩
  · have hone : t.cancelEpoch = 1 := hepoch.2.1 (by simp [hsome])
    have hkeep : t'.cancelEpoch = t.cancelEpoch := by rw [h.epoch]; simp [hone]
    refine ⟨hw.taskId.trans h.id.symm, hw.regionId.trans h.owner.symm,
      hw.epoch.trans hkeep.symm, ?_⟩
    rcases h.move.witnessed_mono hsome with ⟨phase', reason', hsome', hr, hs⟩ | hend
    · exact .inl ⟨phase', reason', hsome', le_trans hrank hr, le_trans hsev hs⟩
    · exact .inr hend
  · rw [h.move.source_live] at hterm
    cases hterm

theorem EpochOk.moved (hepoch : EpochOk t) (h : Moved t event t') : EpochOk t' := by
  obtain ⟨hle, hone, hzero⟩ := hepoch
  refine ⟨?_, ?_, ?_⟩
  · rw [h.epoch]
    split <;> omega
  · intro hsome
    rw [h.epoch]
    by_cases hz : t.cancelEpoch = 0
    · simp [hz, hsome]
    · simp only [hz, false_and, if_false]
      omega
  · -- the only move into a fresh state is `start`
    intro hfresh
    have hnone : t'.state.witnessed? = none := by
      rcases hfresh with hs | hs <;> simp [hs, witnessed?]
    have hsource : t.state = .created := by
      have hmove := h.move
      generalize t.state = s at hmove
      generalize t'.state = s' at hmove hfresh
      cases hmove <;> simp_all
    rw [h.epoch, hnone]
    simpa using hzero (.inl hsource)

/-- A move keeps an accepted cancellation on its way to a cancelled or panicked
completion. -/
theorem LifecycleMove.keeps_cancelled (h : LifecycleMove s event s') (hs : s.isCancelling = true ∨
      ∃ outcome, s = .completed outcome ∧ outcome.isCancelledOrPanicked) :
    s'.isCancelling = true ∨
      ∃ outcome, s' = .completed outcome ∧ outcome.isCancelledOrPanicked := by
  have hlive := h.source_live
  have hcancelling : s.isCancelling = true := by
    rcases hs with hc | ⟨outcome, rfl, _⟩
    · exact hc
    · simp [isTerminal] at hlive
  obtain ⟨phase, reason, hw⟩ : ∃ phase reason, s.witnessed? = some (phase, reason) := by
    cases s <;> simp_all [isCancelling, witnessed?]
  cases h with
  | start => simp [isCancelling] at hcancelling
  | finalize reason b w => exact .inr ⟨_, rfl, trivial⟩
  | complete _ outcome _ =>
    rcases finalOutcome_of_cancelling hlive hw outcome with ⟨payload, hp⟩ | ⟨r', hr, _⟩
    · exact .inr ⟨_, rfl, by rw [hp]; trivial⟩
    · exact .inr ⟨_, rfl, by rw [hr]; trivial⟩
  | _ => exact .inl rfl

theorem LifecycleMove.accepts {budget : Budget}
    (h : LifecycleMove s (.requestCancelWithBudget reason budget, .flag true) s') :
    s'.isCancelling = true := by
  cases h <;> rfl

/-- How a move changes the cleanup budget. -/
theorem Moved.cleanupBudget (h : Moved t event t') (hlive : t'.state.isTerminal = false) :
    t'.cleanupBudget = match event.budget?, t.cleanupBudget with
      | none, old => old
      | some c, none => some c
      | some c, some b => some (b.combine c) := by
  have hmove := h.move
  simp only [TaskRecord.cleanupBudget]
  generalize t.state = s at hmove
  generalize t'.state = s' at hmove hlive
  cases hmove with
  | finalize | complete => simp [isTerminal] at hlive
  | _ => rfl

variable {history : List TaskEvent}

/-- A new witness of what the record shows contradicts none of the earlier ones. -/
theorem witnesses_snoc_ok (hprecedes : ∀ w ∈ witnesses history, Precedes w t)
    (hordered : (witnesses history).Pairwise
      fun w w' => CancelWitness.validateTransition (some w) w' = .ok ())
    (hnew : ∀ w, event.witness? = some w →
      ∃ p, t.state.witnessed? = some p ∧ w = ⟨t.id, t.owner, t.cancelEpoch, p.1, p.2⟩) :
    (∀ w ∈ witnesses (history ++ [event]), Precedes w t) ∧
      (witnesses (history ++ [event])).Pairwise
        fun w w' => CancelWitness.validateTransition (some w) w' = .ok () := by
  rw [witnesses_snoc, List.pairwise_append]
  refine ⟨fun w hw => ?_, hordered, by cases event.witness? <;> simp, fun w hw w' hw' => ?_⟩
  · rcases List.mem_append.mp hw with hw | hw
    · exact hprecedes w hw
    · obtain ⟨p, hp, rfl⟩ := hnew w (by simpa using hw)
      exact ⟨rfl, rfl, rfl, .inl ⟨p.1, p.2, hp, le_refl _, le_refl _⟩⟩
  · obtain ⟨p, hp, rfl⟩ := hnew w' (by simpa using hw')
    have hpre := hprecedes w hw
    rw [CancelWitness.validateTransition_eq_ok_iff]
    rcases hpre.monotone with ⟨phase, reason, hsome, hrank, hsev⟩ | ⟨_, hnone⟩
    · rw [hsome, some.injEq] at hp
      subst hp
      exact ⟨hpre.taskId, hpre.regionId, hpre.epoch, hrank, hsev⟩
    · rw [hnone] at hp
      cases hp

theorem lifecycleInv_idle (inv : LifecycleInv history t) (h : Idle t event) :
    LifecycleInv (history ++ [event]) t := by
  -- the only witness an idle call hands out is the one the record still shows
  have hnew : ∀ w, event.witness? = some w →
      ∃ p, t.state.witnessed? = some p ∧ w = ⟨t.id, t.owner, t.cancelEpoch, p.1, p.2⟩ := by
    intro w hw
    have hcw := h.witness w hw
    rw [cancelWitness_eq] at hcw
    by_cases hz : t.cancelEpoch = 0
    · simp [hz] at hcw
    · simp only [hz, if_false, map_eq_some_iff] at hcw
      obtain ⟨p, hp, rfl⟩ := hcw
      exact ⟨p, hp, rfl⟩
  obtain ⟨hprecedes, hordered⟩ := witnesses_snoc_ok inv.precedes inv.ordered hnew
  refine { inv with precedes := hprecedes, ordered := hordered, accepted := ?_, budget := ?_ }
  · intro haccepted
    rcases cancelAccepted_snoc haccepted with hold | ⟨reason, budget, rfl⟩
    · exact inv.accepted hold
    · exact absurd rfl h.notAccepted
  · intro hlive
    rw [requestedBudgets_snoc, h.budget hlive]
    simpa using inv.budget hlive

theorem lifecycleInv_moved (inv : LifecycleInv history t) (h : Moved t event t') :
    LifecycleInv (history ++ [event]) t' := by
  have hepoch := inv.epoch.moved h
  obtain ⟨hprecedes, hordered⟩ := witnesses_snoc_ok
    (fun w hw => (inv.precedes w hw).moved inv.epoch h) inv.ordered h.witness
  constructor
  case cell => rw [h.phase, TaskPhaseCell.load_store]
  case stores =>
    intro p hp
    rw [h.phase, TaskPhaseCell.store, List.mem_append] at hp
    rcases hp with hp | hp
    · exact inv.stores p hp
    · have heq : p = (t.phase.load, t'.state.phase) := by simpa using hp
      rw [heq, inv.cell]
      exact h.move.valid
  case epoch => exact hepoch
  case precedes => exact hprecedes
  case ordered => exact hordered
  case accepted =>
    intro haccepted
    rcases cancelAccepted_snoc haccepted with hold | ⟨reason, budget, rfl⟩
    · exact h.move.keeps_cancelled (inv.accepted hold)
    · exact .inl h.move.accepts
  case budget =>
    intro hlive
    have hold := inv.budget h.move.source_live
    rw [h.cleanupBudget hlive, requestedBudgets_snoc, hold]
    cases event.budget? with
    | none => simp
    | some c =>
      rw [toList_some, Budget.combineAll_append_singleton]
      cases Budget.combineAll (requestedBudgets history) <;> rfl
  case inForce => exact h.inForce inv.inForce

/-- One lifecycle call keeps the invariant. -/
theorem lifecycleInv_step (inv : LifecycleInv history t) (h : taskSystem.step t event t') :
    LifecycleInv (history ++ [event]) t' := by
  rcases exec_cases inv.epoch h with ⟨rfl, hidle⟩ | hmoved
  · exact lifecycleInv_idle inv hidle
  · exact lifecycleInv_moved inv hmoved

theorem lifecycleInv_fresh (h : t.Fresh) : LifecycleInv [] t := by
  obtain ⟨id, owner, budget, createdAt, rfl | ⟨inner, rfl⟩⟩ := h
  all_goals
    constructor
    case cell => rfl
    case stores => intro p hp; cases hp
    case epoch => exact ⟨Nat.zero_le _, fun hsome => (Bool.false_ne_true hsome).elim, fun _ => rfl⟩
    case precedes => intro w hw; cases hw
    case ordered => exact List.Pairwise.nil
    case accepted => rintro ⟨reason, b, hmem⟩; cases hmem
    case budget => intro _; rfl
    case inForce => trivial

theorem lifecycleInv_run {t₀ : TaskRecord} (h₀ : t₀.Fresh) (h : taskSystem.Run t₀ history t) :
    LifecycleInv history t :=
  h.history_induction (lifecycleInv_fresh h₀) fun _ _ _ _ _ inv hstep => lifecycleInv_step inv hstep

end Step

/-- A completed record is never changed again. -/
theorem completed_absorbing {t t' : TaskRecord} {history : List TaskEvent} (hepoch : EpochOk t)
    (hterm : t.state.isTerminal = true) (h : taskSystem.Run t history t') :
    t' = t := by
  refine h.invariant (I := fun u => u = t) rfl ?_
  rintro u event u' rfl hstep
  rcases exec_cases hepoch hstep with ⟨rfl, _⟩ | hmoved
  · rfl
  · rw [hmoved.move.source_live] at hterm
    cases hterm

/-- What holds of a record `t` reached by `history`, and of a later record `t'`. -/
structure TaskLifecycleOk (history : List TaskEvent) (t t' : TaskRecord) : Prop where
  cell : t.phase.load = t.state.phase
  stores : ∀ p ∈ t.phase.stores, TaskPhase.isValidTransition p.1 p.2 = true
  absorbing : t.state.isTerminal = true → t' = t
  witnesses : (witnesses history).Pairwise
    fun w w' => CancelWitness.validateTransition (some w) w' = .ok ()
  outcome : CancelAccepted history →
    ∀ outcome, t.state = .completed outcome → outcome.isCancelledOrPanicked
  budget : t.state.isTerminal = false →
    t.cleanupBudget = Budget.combineAll (requestedBudgets history)
  inForce : BudgetInForce t
  tightens : ∀ b b', t.cleanupBudget = some b → t'.cleanupBudget = some b' →
    Budget.Tighter b' b

theorem isTerminal_of_cleanupBudget {t : TaskRecord} {b : Budget} (h : t.cleanupBudget = some b) :
    t.state.isTerminal = false := by
  cases hs : t.state <;> simp_all [cleanupBudget, isTerminal]

/-- **The cancellation lifecycle.**  In every run of lifecycle calls on a fresh
record: the phase cell follows the state through legal transitions only,
completion is final, witnesses never contradict an earlier one, an accepted
cancellation ends cancelled or panicked, and the cleanup budget is the
combination of all requested budgets. -/
theorem task_lifecycle {t₀ t t' : TaskRecord} {history later : List TaskEvent} (hfresh : t₀.Fresh)
    (hrun : taskSystem.Run t₀ history t) (hlater : taskSystem.Run t later t') :
    TaskLifecycleOk history t t' := by
  have inv := lifecycleInv_run hfresh hrun
  have inv' := lifecycleInv_run hfresh (hrun.append hlater)
  constructor
  case cell => exact inv.cell
  case stores => exact inv.stores
  case absorbing => exact fun hterm => completed_absorbing inv.epoch hterm hlater
  case witnesses => exact inv.ordered
  case outcome =>
    intro hacc outcome hstate
    rcases inv.accepted hacc with hc | ⟨o, ho, hok⟩
    · rw [hstate] at hc
      cases hc
    · rw [hstate, TaskState.completed.injEq] at ho
      rw [ho]
      exact hok
  case budget => exact inv.budget
  case inForce => exact inv.inForce
  case tightens =>
    intro b b' hb hb'
    rw [inv.budget (isTerminal_of_cleanupBudget hb)] at hb
    rw [inv'.budget (isTerminal_of_cleanupBudget hb')] at hb'
    obtain ⟨c, hc, htight⟩ :=
      Budget.combineAll_append_tighter hb (requestedBudgets later)
    have hsplit : requestedBudgets (history ++ later) =
        requestedBudgets history ++ requestedBudgets later := List.filterMap_append
    rw [hsplit, hc, Option.some.injEq] at hb'
    rw [← hb']
    exact htight

/-- A shutdown request that is acknowledged, on a record of its own. -/
theorem task_lifecycle_shutdown :
    let t₀ := TaskRecord.newWithTime ⟨⟨0, 0⟩⟩ ⟨⟨0, 0⟩⟩ Budget.infinite 0
    let request := TaskOp.requestCancelWithBudget (.new .shutdown) Budget.minimal
    let t₁ := (t₀.exec request).1
    let t₂ := (t₁.exec .acknowledgeCancel).1
    TaskLifecycleOk [(request, .flag true)] t₁ t₂ ∧
      t₂.cleanupBudget = some Budget.minimal := by
  intro t₀ request t₁ t₂
  have hlater : taskSystem.Run t₁
      [(.acknowledgeCancel, .reason (some (.new .shutdown)))] t₂ := .single rfl
  have hfresh : t₀.Fresh := ⟨⟨⟨0, 0⟩⟩, ⟨⟨0, 0⟩⟩, Budget.infinite, 0, .inl rfl⟩
  exact ⟨task_lifecycle hfresh (.single rfl) hlater, rfl⟩

end Asupersync
