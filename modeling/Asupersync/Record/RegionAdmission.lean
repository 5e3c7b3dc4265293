import Asupersync.Record.Region
import Asupersync.Lib.TransitionSystem

/-!
# Concurrent admission and close of one region record

Any number of threads call the operations of one region record.  The state of
the region is an atomic, everything else sits behind the inner lock:

* an admission loads the state, takes the lock, loads the state again and
  commits under the lock;
* `begin_close` and `complete_close` take the lock and swap the state under it;
* `begin_drain` and `begin_finalize` swap the state without the lock,
  `begin_finalize` in two attempts.

`RegionThread` is the program counter of a thread and `RegionStep` one atomic
step of one thread, so a run of `regionSystem` is an arbitrary interleaving.

**Results.**
* `effect_step`: each step that changes the record does what the whole call does
  when it runs alone, at that moment; calls that return early change nothing.
* `region_admission`: limits, no admission after the close has begun, forward
  motion of the state, no duplicates, and a single quiescent close.
* `failed_close_unchanged`: when a `complete_close` that fails leaves no trace.
-/

namespace Asupersync

open Lib RegionRecord RegionState List

inductive RegionOp where
  | addChild (child : RegionId)
  | addTask (task : TaskId)
  | addCleanupTask (task : TaskId)
  | removeChild (child : RegionId)
  | removeTask (task : TaskId)
  | tryReserveObligation
  | resolveObligation
  | addFinalizer (finalizer : Finalizer)
  | popFinalizer
  | beginClose (reason : Option CancelReason)
  | beginDrain
  | beginFinalize
  | completeClose

inductive RegionReply where
  | admission (result : Except AdmissionError Unit)
  | flag (transitioned : Bool)
  | finalizer (finalizer : Option Finalizer)
  | unit

/-- A call that has taken effect or was refused, with the record before and after. -/
structure RegionEvent where
  op : RegionOp
  reply : RegionReply
  before : RegionRecord
  after : RegionRecord

namespace RegionRecord

/-- Reply and record of an admission. -/
def ofAdmission (r : RegionRecord) (result : Except AdmissionError RegionRecord) :
    RegionRecord × RegionReply :=
  match result with
  | .ok r' => (r', .admission (.ok ()))
  | .error e => (r, .admission (.error e))

/-- One call running alone. -/
def exec (r : RegionRecord) : RegionOp → RegionRecord × RegionReply
  | .addChild child => r.ofAdmission (r.addChild child)
  | .addTask task => r.ofAdmission (r.addTask task)
  | .addCleanupTask task => r.ofAdmission (r.addCleanupTask task)
  | .removeChild child => (r.removeChild child, .unit)
  | .removeTask task => (r.removeTask task, .unit)
  | .tryReserveObligation => r.ofAdmission r.tryReserveObligation
  | .resolveObligation => (r.resolveObligation, .unit)
  | .addFinalizer f => (r.addFinalizer f, .unit)
  | .popFinalizer => (r.popFinalizer.1, .finalizer r.popFinalizer.2)
  | .beginClose reason => ((r.beginClose reason).1, .flag (r.beginClose reason).2)
  | .beginDrain => (r.beginDrain.1, .flag r.beginDrain.2)
  | .beginFinalize => (r.beginFinalize.1, .flag r.beginFinalize.2)
  | .completeClose => (r.completeClose.1, .flag r.completeClose.2)

end RegionRecord

/-- The state check an operation makes before and under the lock. -/
def RegionOp.admits? : RegionOp → Option (RegionState → Bool)
  | .addChild _ => some RegionState.canSpawn
  | .addTask _ => some (RegionRecord.canAdmit false)
  | .addCleanupTask _ => some (RegionRecord.canAdmit true)
  | .tryReserveObligation => some RegionState.canAcceptWork
  | _ => none

/-- The operations that swap the state without taking the lock. -/
def RegionOp.lockFree : RegionOp → Bool
  | .beginDrain | .beginFinalize => true
  | _ => false

/-- Program counter of a thread. -/
inductive RegionThread where
  | idle
  | called (op : RegionOp)
  | waiting (op : RegionOp)
  | holding (op : RegionOp)
  | checked (op : RegionOp) (loaded : RegionState)
  | secondSwap

/-- The inside of the lock. -/
def RegionThread.critical : RegionThread → Bool
  | .holding _ | .checked _ _ => true
  | _ => false

/-- The shared record, the lock holder and the program counters. -/
structure RegionConfig where
  region : RegionRecord
  lock : Option Nat
  thread : Nat → RegionThread

namespace RegionConfig

def setThread (c : RegionConfig) (i : Nat) (pc : RegionThread) : RegionConfig :=
  { c with thread := fun j => if j = i then pc else c.thread j }

/-- Thread `i` returns outside the lock, leaving the record `r`. -/
def finish (c : RegionConfig) (i : Nat) (r : RegionRecord) : RegionConfig :=
  { c.setThread i .idle with region := r }

/-- Thread `i` returns and drops the lock, leaving the record `r`. -/
def release (c : RegionConfig) (i : Nat) (r : RegionRecord) : RegionConfig :=
  { c.setThread i .idle with region := r, lock := none }

end RegionConfig

/-- What a call does under the lock, with the state it has loaded there. -/
def RegionRecord.commit (r : RegionRecord) (loaded : RegionState) :
    RegionOp → RegionRecord × RegionReply
  | .addChild child => r.ofAdmission (r.admitChild child)
  | .addTask task => r.ofAdmission (r.admitTask task false loaded)
  | .addCleanupTask task => r.ofAdmission (r.admitTask task true loaded)
  | .tryReserveObligation => r.ofAdmission r.admitObligation
  | .beginClose reason =>
    (((r.applyReason reason).transition .opened .closing).1,
      .flag ((r.applyReason reason).transition .opened .closing).2)
  | op => r.exec op

/-- One atomic step of one thread.  The label is the event of a returning call. -/
inductive RegionStep : RegionConfig → Option RegionEvent → RegionConfig → Prop
  | call {c : RegionConfig} (i : Nat) (op : RegionOp)
      (hpc : c.thread i = .idle) :
      RegionStep c none (c.setThread i (.called op))
  | loadPass {c : RegionConfig} (i : Nat) (op : RegionOp) (admits : RegionState → Bool)
      (hpc : c.thread i = .called op)
      (hop : op.admits? = some admits)
      (hpass : admits c.region.state = true) :
      RegionStep c none (c.setThread i (.waiting op))
  | loadRefuse {c : RegionConfig} (i : Nat) (op : RegionOp) (admits : RegionState → Bool)
      (hpc : c.thread i = .called op)
      (hop : op.admits? = some admits)
      (hrefuse : admits c.region.state = false) :
      RegionStep c
        (some ⟨op, .admission (.error .closed), c.region, c.region⟩)
        (c.finish i c.region)
  | enter {c : RegionConfig} (i : Nat) (op : RegionOp)
      (hpc : c.thread i = .called op)
      (hop : op.admits? = none)
      (hlock : op.lockFree = false) :
      RegionStep c none (c.setThread i (.waiting op))
  | acquire {c : RegionConfig} (i : Nat) (op : RegionOp)
      (hpc : c.thread i = .waiting op)
      (hfree : c.lock = none) :
      RegionStep c none { c.setThread i (.holding op) with lock := some i }
  | recheckPass {c : RegionConfig} (i : Nat) (op : RegionOp) (admits : RegionState → Bool)
      (hpc : c.thread i = .holding op)
      (hop : op.admits? = some admits)
      (hpass : admits c.region.state = true) :
      RegionStep c none (c.setThread i (.checked op c.region.state))
  | recheckRefuse {c : RegionConfig} (i : Nat) (op : RegionOp) (admits : RegionState → Bool)
      (hpc : c.thread i = .holding op)
      (hop : op.admits? = some admits)
      (hrefuse : admits c.region.state = false) :
      RegionStep c
        (some ⟨op, .admission (.error .closed), c.region, c.region⟩)
        (c.release i c.region)
  | closeRefuse {c : RegionConfig} (i : Nat) (reason : Option CancelReason)
      (hpc : c.thread i = .holding (.beginClose reason))
      (hclosed : c.region.state = .closed) :
      RegionStep c
        (some ⟨.beginClose reason, .flag false, c.region, c.region⟩)
        (c.release i c.region)
  | closePass {c : RegionConfig} (i : Nat) (reason : Option CancelReason)
      (hpc : c.thread i = .holding (.beginClose reason))
      (hopen : c.region.state ≠ .closed) :
      RegionStep c none (c.setThread i (.checked (.beginClose reason) c.region.state))
  | commitChecked {c : RegionConfig} (i : Nat) (op : RegionOp) (loaded : RegionState)
      (hpc : c.thread i = .checked op loaded) :
      RegionStep c
        (some ⟨op, (c.region.commit loaded op).2, c.region, (c.region.commit loaded op).1⟩)
        (c.release i (c.region.commit loaded op).1)
  | commitPlain {c : RegionConfig} (i : Nat) (op : RegionOp)
      (hpc : c.thread i = .holding op)
      (hop : op.admits? = none)
      (hclose : ∀ reason, op ≠ .beginClose reason) :
      RegionStep c
        (some ⟨op, (c.region.exec op).2, c.region, (c.region.exec op).1⟩)
        (c.release i (c.region.exec op).1)
  | drain {c : RegionConfig} (i : Nat)
      (hpc : c.thread i = .called .beginDrain) :
      RegionStep c
        (some ⟨.beginDrain, .flag c.region.beginDrain.2, c.region, c.region.beginDrain.1⟩)
        (c.finish i c.region.beginDrain.1)
  | finalizeFirst {c : RegionConfig} (i : Nat)
      (hpc : c.thread i = .called .beginFinalize)
      (hswap : c.region.state = .closing) :
      RegionStep c
        (some ⟨.beginFinalize, .flag true, c.region,
          (c.region.transition .closing .finalizing).1⟩)
        (c.finish i (c.region.transition .closing .finalizing).1)
  | finalizeRetry {c : RegionConfig} (i : Nat)
      (hpc : c.thread i = .called .beginFinalize)
      (hswap : c.region.state ≠ .closing) :
      RegionStep c none (c.setThread i .secondSwap)
  | finalizeSecond {c : RegionConfig} (i : Nat)
      (hpc : c.thread i = .secondSwap) :
      RegionStep c
        (some ⟨.beginFinalize, .flag (c.region.transition .draining .finalizing).2, c.region,
          (c.region.transition .draining .finalizing).1⟩)
        (c.finish i (c.region.transition .draining .finalizing).1)

/-- All threads idle, the lock free and an empty record with the given limits. -/
def RegionConfig.Initial (limits : RegionLimits) (c : RegionConfig) : Prop :=
  (∃ id parent budget createdAt,
    c.region = (RegionRecord.newWithTime id parent budget createdAt).setLimits limits) ∧
  c.lock = none ∧ ∀ i, c.thread i = .idle

def regionSystem (limits : RegionLimits) :
    TransitionSystem RegionConfig (Option RegionEvent) where
  init := RegionConfig.Initial limits
  step := RegionStep

/-- The events of the calls that have returned, oldest first. -/
def regionEvents (labels : List (Option RegionEvent)) : List RegionEvent :=
  labels.filterMap id

section Atomicity

/-- Who is inside the lock holds it, and what was loaded under the lock is still
the state. -/
structure LockInv (c : RegionConfig) : Prop where
  holder : ∀ i, (c.thread i).critical = true → c.lock = some i
  admission : ∀ i op loaded admits, c.thread i = .checked op loaded →
    op.admits? = some admits → c.region.state = loaded ∧ admits loaded = true
  closing : ∀ i op loaded, c.thread i = .checked op loaded →
    op.admits? = none → (∃ reason, op = .beginClose reason) ∧ c.region.state ≠ .closed

/-- The reply of a call that was refused before it did anything. -/
def RegionReply.refused : RegionReply → Prop
  | .admission (.error _) => True
  | .flag transitioned => transitioned = false
  | _ => False

/-- The event of a call on the record `r`: the whole call at this moment, or a
refusal that leaves the record alone. -/
structure Effect (r : RegionRecord) (e : RegionEvent) : Prop where
  before : e.before = r
  outcome : r.exec e.op = (e.after, e.reply) ∨ (e.after = r ∧ e.reply.refused)

theorem commit_eq_exec {r : RegionRecord} {op : RegionOp} {loaded : RegionState}
    (hadm : ∀ admits, op.admits? = some admits → r.state = loaded ∧ admits loaded = true)
    (hclose : op.admits? = none → (∃ reason, op = .beginClose reason) ∧ r.state ≠ .closed) :
    r.commit loaded op = r.exec op := by
  cases op with
  | addChild | addTask | addCleanupTask | tryReserveObligation =>
    obtain ⟨rfl, hopen⟩ := hadm _ rfl
    simp only [commit, exec, addChild, addTask, addCleanupTask, addTaskInternal,
      tryReserveObligation, hopen, if_true]
  | beginClose reason =>
    obtain ⟨_, hstate⟩ := hclose rfl
    simp only [commit, exec, beginClose, hstate, if_false]
  | _ => rfl

variable {c c' : RegionConfig}

/-- Every returning step is the whole call at that moment, or a refusal. -/
theorem effect_step {e : RegionEvent} (inv : LockInv c) (h : RegionStep c (some e) c') :
    Effect c.region e ∧ c'.region = e.after := by
  cases h with
  | loadRefuse i op admits hpc hop hrefuse | recheckRefuse i op admits hpc hop hrefuse =>
    exact ⟨⟨rfl, .inr ⟨rfl, trivial⟩⟩, rfl⟩
  | closeRefuse i reason hpc hclosed =>
    exact ⟨⟨rfl, .inr ⟨rfl, rfl⟩⟩, rfl⟩
  | commitChecked i op loaded hpc =>
    have heq : c.region.commit loaded op = c.region.exec op :=
      commit_eq_exec (fun admits hop => inv.admission i op loaded admits hpc hop)
        (fun hop => inv.closing i op loaded hpc hop)
    refine ⟨⟨rfl, .inl ?_⟩, rfl⟩
    rw [heq]
  | commitPlain i op hpc hop hclose | drain i hpc =>
    exact ⟨⟨rfl, .inl rfl⟩, rfl⟩
  | finalizeFirst i hpc hswap =>
    refine ⟨⟨rfl, .inl ?_⟩, rfl⟩
    simp [exec, beginFinalize, transition, hswap]
  | finalizeSecond i hpc =>
    by_cases hdrain : c.region.state = .draining
    · refine ⟨⟨rfl, .inl ?_⟩, rfl⟩
      simp [exec, beginFinalize, transition, hdrain]
    · refine ⟨⟨rfl, .inr ⟨?_, ?_⟩⟩, rfl⟩
      · simp [transition, hdrain]
      · simp [RegionReply.refused, transition, hdrain]

/-- Steps inside a call leave the record alone. -/
theorem region_eq_of_silent (h : RegionStep c none c') : c'.region = c.region := by
  cases h <;> rfl

/-- Admission happens in open and, for cleanup tasks, in finalizing regions only. -/
theorem admits_state {op : RegionOp} {admits : RegionState → Bool} {state : RegionState}
    (hop : op.admits? = some admits) (h : admits state = true) :
    state = .opened ∨ state = .finalizing := by
  cases op with
  | addChild | addTask | tryReserveObligation =>
    cases hop
    exact .inl (by simpa [canSpawn, canAdmit, canAcceptWork] using h)
  | addCleanupTask task =>
    cases hop
    simpa [canAdmit, canAcceptCleanupWork] using h
  | _ => cases hop

section

variable (inv : LockInv c)

include inv

/-- One thread moves on: what it knows is right, and whoever else is inside the lock still
holds it and has seen the state, which moved only out of closing or draining and not to
closed. -/
theorem LockInv.moveOn (i : Nat) (pc : RegionThread) (r : RegionRecord)
    (lock : Option Nat) (hself : pc.critical = true → lock = some i)
    (hadm : ∀ op loaded admits, pc = .checked op loaded → op.admits? = some admits →
      r.state = loaded ∧ admits loaded = true)
    (hclose : ∀ op loaded, pc = .checked op loaded → op.admits? = none →
      (∃ reason, op = .beginClose reason) ∧ r.state ≠ .closed)
    (hother : ∀ j ≠ i, (c.thread j).critical = true → lock = c.lock ∧
      (r.state = c.region.state ∨
        ((c.region.state = .closing ∨ c.region.state = .draining) ∧ r.state ≠ .closed))) :
    LockInv { c.setThread i pc with region := r, lock := lock } := by
  constructor
  case holder =>
    intro j hj
    dsimp only [RegionConfig.setThread] at hj
    split_ifs at hj with hji
    · exact hji ▸ hself hj
    · exact (hother j hji hj).1.trans (inv.holder j hj)
  case admission =>
    intro j op loaded admits hj hop
    dsimp only [RegionConfig.setThread] at hj
    split_ifs at hj with hji
    · exact hadm op loaded admits hj hop
    · have hold := inv.admission j op loaded admits hj hop
      refine ⟨?_, hold.2⟩
      rcases (hother j hji (by rw [hj]; rfl)).2 with hsame | ⟨hmid, _⟩
      · exact hsame.trans hold.1
      · have := admits_state hop hold.2
        rw [← hold.1] at this
        rcases hmid with hmid | hmid <;> rw [hmid] at this <;> rcases this with h | h <;> cases h
  case closing =>
    intro j op loaded hj hop
    dsimp only [RegionConfig.setThread] at hj
    split_ifs at hj with hji
    · exact hclose op loaded hj hop
    · have hold := inv.closing j op loaded hj hop
      refine ⟨hold.1, ?_⟩
      rcases (hother j hji (by rw [hj]; rfl)).2 with hsame | ⟨_, hne⟩
      · rw [hsame]
        exact hold.2
      · exact hne

theorem LockInv.outside (i : Nat) (pc : RegionThread) (r : RegionRecord)
    (hpc : pc.critical = false) (hstate : r.state = c.region.state ∨
      ((c.region.state = .closing ∨ c.region.state = .draining) ∧ r.state ≠ .closed)) :
    LockInv { c.setThread i pc with region := r } := by
  refine inv.moveOn i pc r c.lock ?_ ?_ ?_ fun _ _ _ => ⟨rfl, hstate⟩
  · exact fun h => absurd (hpc.symm.trans h) Bool.false_ne_true
  · rintro _ _ _ rfl
    cases hpc
  · rintro _ _ rfl
    cases hpc

/-- Dropping the lock keeps the invariant: nobody else is inside it. -/
theorem LockInv.release (i : Nat) (r : RegionRecord) (hcrit : (c.thread i).critical = true) :
    LockInv (c.release i r) := by
  refine inv.moveOn i .idle r none nofun nofun nofun fun j hji hj => ?_
  have hsame := (inv.holder j hj).symm.trans (inv.holder i hcrit)
  exact absurd (Option.some.inj hsame) hji

/-- Going on inside the lock keeps the invariant when what was loaded is right. -/
theorem LockInv.inside (i : Nat) (op : RegionOp) (hcrit : (c.thread i).critical = true)
    (hadm : ∀ admits, op.admits? = some admits → admits c.region.state = true)
    (hclose : op.admits? = none → (∃ reason, op = .beginClose reason) ∧ c.region.state ≠ .closed) :
    LockInv (c.setThread i (.checked op c.region.state)) := by
  refine inv.moveOn i _ c.region c.lock (fun _ => inv.holder i hcrit) ?_ ?_
    fun _ _ _ => ⟨rfl, .inl rfl⟩
  · rintro _ _ admits ⟨⟩ hop
    exact ⟨rfl, hadm admits hop⟩
  · rintro _ _ ⟨⟩ hop
    exact hclose hop

theorem LockInv.acquire (i : Nat) (op : RegionOp) (hfree : c.lock = none) :
    LockInv { c.setThread i (.holding op) with lock := some i } := by
  refine inv.moveOn i _ c.region (some i) (fun _ => rfl) nofun nofun fun j _ hj => ?_
  cases hfree.symm.trans (inv.holder j hj)

theorem lockInv_step {label : Option RegionEvent} (h : RegionStep c label c') : LockInv c' := by
  have hhold : ∀ i op, c.thread i = .holding op → (c.thread i).critical = true := by
    intro i op hi
    rw [hi]
    rfl
  cases h with
  | call i op hpc
  | loadPass i op admits hpc hop hpass
  | loadRefuse i op admits hpc hop hrefuse
  | enter i op hpc hop hlock
  | finalizeRetry i hpc hswap =>
    exact inv.outside i _ c.region rfl (.inl rfl)
  | acquire i op hpc hfree => exact inv.acquire i op hfree
  | recheckPass i op admits hpc hop hpass =>
    refine inv.inside i op (hhold i op hpc) ?_ ?_
    · intro admits' hop'
      cases hop.symm.trans hop'
      exact hpass
    · exact fun hnone => nomatch hop.symm.trans hnone
  | recheckRefuse i op admits hpc hop hrefuse | commitPlain i op hpc hop hclose =>
    exact inv.release i _ (hhold i op hpc)
  | closeRefuse i reason hpc hclosed => exact inv.release i _ (hhold i _ hpc)
  | closePass i reason hpc hopen =>
    exact inv.inside i _ (hhold i _ hpc) nofun fun _ => ⟨⟨reason, rfl⟩, hopen⟩
  | commitChecked i op loaded hpc =>
    exact inv.release i _ (by rw [hpc]; rfl)
  | drain i hpc =>
    refine inv.outside i .idle _ rfl ?_
    by_cases hs : c.region.state = .closing
    · exact .inr ⟨.inl hs, by simp [beginDrain, transition, hs]⟩
    · exact .inl (by simp [beginDrain, transition, hs])
  | finalizeFirst i hpc hswap =>
    refine inv.outside i .idle _ rfl (.inr ⟨.inl hswap, ?_⟩)
    simp [transition, hswap]
  | finalizeSecond i hpc =>
    refine inv.outside i .idle _ rfl ?_
    by_cases hs : c.region.state = .draining
    · exact .inr ⟨.inr hs, by simp [transition, hs]⟩
    · exact .inl (by simp [transition, hs])

end

theorem lockInv_initial {limits : RegionLimits} (h : c.Initial limits) : LockInv c := by
  obtain ⟨_, _, hidle⟩ := h
  constructor
  case holder =>
    intro i hi
    rw [hidle i] at hi
    cases hi
  case admission => exact fun i _ _ _ hi => nomatch (hidle i).symm.trans hi
  case closing => exact fun i _ _ hi => nomatch (hidle i).symm.trans hi

end Atomicity

section Admission

/-- The edges of the region lifecycle. -/
inductive RegionState.Next : RegionState → RegionState → Prop
  | close : Next .opened .closing
  | drain : Next .closing .draining
  | finalize : Next .closing .finalizing
  | finalizeDrained : Next .draining .finalizing
  | complete : Next .finalizing .closed

namespace RegionEvent

/-- A `begin_close` that returned true. -/
def closeBegan (e : RegionEvent) : Prop :=
  ∃ reason, e.op = .beginClose reason ∧ e.reply = .flag true

/-- A normal task, a child or an obligation was admitted. -/
def admitsNormal (e : RegionEvent) : Prop :=
  ((∃ task, e.op = .addTask task) ∨ (∃ child, e.op = .addChild child) ∨
    e.op = .tryReserveObligation) ∧ e.reply = .admission (.ok ())

/-- A `complete_close` that returned true. -/
def closeCompleted (e : RegionEvent) : Prop :=
  e.op = .completeClose ∧ e.reply = .flag true

/-- The cleanup task an event has added to a finalizing region. -/
def exemptTask? (e : RegionEvent) : Option TaskId :=
  match e.op with
  | .addCleanupTask task =>
    if e.before.state = .finalizing ∧ task ∉ e.before.tasks ∧ task ∈ e.after.tasks then
      some task
    else none
  | _ => none

end RegionEvent

/-- The cleanup tasks admitted while the region was finalizing. -/
def exemptTasks (history : List RegionEvent) : List TaskId :=
  history.filterMap RegionEvent.exemptTask?

/-- `live` respects an optional limit. -/
def WithinLimit (live : Nat) (limit : Option Nat) : Prop :=
  ∀ n, limit = some n → live ≤ n

/-- The record agrees with the calls that have returned. -/
structure AdmissionInv (limits : RegionLimits) (history : List RegionEvent)
    (r : RegionRecord) : Prop where
  fixed : r.limits = limits
  childrenNodup : r.children.Nodup
  tasksNodup : r.tasks.Nodup
  children : WithinLimit r.children.length limits.maxChildren
  tasks : WithinLimit (r.tasks.filter (· ∉ exemptTasks history)).length limits.maxTasks
  obligations : WithinLimit r.pendingObligations limits.maxObligations
  begun : (∃ e ∈ history, e.closeBegan) → r.state ≠ .opened
  afterClose : history.Pairwise fun e e' => e.closeBegan → ¬ e'.admitsNormal
  completed : (∃ e ∈ history, e.closeCompleted) → r.state = .closed
  completedOnce : history.Pairwise fun e e' => e.closeCompleted → ¬ e'.closeCompleted
  quiescent : ∀ e ∈ history, e.closeCompleted →
    e.before.tasks = [] ∧ e.before.children = [] ∧ e.before.pendingObligations = 0 ∧
      e.before.finalizers = [] ∧ e.before.state = .finalizing
  edges : ∀ e ∈ history,
    e.after.state = e.before.state ∨ RegionState.Next e.before.state e.after.state

theorem checkLimit_ok {kind : AdmissionKind} {limit : Option Nat} {live : Nat}
    (h : checkLimit kind limit live = .ok ()) :
    WithinLimit (live + 1) limit := by
  intro n hn
  subst hn
  simp only [checkLimit] at h
  by_cases hle : n ≤ live
  · simp [hle] at h
  · omega

/-- How a call can change a list of tracked entries. -/
inductive TrackChange {α : Type} [DecidableEq α] (admitted : α → Prop) (l l' : List α) : Prop
  | same (h : l' = l)
  | push (a : α) (hnew : a ∉ l) (h : l' = l ++ [a]) (hadm : admitted a)
  | drop (a : α) (h : l' = l.filter (· ≠ a))

/-- Everything a call running alone can do to the record. -/
structure ExecSpec (r : RegionRecord) (op : RegionOp) (reply : RegionReply)
    (r' : RegionRecord) : Prop where
  limits : r'.limits = r.limits
  children : TrackChange
    (fun _ => WithinLimit (r.children.length + 1) r.limits.maxChildren)
    r.children r'.children
  tasks : TrackChange
    (fun task => WithinLimit (r.tasks.length + 1) r.limits.maxTasks ∨
      (op = .addCleanupTask task ∧ r.state = .finalizing))
    r.tasks r'.tasks
  obligations : r'.pendingObligations ≤ r.pendingObligations ∨
    (WithinLimit (r.pendingObligations + 1) r.limits.maxObligations ∧
      r'.pendingObligations ≤ r.pendingObligations + 1)
  state : r'.state = r.state ∨ RegionState.Next r.state r'.state
  began : RegionEvent.closeBegan ⟨op, reply, r, r'⟩ → r'.state = .closing
  normal : RegionEvent.admitsNormal ⟨op, reply, r, r'⟩ → r.state = .opened
  completed : RegionEvent.closeCompleted ⟨op, reply, r, r'⟩ →
    (r.tasks = [] ∧ r.children = [] ∧ r.pendingObligations = 0 ∧ r.finalizers = [] ∧
      r.state = .finalizing) ∧ r'.state = .closed

variable {r r' : RegionRecord} {op : RegionOp}

section

variable {reply : RegionReply} (hlimits : r'.limits = r.limits) (hchildren : TrackChange
  (fun _ => WithinLimit (r.children.length + 1) r.limits.maxChildren) r.children r'.children)
  (htasks : TrackChange (fun task => WithinLimit (r.tasks.length + 1) r.limits.maxTasks ∨
    (op = .addCleanupTask task ∧ r.state = .finalizing)) r.tasks r'.tasks)
  (hstate : r'.state = r.state)

include hlimits hchildren htasks hstate

/-- Calls that neither admit nor swap the state. -/
theorem ExecSpec.of_quiet (hpending : r'.pendingObligations ≤ r.pendingObligations)
    (hflag : reply ≠ .flag true) (hok : reply ≠ .admission (.ok ())) : ExecSpec r op reply r' where
  limits := hlimits
  children := hchildren
  tasks := htasks
  obligations := Or.inl hpending
  state := Or.inl hstate
  began := fun ⟨_, _, hreply⟩ => absurd hreply hflag
  normal := fun ⟨_, hreply⟩ => absurd hreply hok
  completed := fun ⟨_, hreply⟩ => absurd hreply hflag

/-- An admission that was granted in an open region, or to a cleanup task. -/
theorem ExecSpec.of_admission (hpending : r'.pendingObligations ≤ r.pendingObligations ∨
      (WithinLimit (r.pendingObligations + 1) r.limits.maxObligations ∧
        r'.pendingObligations ≤ r.pendingObligations + 1))
    (hopen : r.state = .opened ∨ ∃ task, op = .addCleanupTask task) :
    ExecSpec r op (.admission (.ok ())) r' where
  limits := hlimits
  children := hchildren
  tasks := htasks
  obligations := hpending
  state := Or.inl hstate
  began := fun ⟨_, _, hflag⟩ => nomatch hflag
  normal := by
    rintro ⟨hop, _⟩
    rcases hopen with h | ⟨task, rfl⟩
    · exact h
    · rcases hop with ⟨t, ⟨⟩⟩ | ⟨c, ⟨⟩⟩ | ⟨⟨⟩⟩
  completed := fun ⟨_, hflag⟩ => nomatch hflag

end

/-- Calls that refuse or only swap the state. -/
theorem ExecSpec.of_transition {r₀ : RegionRecord} {source target : RegionState}
    (hr₀ : r₀.limits = r.limits ∧ r₀.children = r.children ∧ r₀.tasks = r.tasks ∧
      r₀.pendingObligations = r.pendingObligations ∧ r₀.state = r.state)
    (hnext : Next source target) (hbegan : (∃ reason, op = .beginClose reason) → target = .closing)
    (hcompleted : op = .completeClose →
      (r.tasks = [] ∧ r.children = [] ∧ r.pendingObligations = 0 ∧ r.finalizers = []) ∧
        source = .finalizing ∧ target = .closed) :
    ExecSpec r op (.flag (r₀.transition source target).2) (r₀.transition source target).1 := by
  obtain ⟨hlimits, hchildren, htasks, hpending, hstate⟩ := hr₀
  unfold transition
  split_ifs with hs
  · constructor
    case limits => exact hlimits
    case children => exact .same hchildren
    case tasks => exact .same htasks
    case obligations => exact .inl hpending.le
    case state =>
      refine .inr ?_
      rw [← hstate, hs]
      exact hnext
    case began => exact fun ⟨reason, hop, _⟩ => hbegan ⟨reason, hop⟩
    case normal => exact fun ⟨_, hok⟩ => nomatch hok
    case completed =>
      rintro ⟨hop, _⟩
      obtain ⟨⟨h1, h2, h3, h4⟩, hsource, htarget⟩ := hcompleted hop
      exact ⟨⟨h1, h2, h3, h4, by rw [← hstate, hs, hsource]⟩, htarget⟩
  · exact .of_quiet hlimits (.same hchildren) (.same htasks) hstate hpending.le nofun nofun

/-- Calls that leave all but the finalizers alone. -/
theorem ExecSpec.of_same {reply : RegionReply} {finalizers : List Finalizer}
    (hflag : reply ≠ .flag true) (hok : reply ≠ .admission (.ok ())) :
    ExecSpec r op reply { r with finalizers := finalizers } :=
  .of_quiet rfl (.same rfl) (.same rfl) rfl (le_refl _) hflag hok

section

variable (r : RegionRecord)

theorem execSpec_addChild (child : RegionId) :
    ExecSpec r (.addChild child) (r.exec (.addChild child)).2 (r.exec (.addChild child)).1 := by
  simp only [exec, addChild, admitChild]
  split_ifs with hopen hmem
  · have hstate : r.state = .opened := by simpa [canSpawn] using hopen
    exact .of_admission rfl (.same rfl) (.same rfl) rfl (.inl (le_refl _)) (.inl hstate)
  · have hstate : r.state = .opened := by simpa [canSpawn] using hopen
    cases hlimit : checkLimit .child r.limits.maxChildren r.children.length with
    | error e => exact .of_same nofun nofun
    | ok u =>
      exact .of_admission rfl (.push child hmem rfl (checkLimit_ok hlimit)) (.same rfl) rfl
        (.inl (le_refl _)) (.inl hstate)
  · exact .of_same nofun nofun

/-- Both task admissions: an open region checks the limit, a finalizing one takes
cleanup tasks without it. -/
theorem execSpec_addTaskInternal (task : TaskId) (cleanupTask : Bool)
    (op : RegionOp) (hop : op = if cleanupTask then .addCleanupTask task else .addTask task) :
    ExecSpec r op (r.ofAdmission (r.addTaskInternal task cleanupTask)).2
      (r.ofAdmission (r.addTaskInternal task cleanupTask)).1 := by
  unfold addTaskInternal admitTask
  split_ifs with hadm hmem hbypass
  rotate_right
  · exact .of_same nofun nofun
  all_goals
    have hopen : r.state = .opened ∨ ∃ t, op = .addCleanupTask t := by
      cases cleanupTask with
      | false => exact .inl (by simpa [canAdmit, canAcceptWork] using hadm)
      | true => exact .inr ⟨task, hop⟩
  · exact .of_admission rfl (.same rfl) (.same rfl) rfl (.inl (le_refl _)) hopen
  · have hboth : cleanupTask = true ∧ r.state = .finalizing := by simpa using hbypass
    have hcleanup : op = .addCleanupTask task := by simpa [hboth.1] using hop
    exact .of_admission rfl (.same rfl)
      (.push task hmem rfl (.inr ⟨hcleanup, hboth.2⟩)) rfl (.inl (le_refl _)) hopen
  · cases hlimit : checkLimit .task r.limits.maxTasks r.tasks.length with
    | error e => exact .of_same nofun nofun
    | ok u =>
      exact .of_admission rfl (.same rfl)
        (.push task hmem rfl (.inl (checkLimit_ok hlimit))) rfl (.inl (le_refl _)) hopen

theorem execSpec_tryReserveObligation :
    ExecSpec r .tryReserveObligation (r.exec .tryReserveObligation).2
      (r.exec .tryReserveObligation).1 := by
  simp only [exec, tryReserveObligation, admitObligation]
  split_ifs with hopen
  · have hstate : r.state = .opened := by simpa [canAcceptWork] using hopen
    cases hlimit : checkLimit .obligation r.limits.maxObligations r.pendingObligations with
    | error e => exact .of_same nofun nofun
    | ok u =>
      exact .of_admission rfl (.same rfl) (.same rfl) rfl
        (.inr ⟨checkLimit_ok hlimit, min_le_left _ _⟩) (.inl hstate)
  · exact .of_same nofun nofun

/-- The specification of every call. -/
theorem execSpec (op : RegionOp) : ExecSpec r op (r.exec op).2 (r.exec op).1 := by
  cases op with
  | addChild child => exact execSpec_addChild r child
  | addTask task => exact execSpec_addTaskInternal r task false _ rfl
  | addCleanupTask task => exact execSpec_addTaskInternal r task true _ rfl
  | tryReserveObligation => exact execSpec_tryReserveObligation r
  | removeChild child =>
    exact .of_quiet rfl (.drop child rfl) (.same rfl) rfl (le_refl _) nofun nofun
  | removeTask task =>
    exact .of_quiet rfl (.same rfl) (.drop task rfl) rfl (le_refl _) nofun nofun
  | resolveObligation =>
    simp only [exec, resolveObligation]
    cases hp : r.pendingObligations with
    | zero => exact .of_quiet rfl (.same rfl) (.same rfl) rfl (Nat.zero_le _) nofun nofun
    | succ n => exact .of_quiet rfl (.same rfl) (.same rfl) rfl (by simp [hp]) nofun nofun
  | addFinalizer f => exact .of_same nofun nofun
  | popFinalizer =>
    simp only [exec, popFinalizer]
    cases r.finalizers with
    | nil | cons f fs => exact .of_same nofun nofun
  | beginClose reason =>
    simp only [exec, beginClose]
    split_ifs
    · exact .of_same nofun nofun
    · refine .of_transition ?_ .close (fun _ => rfl) nofun
      cases reason <;> exact ⟨rfl, rfl, rfl, rfl, rfl⟩
  | beginDrain => exact .of_transition ⟨rfl, rfl, rfl, rfl, rfl⟩ .drain nofun nofun
  | beginFinalize =>
    have hspec : ∀ source, Next source .finalizing →
        ExecSpec r .beginFinalize (.flag (r.transition source .finalizing).2)
          (r.transition source .finalizing).1 :=
      fun _ hnext => .of_transition ⟨rfl, rfl, rfl, rfl, rfl⟩ hnext nofun nofun
    simp only [exec, beginFinalize]
    split_ifs
    · exact hspec .closing .finalize
    · exact hspec .draining .finalizeDrained
  | completeClose =>
    simp only [exec, completeClose]
    split_ifs with hq
    · refine .of_transition ⟨rfl, rfl, rfl, rfl, rfl⟩ .complete nofun fun _ => ?_
      simp only [isQuiescent, Bool.and_eq_true, List.isEmpty_iff, beq_iff_eq] at hq
      obtain ⟨⟨⟨hc, ht⟩, hp⟩, hf⟩ := hq
      exact ⟨⟨ht, hc, hp, hf⟩, rfl, rfl⟩
    · exact .of_same nofun nofun

end

theorem TrackChange.nodup {α : Type} [DecidableEq α] {admitted : α → Prop} {l l' : List α}
    (h : TrackChange admitted l l') (hl : l.Nodup) :
    l'.Nodup := by
  cases h with
  | same h => rw [h]; exact hl
  | push a hnew h _ =>
    rw [h, nodup_append]
    refine ⟨hl, by simp, fun x hx y hy heq => hnew ?_⟩
    rwa [heq, mem_singleton.mp hy] at hx
  | drop a h => rw [h]; exact hl.filter _

theorem exemptTasks_snoc (history : List RegionEvent) (e : RegionEvent) :
    exemptTasks (history ++ [e]) = exemptTasks history ++ e.exemptTask?.toList := by
  cases h : e.exemptTask? <;> simp [exemptTasks, h]

/-- Exempting more entries can only shrink what is counted. -/
theorem length_filter_exempt_le (l : List TaskId) (exempt more : List TaskId) :
    (l.filter (· ∉ exempt ++ more)).length ≤ (l.filter (· ∉ exempt)).length := by
  refine Sublist.length_le (monotone_filter_right l ?_)
  intro task htask
  simp only [mem_append, not_or, decide_eq_true_eq] at htask ⊢
  exact htask.1

variable {limits : RegionLimits} {history : List RegionEvent} {e : RegionEvent}

/-- The tasks outside the exempt ones stay within the limit after a call. -/
theorem tasks_withinLimit (inv : AdmissionInv limits history r) (hbefore : e.before = r)
    (h : ExecSpec r e.op e.reply e.after) :
    WithinLimit (e.after.tasks.filter (· ∉ exemptTasks (history ++ [e]))).length
      limits.maxTasks := by
  intro n hn
  have hold := inv.tasks n hn
  rw [exemptTasks_snoc]
  cases h.tasks with
  | same hsame =>
    rw [hsame]
    exact le_trans (length_filter_exempt_le _ _ _) hold
  | drop task hdrop =>
    have hsub : (e.after.tasks.filter (· ∉ exemptTasks history)).length ≤
        (r.tasks.filter (· ∉ exemptTasks history)).length := by
      rw [hdrop]
      exact (filter_sublist.filter _).length_le
    exact le_trans (length_filter_exempt_le _ _ _) (le_trans hsub hold)
  | push task hnew hpush hadm =>
    rcases hadm with hwithin | ⟨hop, hfin⟩
    · -- the limit was checked against the whole list
      have hlen : e.after.tasks.length ≤ n := by
        rw [hpush, length_append]
        exact hwithin n (by rw [inv.fixed]; exact hn)
      exact le_trans (length_filter_le _ _) hlen
    · have hexempt : e.exemptTask? = some task := by
        have hmem : task ∈ e.after.tasks := by simp [hpush]
        simp only [RegionEvent.exemptTask?, hop, hbefore]
        exact if_pos ⟨hfin, hnew, hmem⟩
      rw [hexempt, hpush, filter_append]
      have hnil : [task].filter (· ∉ exemptTasks history ++ (some task).toList) = [] := by
        simp
      rw [hnil, append_nil]
      exact le_trans (length_filter_exempt_le _ _ _) hold

/-- A refusal satisfies the specification of a call as well. -/
theorem Effect.spec (h : Effect r e) : ExecSpec r e.op e.reply e.after := by
  rcases h.outcome with hexec | ⟨hsame, hrefused⟩
  · have := execSpec r e.op
    rwa [hexec] at this
  rw [hsame]
  refine .of_same ?_ ?_ <;>
  · intro hreply
    simp [hreply, RegionReply.refused] at hrefused

/-- A call keeps the agreement between record and history. -/
theorem admissionInv_effect (inv : AdmissionInv limits history r) (h : Effect r e) :
    AdmissionInv limits (history ++ [e]) e.after := by
  have hspec := h.spec
  have hleave : r.state ≠ .opened → e.after.state ≠ .opened := by
    intro hne
    rcases hspec.state with hsame | hnext
    · rw [hsame]
      exact hne
    · generalize r.state = s at hnext
      generalize e.after.state = s' at hnext
      cases hnext <;> simp
  constructor
  case fixed => exact hspec.limits.trans inv.fixed
  case childrenNodup => exact hspec.children.nodup inv.childrenNodup
  case tasksNodup => exact hspec.tasks.nodup inv.tasksNodup
  case children =>
    intro n hn
    have hold := inv.children n hn
    cases hspec.children with
    | same hsame => rw [hsame]; exact hold
    | push child _ hpush hwithin =>
      rw [hpush, length_append]
      exact hwithin n (by rw [inv.fixed]; exact hn)
    | drop child hdrop =>
      rw [hdrop]
      exact le_trans (length_filter_le _ _) hold
  case tasks => exact tasks_withinLimit inv h.before hspec
  case obligations =>
    intro n hn
    have hold := inv.obligations n hn
    rcases hspec.obligations with hle | ⟨hwithin, hle⟩
    · exact le_trans hle hold
    · exact le_trans hle (hwithin n (by rw [inv.fixed]; exact hn))
  case begun =>
    rintro ⟨e', hmem, hclose⟩
    rw [mem_append, mem_singleton] at hmem
    rcases hmem with hmem | rfl
    · exact hleave (inv.begun ⟨e', hmem, hclose⟩)
    · rw [hspec.began hclose]
      simp
  case afterClose =>
    rw [pairwise_append]
    refine ⟨inv.afterClose, pairwise_singleton _ _, fun e₁ hmem => ?_⟩
    rw [forall_mem_singleton]
    exact fun hclose hadm => inv.begun ⟨e₁, hmem, hclose⟩ (hspec.normal hadm)
  case completed =>
    rintro ⟨e', hmem, hclose⟩
    rw [mem_append, mem_singleton] at hmem
    rcases hmem with hmem | rfl
    · have hclosed := inv.completed ⟨e', hmem, hclose⟩
      rcases hspec.state with hsame | hnext
      · exact hsame.trans hclosed
      · rw [hclosed] at hnext
        cases hnext
    · exact (hspec.completed hclose).2
  case completedOnce =>
    rw [pairwise_append]
    refine ⟨inv.completedOnce, pairwise_singleton _ _, fun e₁ hmem => ?_⟩
    rw [forall_mem_singleton]
    intro hclose hagain
    have hclosed := inv.completed ⟨e₁, hmem, hclose⟩
    cases hclosed.symm.trans (hspec.completed hagain).1.2.2.2.2
  case quiescent =>
    rw [forall_mem_append, forall_mem_singleton, h.before]
    exact ⟨inv.quiescent, fun hclose => (hspec.completed hclose).1⟩
  case edges =>
    rw [forall_mem_append, forall_mem_singleton, h.before]
    exact ⟨inv.edges, hspec.state⟩

variable {c : RegionConfig} {labels : List (Option RegionEvent)} {c' : RegionConfig}

theorem admissionInv_initial (h : c.Initial limits) : AdmissionInv limits [] c.region := by
  obtain ⟨⟨id, parent, budget, createdAt, hregion⟩, _, _⟩ := h
  rw [hregion]
  constructor
  case fixed => rfl
  case childrenNodup | tasksNodup => exact nodup_nil
  case children | tasks | obligations => exact fun n _ => Nat.zero_le n
  case begun | completed => exact fun ⟨_, hmem, _⟩ => nomatch hmem
  case afterClose | completedOnce => exact Pairwise.nil
  case quiescent | edges => exact fun _ hmem => nomatch hmem

/-- Lock discipline and record agree with the history along every run. -/
theorem regionSystem_run {c₀ : RegionConfig}
    (hinit : c₀.Initial limits) (hrun : (regionSystem limits).Run c₀ labels c) :
    LockInv c ∧ AdmissionInv limits (regionEvents labels) c.region := by
  refine hrun.history_induction
    (I := fun labels c => LockInv c ∧ AdmissionInv limits (regionEvents labels) c.region)
    ⟨lockInv_initial hinit, admissionInv_initial hinit⟩ ?_
  rintro labels c label c' _ ⟨hlock, hadm⟩ hstep
  refine ⟨lockInv_step hlock hstep, ?_⟩
  rw [regionEvents, filterMap_append]
  cases label with
  | none =>
    rw [region_eq_of_silent hstep]
    exact append_nil (regionEvents labels) ▸ hadm
  | some e =>
    obtain ⟨heffect, hafter⟩ := effect_step hlock hstep
    rw [hafter]
    exact admissionInv_effect hadm heffect

theorem RegionState.Next.lt {s s' : RegionState} (h : Next s s') : s.asU8 < s'.asU8 := by
  cases h <;> decide

theorem state_forward_step {label : Option RegionEvent} (hlock : LockInv c)
    (h : RegionStep c label c') :
    c.region.state.asU8 ≤ c'.region.state.asU8 := by
  cases label with
  | none => rw [region_eq_of_silent h]
  | some e =>
    obtain ⟨heffect, hafter⟩ := effect_step hlock h
    rw [hafter]
    rcases heffect.spec.state with hstate | hnext
    · rw [hstate]
    · exact le_of_lt hnext.lt

theorem state_forward_run (hlock : LockInv c) (hrun : (regionSystem limits).Run c labels c') :
    c.region.state.asU8 ≤ c'.region.state.asU8 := by
  refine (hrun.invariant (I := fun u => LockInv u ∧ c.region.state.asU8 ≤ u.region.state.asU8)
    ⟨hlock, le_refl _⟩ ?_).2
  rintro u label u' ⟨hu, hle⟩ hstep
  exact ⟨lockInv_step hu hstep, le_trans hle (state_forward_step hu hstep)⟩

/-- What holds of a configuration reached with the given events, and of a later
one. -/
structure RegionAdmissionOk (limits : RegionLimits) (history : List RegionEvent)
    (c c' : RegionConfig) : Prop where
  childLimit : WithinLimit c.region.children.length limits.maxChildren
  taskLimit :
    WithinLimit (c.region.tasks.filter (· ∉ exemptTasks history)).length limits.maxTasks
  obligationLimit : WithinLimit c.region.pendingObligations limits.maxObligations
  noneAfterClose : history.Pairwise fun e e' => e.closeBegan → ¬ e'.admitsNormal
  forward : c.region.state.asU8 ≤ c'.region.state.asU8
  edges : ∀ e ∈ history,
    e.after.state = e.before.state ∨ RegionState.Next e.before.state e.after.state
  childrenNodup : c.region.children.Nodup
  tasksNodup : c.region.tasks.Nodup
  completedOnce : history.Pairwise fun e e' => e.closeCompleted → ¬ e'.closeCompleted
  quiescent : ∀ e ∈ history, e.closeCompleted →
    e.before.tasks = [] ∧ e.before.children = [] ∧ e.before.pendingObligations = 0 ∧
      e.before.finalizers = [] ∧ e.before.state = .finalizing

/-- **Admission and close of a region.**  Under every interleaving of any number
of threads the counts stay within the limits, nothing normal is admitted once a
close has begun, the state moves forward along the lifecycle edges, the tracked
lists have no duplicates, and the close completes at most once and only on a
quiescent record. -/
theorem region_admission {limits : RegionLimits} {c₀ c c' : RegionConfig}
    {labels later : List (Option RegionEvent)} (hinit : c₀.Initial limits)
    (hrun : (regionSystem limits).Run c₀ labels c) (hlater : (regionSystem limits).Run c later c') :
    RegionAdmissionOk limits (regionEvents labels) c c' := by
  obtain ⟨hlock, inv⟩ := regionSystem_run hinit hrun
  exact
    { childLimit := inv.children
      taskLimit := inv.tasks
      obligationLimit := inv.obligations
      noneAfterClose := inv.afterClose
      forward := state_forward_run hlock hlater
      edges := inv.edges
      childrenNodup := inv.childrenNodup
      tasksNodup := inv.tasksNodup
      completedOnce := inv.completedOnce
      quiescent := inv.quiescent }

/-- A region with room for one task, in which one thread has added a task. -/
theorem region_admission_one_task :
    ∃ (c₀ c : RegionConfig) (labels : List (Option RegionEvent)),
      c₀.Initial ⟨some 1, some 1, some 1⟩ ∧
      (regionSystem ⟨some 1, some 1, some 1⟩).Run c₀ labels c ∧
      c.region.tasks = [⟨⟨7, 0⟩⟩] ∧
      RegionAdmissionOk ⟨some 1, some 1, some 1⟩ (regionEvents labels) c c := by
  let op := RegionOp.addTask ⟨⟨7, 0⟩⟩
  let c₀ : RegionConfig :=
    ⟨(RegionRecord.newWithTime ⟨⟨0, 0⟩⟩ none Budget.infinite 0).setLimits
      ⟨some 1, some 1, some 1⟩, none, fun _ => .idle⟩
  have hinit : c₀.Initial ⟨some 1, some 1, some 1⟩ :=
    ⟨⟨⟨⟨0, 0⟩⟩, none, Budget.infinite, 0, rfl⟩, rfl, fun _ => rfl⟩
  have hrun : ∃ labels c, (regionSystem ⟨some 1, some 1, some 1⟩).Run c₀ labels c ∧
      c.region.tasks = [⟨⟨7, 0⟩⟩] :=
    ⟨_, _, .snoc (.snoc (.snoc (.snoc (.snoc .nil
      (.call 0 op rfl))
      (.loadPass 0 op _ rfl rfl rfl))
      (.acquire 0 op rfl rfl))
      (.recheckPass 0 op _ rfl rfl rfl))
      (.commitChecked 0 op .opened rfl), rfl⟩
  obtain ⟨labels, c, hrun, htasks⟩ := hrun
  exact ⟨c₀, c, labels, hinit, hrun, htasks, region_admission hinit hrun .nil⟩

end Admission

section FailedClose

/-- The public calls.  Those that are neither a `RegionOp` nor `record_close_outcome`, such as
`cancel_request` and `set_state`, may change anything but the close outcome. -/
inductive PublicCall where
  | exec (op : RegionOp)
  | recordCloseOutcome (outcome : TaskOutcome)
  | other (change : RegionRecord → RegionRecord)

namespace RegionRecord

def perform (r : RegionRecord) : PublicCall → RegionRecord
  | .exec op => (r.exec op).1
  | .recordCloseOutcome outcome => r.recordCloseOutcome outcome
  | .other change => { change r with closeOutcome := r.closeOutcome }

/-- The record after some calls. -/
def after (r : RegionRecord) (calls : List PublicCall) : RegionRecord := calls.foldl perform r

/-- `complete_close` finds work left, or an outcome that it keeps. -/
def KeepsOutcome (r : RegionRecord) : Prop := r.isQuiescent = false ∨ r.closeOutcome.isSome = true

variable {r : RegionRecord}

theorem closeOutcome_transition (source target : RegionState) :
    (r.transition source target).1.closeOutcome = r.closeOutcome := by
  unfold transition
  split_ifs <;> rfl

theorem KeepsOutcome.completeClose_eq (h : r.KeepsOutcome) :
    r.completeClose = if r.isQuiescent then r.transition .finalizing .closed else (r, false) := by
  rcases h with hwork | hsome
  · rw [completeClose, hwork]
    rfl
  · obtain ⟨outcome, houtcome⟩ := Option.isSome_iff_exists.mp hsome
    have hsame : r.defaultCloseOutcome = r := by
      simp only [defaultCloseOutcome, houtcome]
      rw [← houtcome]
    rw [completeClose, hsame]

theorem closeOutcome_exec {op : RegionOp} (hop : op = .completeClose → r.KeepsOutcome) :
    (r.exec op).1.closeOutcome = r.closeOutcome := by
  cases op with
  | completeClose =>
    rw [exec, (hop rfl).completeClose_eq]
    split_ifs
    · exact closeOutcome_transition _ _
    · rfl
  | addChild | addTask | addCleanupTask | tryReserveObligation =>
    simp only [exec, addChild, admitChild, addTask, addCleanupTask, addTaskInternal, admitTask,
      tryReserveObligation, admitObligation]
    split_ifs
    all_goals first | rfl | cases checkLimit _ _ _ <;> rfl
  | resolveObligation | popFinalizer =>
    simp only [exec, resolveObligation, popFinalizer]
    split <;> rfl
  | beginClose reason =>
    simp only [exec, beginClose]
    split_ifs
    · rfl
    · cases reason <;> exact closeOutcome_transition _ _
  | beginDrain => exact closeOutcome_transition _ _
  | beginFinalize =>
    simp only [exec, beginFinalize]
    split_ifs <;> exact closeOutcome_transition _ _
  | _ => rfl

theorem completeClose_eq_self_iff (h : r.completeClose.2 = false) :
    r.completeClose.1 = r ↔ r.KeepsOutcome := by
  refine ⟨fun heq => ?_, fun hkeeps => ?_⟩
  · by_contra hnot
    rw [KeepsOutcome, not_or, Bool.not_eq_false] at hnot
    rw [completeClose, if_pos hnot.1] at heq
    rw [← heq, closeOutcome_transition, defaultCloseOutcome] at hnot
    cases hr : r.closeOutcome <;> cases hc : r.cancelReason <;> simp [hr, hc] at hnot
  · rw [hkeeps.completeClose_eq] at h ⊢
    unfold transition at h ⊢
    split_ifs at h ⊢ <;> rfl

theorem closeOutcome_after {calls : List PublicCall}
    (hkeeps : ∀ before rest, calls = before ++ .exec .completeClose :: rest →
      (r.after before).KeepsOutcome)
    (hrecord : ∀ outcome, .recordCloseOutcome outcome ∉ calls) :
    (r.after calls).closeOutcome = r.closeOutcome := by
  induction calls using reverseRecOn with
  | nil => rfl
  | append_singleton calls call ih =>
    have hbefore : (r.after calls).closeOutcome = r.closeOutcome := by
      refine ih (fun before rest heq => ?_) fun outcome hmem =>
        hrecord outcome (mem_append_left _ hmem)
      exact hkeeps before (rest ++ [call]) (by rw [heq]; simp)
    rw [after, foldl_append, ← hbefore]
    cases call with
    | exec op => exact closeOutcome_exec fun hop => hkeeps calls [] (by rw [hop])
    | recordCloseOutcome outcome => exact absurd (mem_append_right _ mem_cons_self) (hrecord outcome)
    | other change => rfl

end RegionRecord

end FailedClose

end Asupersync
