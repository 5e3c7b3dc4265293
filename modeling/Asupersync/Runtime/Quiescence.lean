import Asupersync.Runtime.Operations

/-!
# Close implies quiescence, and the accounting of obligations

What the invariant says of whole runs of the runtime state.

**Results.**
* `close_implies_quiescence`: whenever a region is closed and removed, nothing of it
  is left: no task, no child, no reserved obligation, no finalizer and no running
  finalizer task.  Ownership links agree in both directions in every state of every
  run.
* `obligation_accounting`: the obligation counter of a region is the number of reserved
  obligations that name it, reserved obligations are held by live tasks of their
  region, and no counter is ever released below zero.
* `closed_regions_stay_closed`: a closed region never comes back.
-/

namespace Asupersync

open Lib

/-! ## Every removal is recorded -/

section Recorded

variable {s s' : RuntimeState}

/-- The closes are only added to, and every region that leaves the table is among the
new ones. -/
def Recorded (s s' : RuntimeState) : Prop :=
  ∃ new, s'.closings = s.closings ++ new ∧
    ∀ r, s.region r ≠ none → s'.region r = none → r ∈ new.map Prod.fst

theorem Recorded.of_rel {P : RegionRecord → RegionRecord → Prop}
    (h : RegionsRel P s s') (hclosings : s'.closings = s.closings) : Recorded s s' := by
  refine ⟨[], by rw [hclosings, List.append_nil], fun r hr hr' => ?_⟩
  obtain ⟨record, hrecord⟩ := Option.ne_none_iff_exists'.mp hr
  obtain ⟨record', hrecord', -⟩ := h.forth hrecord
  rw [hr'] at hrecord'
  cases hrecord'

theorem Recorded.updateRegion (s : RuntimeState) (r : RegionId)
    (f : RegionRecord → RegionRecord) : Recorded s (s.updateRegion r f) :=
  .of_rel (RegionsRel.updateRegion (P := fun _ _ => True) (fun _ => trivial) fun _ _ => trivial) rfl

theorem Recorded.trans {s'' : RuntimeState} (h : Recorded s s') (h' : Recorded s' s'') :
    Recorded s s'' := by
  obtain ⟨new, hnew, hrecorded⟩ := h
  obtain ⟨new', hnew', hrecorded'⟩ := h'
  refine ⟨new ++ new', by rw [hnew', hnew, List.append_assoc], fun r hr hr'' => ?_⟩
  rw [List.map_append, List.mem_append]
  by_cases hr' : s'.region r = none
  · exact .inl (hrecorded r hr hr')
  · exact .inr (hrecorded' r hr' hr'')

theorem recorded_change {label : ChangeLabel} (h : Inv s) (hchange : Change s label s') :
    Recorded s s' := by
  have hsame : ∀ u : RuntimeState, (∀ r, u.region r = s.region r) → u.closings = s.closings →
      Recorded s u := fun u hu => .of_rel (.of_eq (P := fun _ _ => True) (fun _ => trivial) hu)
  cases hchange with
  | @createRegion r _ _ hnew =>
    refine ⟨[], by rw [hnew.rest, List.append_nil], fun q hq hq' => ?_⟩
    have hne : q ≠ r := fun heq => hq (heq ▸ hnew.absent)
    exact absurd hq' ((Inv.regionCreated_other hnew hne).present hq)
  | createTask hnew =>
    exact .of_rel (Inv.regionsRel_taskCreated hnew) (by rw [hnew.rest])
  | createObligation | resolve | touchRegion | beginClose | cancelRegion | drain | finalize
  | register | popFinalizer => exact .updateRegion s _ _
  | touchTask | asyncDone | recordRun => exact hsame _ (fun _ => rfl) rfl
  | runSync hregion hstate hidle hstack hids =>
    have hran := syncRan_single hregion hstate hidle hstack hids
    exact .of_rel hran.records (by rw [hran.rest])
  | @startAsync r _ _ _ _ _ _ s₁ _ _ _ _ _ hspawn =>
    have hdrop : Recorded s (s.dropTop r) := .updateRegion s _ _
    have hcreated : Recorded (s.dropTop r) s₁ :=
      .of_rel (Inv.regionsRel_taskCreated hspawn) (by rw [hspawn.rest])
    exact hdrop.trans hcreated
  | @removeTask t r outcome howner =>
    have hrecycle : Recorded s (s.recycleTask t) := by
      obtain ⟨_, tasks, heq, -⟩ := s.recycleTask_spec h.shape.tasks howner
      rw [heq]
      exact hsame _ (fun _ => rfl) rfl
    exact hrecycle.trans (.updateRegion _ _ _)
  | @close r record hregion hstate hquiet =>
    obtain ⟨_, tables, rfl, hremoved, hfinished⟩ :=
      h.close_spec record.completeClose.1.closeOutcome hregion hstate hquiet
    refine ⟨[(r, tables)], hfinished.closings, fun q hq hq' => ?_⟩
    by_cases hqr : q = r
    · exact List.mem_singleton.mpr hqr
    · exact absurd hq' ((Inv.regionRemoved_other hremoved hqr).present hq)
  | settings hs =>
    rw [hs]
    exact hsame _ (fun _ => rfl) rfl
  | rearrange hcontents => exact hsame _ hcontents.region (by rw [hcontents.rest])

theorem recorded_via {K : ChangeLabel → Prop} (h : Inv s) (hvia : Via K s s') : Recorded s s' := by
  have hstart : Recorded s s :=
    .of_rel (.of_eq (P := fun _ _ => True) (fun _ => trivial) fun _ => rfl) rfl
  refine (hvia.invariant (I := fun u => Inv u ∧ Recorded s u) ⟨h, hstart⟩
    fun u label u' _ hu hchange => ⟨hu.1.change hchange, hu.2.trans ?_⟩).2
  exact recorded_change hu.1 hchange

end Recorded

/-! ## Close implies quiescence -/

/-- What holds in a state of a run, and of its next step. -/
structure QuiescenceOk (s : RuntimeState) : Prop where
  /-- At every close so far, nothing of the region was left. -/
  closed : ∀ closing ∈ s.closings, Quiescent closing.1 closing.2
  /-- A region leaves the table only by such a close. -/
  removed : ∀ event s' r, RuntimeStep s event s' → s.region r ≠ none → s'.region r = none →
    ∃ new, s'.closings = s.closings ++ new ∧ r ∈ new.map Prod.fst
  /-- Regions in the table are not closed. -/
  present : ∀ r record, s.region r = some record → record.state ≠ .closed
  /-- The owner of a live task is in the table and lists it. -/
  owner : ∀ t task, s.task t = some task →
    ∃ record, s.region task.owner = some record ∧ t ∈ record.tasks
  /-- The parent of a live region is in the table and lists it. -/
  parent : ∀ r record p, s.region r = some record → record.parent = some p →
    ∃ parentRecord, s.region p = some parentRecord ∧ r ∈ parentRecord.children
  /-- Every operation ends, and not with the panics of the finalizer stacks. -/
  ends : ∀ op, (s.exec op).Ends (fun _ _ => True) fun cause _ =>
    cause ≠ .finalizerIdsMissing ∧ cause ≠ .finalizerIdsOutOfSync

theorem close_implies_quiescence {history : List RuntimeEvent} {s : RuntimeState}
    (hrun : runtimeSystem.Run .new history s) :
    QuiescenceOk s := by
  have h := inv_run hrun
  constructor
  case closed => exact h.closings
  case removed =>
    intro event s' r hstep hr hr'
    obtain ⟨new, hnew, hrecorded⟩ := recorded_via h (step_via h hstep)
    exact ⟨new, hnew, hrecorded r hr hr'⟩
  case present => exact fun r record hr => (h.shape.named r record hr).2
  case owner => exact fun t task ht => h.region_owner (s.owner_of_task ht)
  case parent =>
    intro r record p hr hp
    obtain ⟨n, hn, hmem⟩ :=
      (h.shape.forest.links p r).mpr ⟨record.node, s.node_of_region hr, hp⟩
    obtain ⟨parentRecord, hparent, rfl⟩ := Option.map_eq_some_iff.mp hn
    exact ⟨parentRecord, hparent, hmem⟩
  case ends =>
    exact fun op => Flow.Ends.mono (exec_spec h op) (fun _ _ _ => trivial)
      fun _ _ hpanic => hpanic.cause

/-- A region with a task, an obligation and an asynchronous finalizer: it is cancelled, the
task completes, the finalizer runs, and the region closes. -/
def cancelledScope : List RuntimeOp :=
  let root : RegionId := ⟨⟨0, 0⟩⟩
  let worker : TaskId := ⟨⟨0, 0⟩⟩
  let finalizer : TaskId := ⟨⟨0, 1⟩⟩
  [.createRootRegion .infinite, .createTask root .infinite,
    .createObligation .sendPermit worker root none, .registerFinalizer root (.async 7),
    .cancelRequest root (.new .shutdown), .taskOp worker (.complete (.ok ())),
    .taskCompleted worker, .drainReadyAsyncFinalizers, .taskOp finalizer (.complete (.ok ())),
    .taskCompleted finalizer]

theorem close_implies_quiescence_cancelled_scope :
    (perform cancelledScope .new).2.closings.map Prod.fst = [⟨⟨0, 0⟩⟩] ∧
      (perform cancelledScope .new).1.length = 10 ∧
      QuiescenceOk (perform cancelledScope .new).2 :=
  ⟨by decide +kernel, by decide +kernel,
    close_implies_quiescence (perform_run cancelledScope .new)⟩

/-! ## The accounting of obligations -/

structure AccountingOk (s : RuntimeState) : Prop where
  /-- The counter of a region is the number of reserved obligations that name it. -/
  counter : ∀ r record, s.region r = some record →
    record.pendingObligations = s.obligations.reserved r
  /-- A reserved obligation is held by a live task of a live region. -/
  holder : ∀ o ob, s.obligation o = some ob → ob.state = .reserved →
    ∃ task record, s.task ob.holder = some task ∧ task.owner = ob.region ∧
      s.region ob.region = some record
  /-- No counter was released at zero, in a live region or in one that has been closed. -/
  doubleResolve : ∀ r record, s.region r = some record → record.doubleResolveCount = 0
  doubleResolveClosed : ∀ closing ∈ s.closings, ∃ record,
    closing.2.region closing.1 = some record ∧ record.doubleResolveCount = 0

theorem obligation_accounting {history : List RuntimeEvent} {s : RuntimeState}
    (hrun : runtimeSystem.Run .new history s) :
    AccountingOk s := by
  have h := inv_run hrun
  constructor
  case counter => exact fun r record hr => (h.accounting.counter r record hr).1
  case holder =>
    intro o ob ho hreserved
    have howner := h.accounting.holder o ob ho (decide_eq_true hreserved)
    obtain ⟨task, htask, hregion⟩ := Option.map_eq_some_iff.mp howner
    obtain ⟨record, hrecord, -⟩ := h.region_owner howner
    exact ⟨task, record, htask, hregion, hrecord⟩
  case doubleResolve => exact fun r record hr => (h.accounting.counter r record hr).2
  case doubleResolveClosed =>
    intro closing hclosing
    obtain ⟨record, hrecord, -, -, -, -, hdouble⟩ := (h.closings closing hclosing).record
    exact ⟨record, hrecord, hdouble⟩

/-- Two obligations of one task: one is committed, the other is left to a leak that the
runtime recovers from when the task completes. -/
def leakyScope : List RuntimeOp :=
  let root : RegionId := ⟨⟨0, 0⟩⟩
  let worker : TaskId := ⟨⟨0, 0⟩⟩
  [.configure (.obligationLeakResponse .recover), .createRootRegion .infinite,
    .createTask root .infinite, .createObligation .sendPermit worker root none,
    .createObligation .lease worker root none, .commitObligation ⟨⟨0, 0⟩⟩,
    .taskOp worker (.complete (.ok ())), .taskCompleted worker]

theorem obligation_accounting_leaky_scope :
    ((perform leakyScope .new).2.obligation ⟨⟨1, 0⟩⟩).map (·.state) = some .aborted ∧
      ((perform leakyScope .new).2.region ⟨⟨0, 0⟩⟩).map (·.pendingObligations) = some 0 ∧
      (perform leakyScope .new).1.length = 8 ∧ AccountingOk (perform leakyScope .new).2 :=
  ⟨by decide +kernel, by decide +kernel, by decide +kernel,
    obligation_accounting (perform_run leakyScope .new)⟩

/-! ## A closed region is gone for good -/

/-- Each region has closed at most once, and the obligation table fences it off. -/
def Retired (s : RuntimeState) : Prop :=
  (s.closings.map Prod.fst).Nodup ∧
    ∀ r ∈ s.closings.map Prod.fst, r ∈ s.obligations.finalizedRegions

theorem Retired.change {s s' : RuntimeState} {label : ChangeLabel} (h : Retired s) (hinv : Inv s)
    (hchange : Change s label s') : Retired s' := by
  cases hchange with
  | createRegion hnew | createTask hnew | rearrange hnew | startAsync _ _ _ _ _ hnew =>
    rw [hnew.rest]
    exact h
  | settings hs =>
    rw [hs]
    exact h
  | createObligation _ _ _ hnew | resolve hnew =>
    exact ⟨h.1, fun r hr => hnew.finalized ▸ h.2 r hr⟩
  | @runSync _ _ _ _ panics => cases panics <;> exact h
  | removeTask howner =>
    obtain ⟨_, tasks, heq, -⟩ := s.recycleTask_spec hinv.shape.tasks howner
    rw [RuntimeState.removeCompletedTask, heq]
    exact h
  | @close r record hregion hstate hquiet =>
    obtain ⟨_, tables, rfl, -, hfinished⟩ :=
      hinv.close_spec record.completeClose.1.closeOutcome hregion hstate hquiet
    -- a region in the table is not fenced off
    have hnew : r ∉ s.closings.map Prod.fst := fun hr => by
      cases (Arena.get_none_of_stale (hinv.accounting.fenced r (h.2 r hr))).symm.trans hregion
    rw [Retired, hfinished.closings, hfinished.obligations, List.map_append]
    refine ⟨List.nodup_append_comm.mpr (List.nodup_cons.mpr ⟨hnew, h.1⟩), fun q hq => ?_⟩
    rcases List.mem_append.mp hq with hq | hq
    · exact List.mem_cons_of_mem r (h.2 q hq)
    · exact List.mem_singleton.mp hq ▸ List.mem_cons_self
  | _ => exact h

/-- In every run each region closes at most once, and the id of a closed region never names a
region again. -/
theorem closed_regions_stay_closed {history : List RuntimeEvent} {s : RuntimeState}
    (hrun : runtimeSystem.Run .new history s) :
    (s.closings.map Prod.fst).Nodup ∧ ∀ r ∈ s.closings.map Prod.fst, s.region r = none := by
  obtain ⟨hinv, hretired⟩ : Inv s ∧ Retired s :=
    hrun.invariant ⟨.new, .nil, nofun⟩ fun _ _ _ hu hstep =>
      (step_via hu.1 hstep).invariant (I := fun v => Inv v ∧ Retired v) hu
        fun _ _ _ _ hv hchange => ⟨hv.1.change hchange, hv.2.change hv.1 hchange⟩
  refine ⟨hretired.1, fun r hr => ?_⟩
  exact Arena.get_none_of_stale (hinv.accounting.fenced r (hretired.2 r hr))

theorem closed_regions_stay_closed_cancelled_scope :
    (perform cancelledScope .new).2.region ⟨⟨0, 0⟩⟩ = none :=
  (closed_regions_stay_closed (perform_run cancelledScope .new)).2 _ (by decide +kernel)

end Asupersync
