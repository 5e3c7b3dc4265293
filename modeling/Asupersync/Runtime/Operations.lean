import Asupersync.Runtime.Advance
import Asupersync.Runtime.Traversal

/-!
# The operations as sequences of changes

Each operation on the runtime state, started in a state with the invariant, ends and
is a sequence of changes (`exec_spec`).  The labels of an operation are all plain,
but for the cancellation of regions, the registration of a finalizer and the two
operations that take finalizers off the stacks from outside.
-/

namespace Asupersync

open Lib RuntimeState RegionRecord RuntimeTables List Option Arena ObligationTable

/-- The changes of ordinary operations. -/
def ChangeLabel.isPlain : ChangeLabel → Bool
  | .cancelRegion _ _ | .register _ _ | .popFinalizer _ | .recordRun | .asyncDone _ => false
  | _ => true

def PlainLabel (label : ChangeLabel) : Prop := label.isPlain = true

theorem AdvanceLabel.plain {A : RegionId → Prop} {label : ChangeLabel}
    (h : AdvanceLabel A label) : PlainLabel label := by
  cases h <;> rfl

/-! ## Creation -/

section Creation

variable {s : RuntimeState}

/-- An insertion that is taken back leaves the contents as they were. -/
theorem get_insert_remove {α : Type} {a b c : Arena α} {f : ArenaIndex → α} {i : ArenaIndex}
    {value : α} (hinsert : a.Inserted f i b) (hremove : b.Removed i value c) (j : ArenaIndex) :
    c.get j = a.get j := by
  rw [hremove.get j, hinsert.get j]
  split_ifs with hj
  · rw [hj, hinsert.absent]
  · rfl

theorem createRootRegion_spec (h : Inv s) (budget : Budget) :
    Spec PlainLabel s (fun _ _ => True) (s.createRootRegion budget) := by
  unfold createRootRegion
  split
  · exact trivial
  rename_i idx regions hinsert
  have hspec := insertWith_spec h.shape.regions hinsert
  have hget : ∀ q : RegionId, regions.get q.arenaIndex =
      if q = ⟨idx⟩ then some (.newWithTime ⟨idx⟩ none budget s.now) else s.region q :=
    fun q => (hspec.get _).trans (if_congr RegionId.arenaIndex_eq_iff rfl rfl)
  have hnew : RegionCreated s ⟨idx⟩ none
      { s with regions := regions, rootRegion := some ⟨idx⟩ } := by
    constructor
    case absent => exact hspec.absent
    case fresh => exact hspec.fresh
    case record => exact ⟨budget, (hget ⟨idx⟩).trans (if_pos rfl)⟩
    case listed => exact fun _ hp => (nomatch hp)
    case other => exact fun q hq _ => (hget q).trans (if_neg hq)
    case wellFormed => exact hspec.wellFormed
    case stale => exact hspec.stale
    case rest => rfl
  exact .ok (.single (.createRegion hnew) rfl) trivial

variable {record record' : RegionRecord}

theorem addChild_ok {c : RegionId} (hfresh : c ∉ record.children)
    (h : record.addChild c = .ok record') :
    record.state = .opened ∧ record' = { record with children := record.children ++ [c] } := by
  rw [addChild, admitChild, if_neg hfresh] at h
  split_ifs at h with hopen
  split at h
  · cases h
  · exact ⟨by simpa [RegionState.canSpawn] using hopen, (Except.ok.inj h).symm⟩

theorem createChildRegion_spec (h : Inv s) (parent : RegionId) (budget : Budget)
    (pressure : Option String) :
    Spec PlainLabel s (fun _ _ => True) (s.createChildRegion parent budget pressure) := by
  unfold createChildRegion
  cases pressure with
  | some reason => exact .ok .refl trivial
  | none =>
    unfold RegionTable.createChild
    cases hparent : s.regions.get parent.arenaIndex with
    | none => exact .ok .refl trivial
    | some parentRecord =>
      dsimp only
      cases hinsert : s.regions.insertWith fun idx => newWithTime ⟨idx⟩
          (some parent) (parentRecord.budget.combine budget) s.now with
      | none => exact trivial
      | some inserted =>
        obtain ⟨idx, inserted⟩ := inserted
        have hspec := insertWith_spec h.shape.regions hinsert
        have hself : inserted.get idx = some (.newWithTime ⟨idx⟩ (some parent)
            (parentRecord.budget.combine budget) s.now) :=
          (hspec.get idx).trans (if_pos rfl)
        have hne : parent ≠ ⟨idx⟩ := by
          rintro rfl
          cases hspec.absent.symm.trans hparent
        have hne' : parent.arenaIndex ≠ idx := fun heq =>
          hne (RegionId.arenaIndex_eq_iff.mp heq)
        have hkept : inserted.get parent.arenaIndex = some parentRecord := by
          rw [hspec.get, if_neg hne', hparent]
        -- a refusal takes the new record out again
        obtain ⟨removed, hremove, hremoved⟩ := remove_spec hspec.wellFormed hself
        have hsame : SameContents s { s with regions := removed } :=
          ⟨fun q => get_insert_remove hspec hremoved q.arenaIndex, fun _ => rfl,
            fun _ => hremoved.wellFormed, id, fun i hi => hremoved.stale i (hspec.stale i hi), rfl⟩
        simp only [hremove, hkept]
        cases hadd : parentRecord.addChild ⟨idx⟩ with
        | error err => exact .ok (.single (.rearrange hsame) rfl) trivial
        | ok record' =>
          have hfresh : (⟨idx⟩ : RegionId) ∉ parentRecord.children := fun hmem =>
            h.shape.forest.not_listsChild_of_absent (s.node_of_absent hspec.absent) parent
              ⟨parentRecord.node, s.node_of_region hparent, hmem⟩
          obtain ⟨hopen, rfl⟩ := addChild_ok hfresh hadd
          have hnew : RegionCreated s ⟨idx⟩ (some parent)
              { s with
                regions := inserted.modify parent.arenaIndex fun _ =>
                  { parentRecord with children := parentRecord.children ++ [⟨idx⟩] } } := by
            constructor
            case absent => exact hspec.absent
            case fresh => exact hspec.fresh
            case record =>
              refine ⟨parentRecord.budget.combine budget, ?_⟩
              exact (get_modify _ _ _ _).trans ((if_neg (Ne.symm hne')).trans hself)
            case listed =>
              intro p hp
              cases hp
              refine ⟨parentRecord, hparent, hopen, ?_⟩
              refine (get_modify _ _ _ _).trans ((if_pos rfl).trans ?_)
              rw [hkept]
              rfl
            case other =>
              intro q hq hqp
              have hqparent : q.arenaIndex ≠ parent.arenaIndex := fun heq =>
                hqp (congrArg some (RegionId.arenaIndex_eq_iff.mp heq).symm)
              refine (get_modify _ _ _ _).trans ((if_neg hqparent).trans ?_)
              exact (hspec.get _).trans (if_neg fun heq => hq (RegionId.arenaIndex_eq_iff.mp heq))
            case wellFormed => exact modify_wellFormed hspec.wellFormed
            case stale => exact fun i hi => modify_stale (hspec.stale i hi)
            case rest => rfl
          exact .ok (.single (.createRegion hnew) rfl) trivial

theorem addTaskInternal_ok {t : TaskId} {cleanupTask : Bool} (hfresh : t ∉ record.tasks)
    (h : record.addTaskInternal t cleanupTask = .ok record') :
    canAdmit cleanupTask record.state = true ∧
      record' = { record with tasks := record.tasks ++ [t] } := by
  rw [addTaskInternal, admitTask, if_neg hfresh] at h
  split_ifs at h with hallowed
  · exact ⟨hallowed, (Except.ok.inj h).symm⟩
  · split at h
    · cases h
    · exact ⟨hallowed, (Except.ok.inj h).symm⟩

/-- A finalizing region admits every cleanup task. -/
theorem addTaskInternal_cleanup (t : TaskId) (hstate : record.state = .finalizing) :
    ∃ record', record.addTaskInternal t true = .ok record' := by
  unfold addTaskInternal admitTask
  by_cases hmem : t ∈ record.tasks
  · exact ⟨record, by simp [hstate, hmem, canAdmit, RegionState.canAcceptCleanupWork]⟩
  · exact ⟨{ record with tasks := record.tasks ++ [t] }, by
      simp [hstate, hmem, canAdmit, RegionState.canAcceptCleanupWork]⟩

/-- The ends of the creation of a task. -/
theorem createTaskInfrastructure_cases (h : Inv s) (r : RegionId) (budget : Budget)
    (cleanupTask : Bool) :
    s.createTaskInfrastructure r budget cleanupTask = .panic .arenaOverflow s ∨
      (∃ err s', s.createTaskInfrastructure r budget cleanupTask = .ok (.error err) s' ∧
        SameContents s s' ∧ ¬ (cleanupTask = true ∧ s.isFinalizing r)) ∨
      ∃ t s', s.createTaskInfrastructure r budget cleanupTask = .ok (.ok t) s' ∧
        TaskCreated s r cleanupTask t s' := by
  unfold createTaskInfrastructure
  cases hinsert : s.tasks.insertWith fun idx => TaskRecord.newWithTime ⟨idx⟩ r budget s.now with
  | none => exact .inl rfl
  | some inserted =>
    refine .inr ?_
    obtain ⟨idx, tasks⟩ := inserted
    have hspec := insertWith_spec h.shape.tasks hinsert
    have hself : tasks.get idx = some (.newWithTime ⟨idx⟩ r budget s.now) :=
      (hspec.get idx).trans (if_pos rfl)
    -- a refusal recycles the new record
    obtain ⟨_, removed, hrecycle, hremoved⟩ := recycleTask_spec { s with tasks := tasks }
      (t := ⟨idx⟩) hspec.wellFormed (congrArg (Option.map _) hself)
    have hsame : SameContents s { s with tasks := removed } :=
      ⟨fun _ => rfl, fun t => get_insert_remove hspec hremoved t.arenaIndex, id,
        fun _ => hremoved.wellFormed, fun _ hi => hi, rfl⟩
    simp only [hrecycle, region]
    cases hregion : s.regions.get r.arenaIndex with
    | none =>
      refine .inl ⟨_, _, rfl, hsame, ?_⟩
      rintro ⟨-, record, hrecord, -⟩
      cases hregion.symm.trans hrecord
    | some record =>
      dsimp only
      cases hadd : record.addTaskInternal ⟨idx⟩ cleanupTask with
      | error err =>
        refine .inl ⟨_, _, rfl, hsame, ?_⟩
        rintro ⟨hcleanup, record', hrecord', hstate⟩
        cases hrecord'.symm.trans hregion
        obtain ⟨admitted, hadmitted⟩ := addTaskInternal_cleanup ⟨idx⟩ hstate
        rw [hcleanup, hadmitted] at hadd
        cases hadd
      | ok record' =>
        have hfresh : (⟨idx⟩ : TaskId) ∉ record.tasks := by
          intro hmem
          have howner := (h.shape.forest.owns r ⟨idx⟩).mp
            ⟨record.node, s.node_of_region hregion, hmem⟩
          unfold owner at howner
          rw [show s.task ⟨idx⟩ = none from hspec.absent] at howner
          cases howner
        obtain ⟨hallowed, rfl⟩ := addTaskInternal_ok hfresh hadd
        refine .inr ⟨⟨idx⟩, _, rfl, ?_⟩
        constructor
        case absent => exact hspec.absent
        case region =>
          refine ⟨record, hregion, hallowed, fun q => ?_⟩
          refine (region_updateRegion { s with tasks := tasks } r q _).trans ?_
          refine if_congr Iff.rfl ?_ rfl
          exact congrArg (Option.map _) hregion
        case task =>
          refine ⟨(TaskRecord.newWithTime ⟨idx⟩ r budget s.now).setCxInner
            (freshContext budget), rfl, rfl, fun u => ?_⟩
          refine (get_modify _ _ _ _).trans (ite_congr (propext TaskId.arenaIndex_eq_iff)
            (fun _ => congrArg (Option.map _) hself) fun hu => ?_)
          exact (hspec.get _).trans (if_neg (mt TaskId.arenaIndex_eq_iff.mp hu))
        case regions => exact modify_wellFormed h.shape.regions
        case tasks => exact modify_wellFormed hspec.wellFormed
        case stale => exact fun _ hi => modify_stale hi
        case rest => rfl

theorem createTask_spec (h : Inv s) (r : RegionId) (budget : Budget) :
    Spec PlainLabel s (fun _ _ => True) (s.createTask r budget) := by
  unfold createTask
  rcases createTaskInfrastructure_cases h r budget false with hend | ⟨err, s', hend, hsame, -⟩ |
    ⟨t, s', hend, hnew⟩ <;> rw [hend]
  · exact trivial
  · exact .ok (.single (.rearrange hsame) rfl) trivial
  · exact .ok (.single (.createTask hnew) rfl) trivial

theorem tryReserveObligation_ok (h : record.tryReserveObligation = .ok record') :
    record.state = .opened ∧
      record' =
        { record with pendingObligations := min (record.pendingObligations + 1) usizeMax } := by
  rw [tryReserveObligation, admitObligation] at h
  split_ifs at h with hopen
  split at h
  · cases h
  · exact ⟨by simpa [RegionState.canAcceptWork] using hopen, (Except.ok.inj h).symm⟩

theorem createObligation_spec (h : Inv s) (kind : ObligationKind) (holder : TaskId) (r : RegionId)
    (description : Option String) :
    Spec PlainLabel s (fun _ _ => True) (s.createObligation kind holder r description) := by
  unfold createObligation
  cases hregion : s.region r with
  | none => exact .ok .refl trivial
  | some record =>
    cases hholder : s.task holder with
    | none => exact .ok .refl trivial
    | some task =>
      dsimp only
      split
      · exact .ok .refl trivial
      rename_i howned
      have howner : s.owner holder = some r :=
        (s.owner_of_task hholder).trans (congrArg some (not_not.mp howned))
      cases hreserve : record.tryReserveObligation with
      | error err => exact .ok .refl trivial
      | ok record' =>
        obtain ⟨hopen, rfl⟩ := tryReserveObligation_ok hreserve
        dsimp only
        rw [s.updateRegion_congr (g := fun record => { record with
          pendingObligations := min (record.pendingObligations + 1) usizeMax }) hregion rfl]
        split
        · exact trivial
        · rename_i o table hcreate
          exact .ok (.single (.createObligation hregion hopen howner
            (create_spec h.accounting.table hcreate)) rfl) trivial

theorem registerFinalizer_cases (r : RegionId) (finalizer : Finalizer) :
    s.registerFinalizer r finalizer = .ok false s ∨
      s.registerFinalizer r finalizer = .panic .finalizerIdOverflow s ∨
      ∃ s', s.registerFinalizer r finalizer = .ok true s' ∧
        Change s (.register r finalizer) s' := by
  unfold registerFinalizer
  cases hregion : s.region r with
  | none => exact .inl rfl
  | some record =>
    dsimp only
    split
    · exact .inl rfl
    · rename_i hstate
      split
      · refine .inr (.inr ⟨_, rfl, .register hregion ?_⟩)
        cases hs : record.state <;> simp [hs, RegionState.isClosing, RegionState.isTerminal] at hstate
        rfl
      · exact .inr (.inl rfl)

end Creation

/-! ## Resolution and leaks -/

/-- Changes made by resolving obligations. -/
inductive LeakLabel : ChangeLabel → Prop
  | advance {label : ChangeLabel} : AdvanceLabel (fun _ => True) label → LeakLabel label
  | resolve {r : RegionId} : LeakLabel (.resolve r)
  | settings : LeakLabel .settings

theorem LeakLabel.plain {label : ChangeLabel} (h : LeakLabel label) : PlainLabel label := by
  cases h with
  | advance hlabel => exact hlabel.plain
  | resolve | settings => rfl

/-- What resolving obligations leaves alone. -/
structure LeakFrame (s s' : RuntimeState) : Prop where
  tasks : s'.tasks = s.tasks
  activeAsyncFinalizers : s'.activeAsyncFinalizers = s.activeAsyncFinalizers
  asyncFinalizerTasks : s'.asyncFinalizerTasks = s.asyncFinalizerTasks
  byHolder : s'.obligations.byHolder = s.obligations.byHolder
  pending : ∀ o ob, s'.obligations.get o = some ob → ob.isPending = true →
    s.obligations.get o = some ob

section Resolution

variable {s s' : RuntimeState}

theorem LeakFrame.refl (s : RuntimeState) : LeakFrame s s :=
  ⟨rfl, rfl, rfl, rfl, fun _ _ ho _ => ho⟩

theorem LeakFrame.owner (h : LeakFrame s s') (t : TaskId) : s'.owner t = s.owner t := by
  unfold RuntimeTables.owner RuntimeTables.task
  rw [h.tasks]

theorem LeakFrame.trans {s'' : RuntimeState} (h : LeakFrame s s') (h' : LeakFrame s' s'') :
    LeakFrame s s'' where
  tasks := h'.tasks.trans h.tasks
  activeAsyncFinalizers := h'.activeAsyncFinalizers.trans h.activeAsyncFinalizers
  asyncFinalizerTasks := h'.asyncFinalizerTasks.trans h.asyncFinalizerTasks
  byHolder := h'.byHolder.trans h.byHolder
  pending o ob ho hob := h.pending o ob (h'.pending o ob ho hob) hob

variable {o : ObligationId}

theorem leakFrame_change {label : ChangeLabel} (hlabel : LeakLabel label)
    (hchange : Change s label s') :
    LeakFrame s s' := by
  cases hlabel with
  | advance hadvance =>
    cases hadvance with
    | drain | finalize =>
      cases hchange
      exact ⟨rfl, rfl, rfl, rfl, fun _ _ ho _ => ho⟩
    | runSync =>
      cases hchange with
      | runSync hregion hstate hidle hstack hids =>
        rw [(syncRan_single hregion hstate hidle hstack hids).rest]
        exact ⟨rfl, rfl, rfl, rfl, fun _ _ ho _ => ho⟩
    | @close r =>
      cases hchange with
      | @close r record =>
        obtain ⟨tables, hfinished⟩ := finishClose_spec
          (s.updateRegion r fun record => record.completeClose.1) r record.parent
          record.completeClose.1.closeOutcome
        exact ⟨hfinished.tasks, hfinished.activeAsyncFinalizers, hfinished.asyncFinalizerTasks,
          congrArg (·.byHolder) hfinished.obligations, fun o ob ho _ => by
            rwa [hfinished.obligations] at ho⟩
  | resolve =>
    cases hchange with
    | resolve hresolved =>
      exact ⟨rfl, rfl, rfl, hresolved.index, fun o ob ho hob =>
        (pending_of_resolved hresolved o ob ho hob).2⟩
  | settings =>
    cases hchange with
    | settings hs =>
      rw [hs]
      exact ⟨rfl, rfl, rfl, rfl, fun _ _ ho _ => ho⟩

theorem leakFrame_via (h : Via LeakLabel s s') : LeakFrame s s' :=
  h.invariant (.refl s) fun _ _ _ hlabel hu hchange => hu.trans (leakFrame_change hlabel hchange)

theorem isPendingId_iff (t : ObligationTable) (o : ObligationId) :
    t.isPendingId o = true ↔ ∃ ob, t.get o = some ob ∧ ob.isPending = true := by
  unfold isPendingId
  cases t.get o <;> simp

variable (h : Inv s)

include h

theorem advanceAny_spec (r : RegionId) :
    Returns LeakLabel s (fun _ _ => True) (s.advanceRegionState r) :=
  (advanceRegionState_spec (A := fun _ => True) h trivial fun _ _ _ _ => trivial).mono
    (fun _ hlabel => .advance hlabel) fun _ _ _ _ => trivial

/-- A resolution that succeeds is a change, and the region is advanced; one that fails
leaves the state as it is. -/
theorem settle_spec {result : Except ObligationError (ObligationInfo × ObligationTable)}
    (hresolved : ∀ info table, result = .ok (info, table) → s.obligations.Resolved o info table)
    (hpending : s.obligations.isPendingId o = true → ∃ info table, result = .ok (info, table)) :
    Returns LeakLabel s (fun _ s' => s'.obligations.isPendingId o = false)
      (s.settle advanceRegionState result) := by
  cases hresult : result with
  | error err =>
    refine .ok .refl (Bool.eq_false_iff.mpr fun htrue => ?_)
    obtain ⟨info, table, heq⟩ := hpending htrue
    cases hresult.symm.trans heq
  | ok pair =>
    obtain ⟨info, table⟩ := pair
    have hspec := hresolved info table hresult
    have hvia : Via LeakLabel s
        { s.updateRegion info.region (·.resolveObligation) with obligations := table } :=
      .single (.resolve hspec) .resolve
    refine Returns.after hvia ((advanceAny_spec (h.via hvia) info.region).bind
      fun _ s' hadvance _ => .ok .refl (Bool.eq_false_iff.mpr fun htrue => ?_))
    obtain ⟨ob, hget, hob⟩ := (isPendingId_iff _ _).mp htrue
    exact (pending_of_resolved hspec o ob ((leakFrame_via hadvance).pending o ob hget hob) hob).1
      rfl

/-- The region of a reserved obligation is not finalized. -/
theorem not_finalized_of_pending {ob : ObligationRecord}
    (hget : s.obligations.get o = some ob) (hpending : ob.isPending = true) :
    ob.region ∉ s.obligations.finalizedRegions := by
  intro hmem
  obtain ⟨record, hrecord, -⟩ := h.region_owner (h.accounting.holder o ob hget hpending)
  cases (get_none_of_stale (h.accounting.fenced ob.region hmem)).symm.trans hrecord

theorem resolveFenced_settle (o : ObligationId) (resolution : ObligationResolution)
    (fence : ObligationError) :
    Returns LeakLabel s (fun _ s' => s'.obligations.isPendingId o = false)
      (s.settle advanceRegionState
        (s.obligations.resolveFenced o s.now resolution fence)) := by
  refine settle_spec h (fun info table hok => resolveFenced_spec hok) fun hpending => ?_
  obtain ⟨ob, hget, hob⟩ := (isPendingId_iff _ _).mp hpending
  have hopen := not_finalized_of_pending h hget hob
  simp [resolveFenced, hget, hopen, resolveRecord, hob]

theorem markObligationLeaked_spec (o : ObligationId) :
    Returns LeakLabel s (fun _ s' => s'.obligations.isPendingId o = false)
      (s.markObligationLeaked advanceRegionState o) := by
  refine settle_spec h (fun info table hok => markLeaked_spec hok) fun hpending => ?_
  obtain ⟨ob, hget, hob⟩ := (isPendingId_iff _ _).mp hpending
  simp [markLeaked, hget, resolveRecord, hob]

theorem markEach_spec (ids : List ObligationId) :
    Returns LeakLabel s (fun _ s' => Inv s')
      (markEach advanceRegionState ids s) :=
  Returns.forEach h fun o _ _ hu =>
    (markObligationLeaked_spec hu o).bind fun _ _ hvia _ => .ok .refl (hu.via hvia)

/-- After the loop none of the obligations is pending any more. -/
theorem abortEach_spec (reason : ObligationAbortReason) (ids : List ObligationId) :
    Returns LeakLabel s (fun _ s' => ∀ o ∈ ids, s'.obligations.isPendingId o = false)
      (abortEach advanceRegionState reason ids s) := by
  induction ids generalizing s with
  | nil => exact .ok .refl nofun
  | cons first rest ih =>
    refine (((resolveFenced_settle h first (.abort reason) .abortAfterFinalize).bind
      fun _ u _ hu => Returns.ok (Q := fun _ u => u.obligations.isPendingId first = false) .refl
        hu).bind fun _ u hvia hfirst => ?_)
    refine (ih (h.via hvia)).mono (fun _ hlabel => hlabel) fun _ s' hrest hdone o ho => ?_
    rcases mem_cons.mp ho with rfl | ho
    · refine Bool.eq_false_iff.mpr fun htrue => ?_
      obtain ⟨ob, hget, hob⟩ := (isPendingId_iff _ _).mp htrue
      have hback := (leakFrame_via hrest).pending o ob hget hob
      rw [(isPendingId_iff _ _).mpr ⟨ob, hback, hob⟩] at hfirst
      cases hfirst
    · exact hdone o ho

theorem handleObligationLeaks_spec (leaks : List ObligationId) :
    Spec LeakLabel s (fun _ _ => True)
      (s.handleObligationLeaks advanceRegionState leaks) := by
  unfold handleObligationLeaks
  dsimp only
  split
  · exact .ok .refl trivial
  generalize (leaks.filter fun o =>
    s.obligations.isPendingId o && decide (o ∉ s.inFlightLeakIds)) = newLeaks
  have henter : Via LeakLabel s (s.enterLeaks newLeaks) := .single (.settings rfl) .settings
  have hinv := h.via henter
  have hleave : ∀ u : RuntimeState, Via LeakLabel u (u.leaveLeaks newLeaks) :=
    fun _ => .single (.settings rfl) .settings
  refine Spec.after henter ?_
  cases (s.enterLeaks newLeaks).leakResponse with
  | panic => exact (markEach_spec hinv newLeaks).spec.bind fun _ u _ _ => hleave u
  | log | silent =>
    exact (markEach_spec hinv newLeaks).spec.bind fun _ u _ _ => .ok (hleave u) trivial
  | recover => exact (abortEach_spec hinv .error newLeaks).spec.bind fun _ u _ _ => .ok (hleave u) trivial

end Resolution

/-! ## Completion of a task -/

section Completion

variable {s : RuntimeState}

theorem handleTaskLeaks_spec (h : Inv s) (t : TaskId) (state : TaskState) :
    Spec LeakLabel s (fun _ _ => True) (s.handleTaskLeaks t state) := by
  unfold handleTaskLeaks
  split
  · exact .ok .refl trivial
  · exact handleObligationLeaks_spec h _

/-- The changes of the completion of a task. -/
def CompletionLabel (t : TaskId) (label : ChangeLabel) : Prop :=
  PlainLabel label ∨ label = .asyncDone t

variable {t : TaskId} {r : RegionId}

/-- The barrier of a finalizer task comes down; other tasks have none. -/
theorem completeAsyncFinalizer_spec (h : Inv s) (howner : s.owner t = some r) :
    Via (CompletionLabel t) s (s.completeAsyncFinalizer t r) ∧
      (s.completeAsyncFinalizer t r).asyncFinalizerTasks t = none ∧
      (s.completeAsyncFinalizer t r).tasks = s.tasks := by
  unfold completeAsyncFinalizer
  cases hid : s.asyncFinalizerTasks t with
  | none => exact ⟨.refl, hid, rfl⟩
  | some id =>
    obtain ⟨q, hq, hactive⟩ := h.stack.async t (by rw [hid]; exact some_ne_none id)
    obtain rfl : q = r := some.inj (hq.symm.trans howner)
    rw [if_pos hactive]
    refine ⟨.single (.asyncDone howner hid hactive) (.inr rfl), Function.update_self _ _ _, rfl⟩

/-- Every obligation the index gives for a task has been aborted, so it holds none. -/
theorem no_pending_of_aborted {s' : RuntimeState} (h : Inv s) (hframe : LeakFrame s s')
    (haborted : ∀ o ∈ s.obligations.sortedPendingIdsForHolder t,
      s'.obligations.isPendingId o = false) (o : ObligationId) (ob : ObligationRecord)
    (hget : s'.obligations.get o = some ob) (hpending : ob.isPending = true) :
    ob.holder ≠ t := by
  rintro rfl
  have hold := hframe.pending o ob hget hpending
  have hmem : o ∈ s.obligations.sortedPendingIdsForHolder ob.holder := by
    unfold sortedPendingIdsForHolder
    rw [mem_mergeSort]
    exact mem_filter.mpr ⟨h.accounting.indexed o ob hold hpending,
      (isPendingId_iff _ _).mpr ⟨ob, hold, hpending⟩⟩
  have hdone := haborted o hmem
  rw [(isPendingId_iff _ _).mpr ⟨ob, hget, hpending⟩] at hdone
  cases hdone

theorem task_removeCompletedTask (outcome : Option TaskOutcome) (h : Inv s)
    (howner : s.owner t = some r) :
    (s.removeCompletedTask t r outcome).task t = none := by
  obtain ⟨_, tasks, hrecycle, hspec⟩ := s.recycleTask_spec h.shape.tasks howner
  unfold removeCompletedTask
  rw [hrecycle]
  exact (hspec.get _).trans (if_pos rfl)

/-- What follows the handling of leaks: the task gives up its barrier and its obligations and
is removed. -/
theorem removeCompleted_spec {record : TaskRecord} (h : Inv s)
    (howner : s.owner t = some record.owner) :
    Returns (CompletionLabel t) s (fun _ s' => s'.task t = none)
      ((abortEach advanceRegionState .cancel
        ((s.completeAsyncFinalizer t record.owner).obligations.sortedPendingIdsForHolder t)
        (s.completeAsyncFinalizer t record.owner)).bind fun _ s =>
          ((s.removeCompletedTask t record.owner
            (completedOutcome record.state)).advanceRegionState record.owner).bind
              fun _ s => .ok record.waiters s) := by
  obtain ⟨hrelease, hasync, htasks⟩ := completeAsyncFinalizer_spec h howner
  refine Returns.after hrelease ?_
  have hinv := h.via hrelease
  have howner' : (s.completeAsyncFinalizer t record.owner).owner t = some record.owner := by
    rw [← howner]
    unfold owner task
    rw [htasks]
  generalize s.completeAsyncFinalizer t record.owner = s₁ at hinv howner' hasync ⊢
  refine ((abortEach_spec hinv .cancel _).mono (fun _ hlabel => .inl hlabel.plain)
    fun _ u hvia haborted => (⟨hinv.via hvia, leakFrame_via hvia, haborted⟩ :
      Inv u ∧ LeakFrame s₁ u ∧ ∀ o ∈ s₁.obligations.sortedPendingIdsForHolder t,
        u.obligations.isPendingId o = false)).bind fun _ s₂ _ haborted => ?_
  obtain ⟨hinv₂, hframe, haborted⟩ := haborted
  have howner₂ := (hframe.owner t).trans howner'
  have hremove : Via (CompletionLabel t) s₂ (s₂.removeCompletedTask t record.owner
      (completedOutcome record.state)) := by
    refine .single (.removeTask howner₂ ?_ ?_) (.inl rfl)
    · rw [hframe.asyncFinalizerTasks]
      exact hasync
    · exact no_pending_of_aborted hinv hframe haborted
  have hgone := task_removeCompletedTask (completedOutcome record.state) hinv₂ howner₂
  refine Returns.after hremove (((advanceAny_spec (hinv₂.via hremove) record.owner).mono
    (fun _ hlabel => .inl hlabel.plain) fun _ u hvia _ => ?_).bind
      fun _ u _ hu => .ok (Q := fun _ u => u.task t = none) .refl hu)
  unfold task
  rw [(leakFrame_via hvia).tasks]
  exact hgone

/-- A completed task is removed; leaks may only panic before its barrier comes down. -/
theorem taskCompleted_ends (h : Inv s) (t : TaskId) :
    (s.taskCompleted t).Ends
      (fun _ s' => Via (CompletionLabel t) s s' ∧ s'.task t = none) (PanicOk PlainLabel s) := by
  unfold taskCompleted
  cases htask : s.task t with
  | none => exact ⟨.refl, htask⟩
  | some record =>
    have htaken : Via PlainLabel s (s.updateTask t fun record => { record with waiters := [] }) :=
      .single (.touchTask fun _ _ => .of_same rfl rfl) rfl
    have hinv := h.via htaken
    have howner : (s.updateTask t fun record => { record with waiters := [] }).owner t =
        some record.owner := by
      refine (owner_updateTask s ?_ t).trans (s.owner_of_task htask)
      exact fun _ _ => rfl
    generalize (s.updateTask t fun record => { record with waiters := [] }) = s₁
      at htaken hinv howner
    refine Flow.Ends.bind (R := fun _ u => Via PlainLabel s u ∧ LeakFrame s₁ u)
      (Flow.Ends.mono (handleTaskLeaks_spec hinv t record.state)
        (fun _ u hu => ⟨htaken.trans (hu.1.mono fun _ hlabel => hlabel.plain), leakFrame_via hu.1⟩)
        fun _ _ hpanic => (hpanic.mono fun _ hlabel => hlabel.plain).after htaken)
      fun _ s₂ ⟨hvia, hframe⟩ => ?_
    exact Flow.Ends.mono
      (Returns.after (hvia.mono fun _ hlabel => .inl hlabel)
        (removeCompleted_spec (h.via hvia) ((hframe.owner t).trans howner)))
      (fun _ _ hend => hend) fun _ _ hpanic => hpanic.elim

theorem taskCompleted_spec (h : Inv s) (t : TaskId) :
    Spec (CompletionLabel t) s (fun _ _ => True) (s.taskCompleted t) :=
  Flow.Ends.mono (taskCompleted_ends h t) (fun _ _ hend => ⟨hend.1, trivial⟩)
    fun _ _ hpanic => hpanic.mono fun _ hlabel => .inl hlabel

end Completion

/-! ## Asynchronous finalizers -/

section AsyncFinalizers

variable {s : RuntimeState} {r : RegionId}

/-- A region whose finalizers may run. -/
def RuntimeTables.isIdle (s : RuntimeTables) (r : RegionId) : Prop :=
  s.isFinalizing r ∧ s.activeAsyncFinalizers r = none

/-- The synchronous finalizers run, and the task of the next asynchronous one starts.  No
other region is touched. -/
theorem drainRegion_spec (h : Inv s) (hidle : s.isIdle r) :
    Spec PlainLabel s (fun _ s' => ∀ q, q ≠ r → s.isIdle q → s'.isIdle q) (s.drainRegion r) := by
  obtain ⟨hfinalizing, hactive⟩ := hidle
  obtain ⟨s₀, hran, hend⟩ := runSyncFinalizersTracked_spec h hfinalizing hactive
  have hvia : Via PlainLabel s s₀ := hran.via.mono fun label hlabel => hlabel ▸ rfl
  have hinv := h.via hvia
  have hkept : ∀ q, s.isIdle q → s₀.isIdle q := by
    intro q hq
    refine ⟨hran.isFinalizing hq.1, ?_⟩
    rw [hran.rest]
    exact hq.2
  unfold drainRegion
  rcases hend with ⟨hloop, -⟩ | ⟨record, future, rest, id, ids, hrecord, hstack, hids, hloop⟩
  · rw [hloop]
    exact .ok hvia fun q _ hq => hkept q hq
  rw [hloop]
  obtain ⟨⟨record', hrecord', hstate⟩, hactive₀⟩ := hkept r ⟨hfinalizing, hactive⟩
  cases hrecord'.symm.trans hrecord
  have hdropped : (s₀.dropTop r).isFinalizing r :=
    ⟨_, (s₀.region_updateRegion_self r _).trans (congrArg _ hrecord), hstate⟩
  unfold spawnFinalizerTask
  dsimp only [Flow.bind]
  rcases createTaskInfrastructure_cases (hinv.dropTop r) r
    (finalizerBudget.withDeadline (min ((s₀.dropTop r).now +
      finalizerTimeBudgetNanos) u64Max)) true with
    hpanic | ⟨err, s', -, -, hnot⟩ | ⟨t, s', hcreated, hnew⟩
  · rw [hpanic]
    exact trivial
  · exact absurd ⟨rfl, hdropped⟩ hnot
  rw [hcreated]
  have hstart := Change.startAsync hrecord hstate hactive₀ hstack
    (s₀.finalizerIds_of_some hids) hnew
  refine .ok (hvia.trans (.single hstart rfl)) fun q hq hq' => ?_
  obtain ⟨⟨record', hrecord', hstate'⟩, hactive'⟩ := hkept q hq'
  obtain ⟨created, -, -, hregions⟩ := hnew.region
  refine ⟨⟨record', ?_, hstate'⟩, ?_⟩
  · refine (hregions q).trans ((if_neg hq).trans ?_)
    exact (s₀.region_updateRegion_of_ne hq _).trans hrecord'
  · refine (Function.update_of_ne hq _ _).trans ?_
    rw [hnew.rest]
    exact hactive'

theorem drainLoop_spec (regions : List RegionId) (scheduled : List (TaskId × Nat)) (h : Inv s)
    (hnodup : regions.Nodup) (hidle : ∀ r ∈ regions, s.isIdle r) :
    Spec PlainLabel s (fun _ _ => True) (drainLoop regions scheduled s) := by
  induction regions generalizing s scheduled with
  | nil => exact .ok .refl trivial
  | cons r rest ih =>
    obtain ⟨hfresh, hrest⟩ := nodup_cons.mp hnodup
    refine (drainRegion_spec h (hidle r mem_cons_self)).bind fun _ s' hvia hkept => ?_
    refine ih _ (h.via hvia) hrest fun q hq => ?_
    exact hkept q (fun heq => hfresh (heq ▸ hq)) (hidle q (mem_cons_of_mem _ hq))

theorem drainReadyAsyncFinalizers_spec (h : Inv s) :
    Spec PlainLabel s (fun _ _ => True) s.drainReadyAsyncFinalizers := by
  refine drainLoop_spec _ _ h (h.stack.nodup.filter _) fun r hr => ?_
  obtain ⟨hmem, hready⟩ := mem_filter.mp hr
  refine ⟨h.stack.queued r hmem, ?_⟩
  simpa using (Bool.and_eq_true_iff.mp hready).1

end AsyncFinalizers

/-! ## Cancellation -/

/-- The changes of a cancellation request. -/
def CancelLabel (label : ChangeLabel) : Prop :=
  PlainLabel label ∨ ∃ r reason, label = .cancelRegion r reason

section Cancellation

variable {s : RuntimeState}

theorem cancelRegions_via (target : RegionId) (reason : CancelReason)
    (nodes : List CancelRegionNode) (reasons : RegionId → Option CancelReason) (s : RuntimeState) :
    Via CancelLabel s (cancelRegions target reason nodes reasons s).2 := by
  induction nodes generalizing reasons s with
  | nil => exact .refl
  | cons node rest ih => exact (Via.single .cancelRegion (.inr ⟨_, _, rfl⟩)).trans (ih _ _)

theorem cancelOneTask_via (reason : CancelReason) (t : TaskId) (s : RuntimeState) :
    Via PlainLabel s (cancelOneTask reason t s).2 := by
  unfold cancelOneTask
  cases ht : s.task t with
  | none => exact .refl
  | some record =>
    refine .single (.touchTask fun record' hrecord' => ?_) rfl
    obtain rfl := some.inj (hrecord'.symm.trans ht)
    exact .requestCancel record' reason _

theorem cancelTasks_via (reason : CancelReason) (tasks : List TaskId) (s : RuntimeState) :
    Via PlainLabel s (cancelTasks reason tasks s).2 := by
  induction tasks generalizing s with
  | nil => exact .refl
  | cons t rest ih => exact (cancelOneTask_via reason t s).trans (ih _)

theorem cancelRegionTasks_via (reason : CancelReason) (reasons : RegionId → Option CancelReason)
    (nodes : List CancelRegionNode) (s : RuntimeState) :
    Via PlainLabel s (cancelRegionTasks reason reasons nodes s).2 := by
  induction nodes generalizing s with
  | nil => exact .refl
  | cons node rest ih => exact (cancelTasks_via _ _ s).trans (ih _)

theorem cancelRequest_spec (h : Inv s) (r : RegionId) (reason : CancelReason) :
    Returns CancelLabel s (fun _ _ => True) (s.cancelRequest r reason) := by
  obtain ⟨collected, hcollected, -⟩ := collect_subtree r h.shape.forest
  unfold cancelRequest
  rw [hcollected]
  dsimp only
  generalize (collected.mergeSort fun a b => decide (a.depth ≤ b.depth)) = nodes
  have hmarked := cancelRegions_via r reason nodes (fun _ => none) s
  have hcancelled := hmarked.trans ((cancelRegionTasks_via reason
    (cancelRegions r reason nodes (fun _ => none) s).1 nodes _).mono fun _ hlabel => .inl hlabel)
  refine Returns.after hcancelled ((Returns.forEach (I := Inv) (h.via hcancelled)
    fun node _ u hu => ?_).bind fun _ _ _ _ => .ok .refl trivial)
  unfold advanceIdle
  cases u.region node.id with
  | none => exact .ok .refl hu
  | some record =>
    dsimp only
    split
    · exact (advanceAny_spec hu node.id).mono (fun _ hlabel => .inl hlabel.plain)
        fun _ _ hvia _ => hu.via hvia
    · exact .ok .refl hu

end Cancellation

/-! ## All operations -/

/-- The changes an operation is made of. -/
def OpLabel : RuntimeOp → ChangeLabel → Prop
  | .cancelRequest _ _, label => CancelLabel label
  | .registerFinalizer r finalizer, label => label = .register r finalizer
  | .taskCompleted t, label => CompletionLabel t label
  | .runSyncFinalizers r, label | .popRegionFinalizer r, label =>
    label = .popFinalizer r ∨ label = .touchRegion r ∨ label = .recordRun
  | _, label => PlainLabel label

section Exec

variable {s : RuntimeState}

/-- `run_sync_finalizers` always returns, in any state of the region.  `I` is what a pop and
a run of a finalizer keep. -/
theorem runSyncFinalizers_spec {I : RuntimeState → Prop} {r : RegionId}
    (hpop : ∀ u, Inv u → I u → I (u.dropTop r))
    (hturn : ∀ u id ids panics, Inv u → I u → u.finalizerIds r = id :: ids →
      I (((u.dropTop r).recordSyncOutcome r panics).recordFinalizerRun id)) (h : Inv s)
    (hstart : I s) :
    ∃ found s', s.runSyncFinalizers r = .ok found s' ∧
      Via (OpLabel (.runSyncFinalizers r)) s s' ∧ I s' := by
  have hreturn : ∀ {found s'}, s.runSyncFinalizersTracked r = .ok found s' →
      s.runSyncFinalizers r = .ok (found.map (·.2)) s' := by
    intro found s' hend
    unfold runSyncFinalizers
    rw [hend]
    rfl
  rw [runSyncFinalizersTracked_eq] at hreturn
  have hspec : ∃ s₀, (Via (OpLabel (.runSyncFinalizers r)) s s₀ ∧ I s₀) ∧
      SyncEnd r s₀ (syncFinalizerLoop r ((s.finalizers r).length + 1) s) := by
    refine syncFinalizerLoop_spec (fun _ hu => h.via hu.1) ?_ _ ⟨.refl, hstart⟩ (Nat.lt_succ_self _)
    intro u record closure panics rest id ids ⟨hvia, hI⟩ hrecord hstack hids
    have hids' := u.finalizerIds_of_some hids
    have hdrop : Via (OpLabel (.runSyncFinalizers r)) u (u.dropTop r) :=
      .single (.popFinalizer hrecord hstack hids') (.inl rfl)
    have houtcome : Via (OpLabel (.runSyncFinalizers r)) (u.dropTop r)
        ((u.dropTop r).recordSyncOutcome r panics) := by
      cases panics with
      | none => exact .refl
      | some payload =>
        exact .single (.touchRegion fun record => sameLife_recordCloseOutcome record _) (.inr (.inl rfl))
    exact ⟨hvia.trans (hdrop.trans (houtcome.trans (.single .recordRun (.inr (.inr rfl))))),
      hturn u id ids panics (h.via hvia) hI hids'⟩
  obtain ⟨s₀, ⟨hvia, hI⟩, hend⟩ := hspec
  rcases hend with ⟨hloop, -⟩ | ⟨record, future, rest, id, ids, hrecord, hstack, hids, hloop⟩
  · exact ⟨none, s₀, hreturn hloop, hvia, hI⟩
  · exact ⟨_, _, hreturn hloop, hvia.trans (.single (.popFinalizer hrecord hstack
      (s₀.finalizerIds_of_some hids)) (.inl rfl)), hpop s₀ (h.via hvia) hI⟩

theorem popRegionFinalizer_cases (h : Inv s) (r : RegionId) :
    s.popRegionFinalizer r = .ok none s ∨
      ∃ finalizer, s.popRegionFinalizer r = .ok (some finalizer) (s.dropTop r) ∧
        Change s (.popFinalizer r) (s.dropTop r) := by
  unfold popRegionFinalizer
  rcases popTrackedFinalizer_cases h r with ⟨hend, -⟩ |
    ⟨record, finalizer, rest, id, ids, hrecord, hstack, hids, hend⟩ <;> rw [hend]
  · exact .inl rfl
  · exact .inr ⟨finalizer, rfl, .popFinalizer hrecord hstack (s.finalizerIds_of_some hids)⟩

theorem Returns.replying {α : Type} {Q : α → RuntimeState → Prop} {flow : RuntimeFlow α}
    (reply : α → RuntimeReply) (h : Returns LeakLabel s Q flow) :
    Spec PlainLabel s (fun _ _ => True) (RuntimeState.replying reply flow) :=
  (h.spec.mono (fun _ hlabel => hlabel.plain) fun _ _ _ hQ => hQ).bind
    fun _ _ _ _ => .ok .refl trivial

theorem Spec.replying {α : Type} {K : ChangeLabel → Prop} {Q : α → RuntimeState → Prop}
    {flow : RuntimeFlow α} (reply : α → RuntimeReply) (h : Spec K s Q flow) :
    Spec K s (fun _ _ => True) (replying reply flow) :=
  h.bind fun _ _ _ _ => .ok .refl trivial

/-- Every operation ends, and is made of the changes of its kind. -/
theorem exec_spec (h : Inv s) (op : RuntimeOp) :
    Spec (OpLabel op) s (fun _ _ => True) (s.exec op) := by
  cases op with
  | createRootRegion budget => exact (createRootRegion_spec h budget).replying _
  | createChildRegion parent budget pressure =>
    exact (createChildRegion_spec h parent budget pressure).replying _
  | setRegionLimits r limits => exact .ok (.single (.touchRegion fun _ => rfl) rfl) trivial
  | closeRegion r => exact .ok (.single .beginClose rfl) trivial
  | createTask r budget => exact (createTask_spec h r budget).replying _
  | taskOp t op => exact .ok (.single (.touchTask fun record _ => .exec record op) rfl) trivial
  | addWaiter t waiter =>
    refine .ok (.single (.touchTask fun record _ => ?_) rfl) trivial
    unfold TaskRecord.addWaiter
    split
    · exact .refl record
    · exact .of_same rfl rfl
  | createObligation kind holder r description =>
    exact (createObligation_spec h kind holder r description).replying _
  | commitObligation o =>
    exact (resolveFenced_settle h o .commit .commitAfterFinalize).replying _
  | abortObligation o reason =>
    exact (resolveFenced_settle h o (.abort reason) .abortAfterFinalize).replying _
  | markObligationLeaked o => exact (markObligationLeaked_spec h o).replying _
  | registerFinalizer r finalizer =>
    show Spec _ s _ (replying _ (s.registerFinalizer r finalizer))
    rcases registerFinalizer_cases (s := s) r finalizer with hend | hend | ⟨s', hend, hchange⟩ <;>
      rw [hend]
    · exact .ok .refl trivial
    · exact trivial
    · exact .ok (.single hchange rfl) trivial
  | cancelRequest r reason => exact (cancelRequest_spec h r reason).spec.replying _
  | taskCompleted t => exact (taskCompleted_spec h t).replying _
  | drainReadyAsyncFinalizers => exact (drainReadyAsyncFinalizers_spec h).replying _
  | advanceRegionState r => exact (advanceAny_spec h r).replying _
  | runSyncFinalizers r =>
    obtain ⟨found, s', hend, hvia, -⟩ := runSyncFinalizers_spec (I := fun _ => True)
      (r := r) (fun _ _ _ => trivial) (fun _ _ _ _ _ _ _ => trivial) h trivial
    show Spec _ s _ (replying _ (s.runSyncFinalizers r))
    rw [hend]
    exact .ok hvia trivial
  | popRegionFinalizer r =>
    show Spec _ s _ (replying _ (s.popRegionFinalizer r))
    rcases popRegionFinalizer_cases h r with hend | ⟨finalizer, hend, hchange⟩ <;> rw [hend]
    · exact .ok .refl trivial
    · exact .ok (.single hchange (.inl rfl)) trivial
  | configure setting => cases setting <;> exact .ok (.single (.settings rfl) rfl) trivial

/-- A step of the runtime is a sequence of changes. -/
theorem step_via {event : RuntimeEvent} {s' : RuntimeState} (h : Inv s)
    (hstep : RuntimeStep s event s') :
    Via (OpLabel event.op) s s' := by
  have hspec := exec_spec h event.op
  cases hstep with
  | returned hexec =>
    rw [hexec] at hspec
    exact hspec.1
  | leaked hexec =>
    rw [hexec] at hspec
    exact hspec

/-- The invariant holds in every state of every run. -/
theorem inv_run {history : List RuntimeEvent} (hrun : runtimeSystem.Run .new history s) : Inv s :=
  hrun.invariant .new fun _ _ _ hu hstep => hu.via (step_via hu hstep)

end Exec

end Asupersync
