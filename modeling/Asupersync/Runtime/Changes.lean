import Asupersync.Lib.OwnershipForest
import Asupersync.Runtime.System

/-!
# The changes that operations are made of

Every operation on the runtime state is a sequence of a few kinds of changes.
`Change` lists them with the conditions under which they are made.  Which operation
is made of which changes is the subject of `Asupersync.Runtime.Operations`; what the
changes keep is shown once for each kind of change.

**Views.**  `node` and `owner` are the ownership forest of the state;
`finalizerIds` is the stack of finalizer numbers of a region.
-/

namespace Asupersync

open Lib TaskRecord List Function Arena RuntimeTables

/-- The place of a region in the ownership forest. -/
def RegionRecord.node (record : RegionRecord) : Node RegionId TaskId :=
  { parent := record.parent, children := record.children, items := record.tasks }

namespace RuntimeTables

def node (s : RuntimeTables) (r : RegionId) : Option (Node RegionId TaskId) :=
  (s.region r).map RegionRecord.node

def owner (s : RuntimeTables) (t : TaskId) : Option RegionId := (s.task t).map (·.owner)

def finalizerIds (s : RuntimeTables) (r : RegionId) : List Nat :=
  (s.pendingFinalizerIds r).getD []

/-- The finalizer stack of a region; empty for a region that is not there. -/
def finalizers (s : RuntimeTables) (r : RegionId) : List Finalizer :=
  match s.region r with
  | some record => record.finalizers
  | none => []

variable (s : RuntimeTables)

theorem finalizers_eq (r : RegionId) :
    s.finalizers r = ((s.region r).map (·.finalizers)).getD [] := by
  unfold finalizers
  cases s.region r <;> rfl

variable {r : RegionId}

theorem finalizerIds_of_some {ids : List Nat}
    (h : s.pendingFinalizerIds r = some ids) : s.finalizerIds r = ids := by
  unfold finalizerIds
  rw [h]
  rfl

theorem node_of_region {record : RegionRecord}
    (h : s.region r = some record) : s.node r = some record.node := by
  unfold node
  rw [h]
  rfl

theorem node_of_absent (h : s.region r = none) : s.node r = none := by
  unfold node
  rw [h]
  rfl

theorem owner_of_task {t : TaskId} {record : TaskRecord}
    (h : s.task t = some record) : s.owner t = some record.owner := by
  unfold owner
  rw [h]
  rfl

end RuntimeTables

namespace RuntimeState

variable (s : RuntimeState)

theorem region_updateRegion (r q : RegionId) (f : RegionRecord → RegionRecord) :
    (s.updateRegion r f).region q = if q = r then (s.region r).map f else s.region q := by
  refine (get_modify s.regions r.arenaIndex q.arenaIndex f).trans ?_
  exact if_congr RegionId.arenaIndex_eq_iff rfl rfl

theorem region_updateRegion_self (r : RegionId) (f : RegionRecord → RegionRecord) :
    (s.updateRegion r f).region r = (s.region r).map f := by
  rw [region_updateRegion, if_pos rfl]

variable {r : RegionId}

theorem region_updateRegion_of_ne {q : RegionId} (h : q ≠ r) (f : RegionRecord → RegionRecord) :
    (s.updateRegion r f).region q = s.region q := by
  rw [region_updateRegion, if_neg h]

theorem task_updateTask (t u : TaskId) (f : TaskRecord → TaskRecord) :
    (s.updateTask t f).task u = if u = t then (s.task t).map f else s.task u := by
  refine (get_modify s.tasks t.arenaIndex u.arenaIndex f).trans ?_
  exact if_congr TaskId.arenaIndex_eq_iff rfl rfl

theorem owner_updateTask {t : TaskId} {f : TaskRecord → TaskRecord}
    (h : ∀ record, s.task t = some record → (f record).owner = record.owner) (u : TaskId) :
    (s.updateTask t f).owner u = s.owner u := by
  unfold RuntimeTables.owner
  rw [task_updateTask]
  split_ifs with hu
  · rw [hu]
    cases ht : s.task t with
    | none => rfl
    | some record => exact congrArg some (h record ht)
  · rfl

theorem recycleTask_spec {t : TaskId} {r : RegionId} (hw : s.tasks.WellFormed)
    (howner : s.owner t = some r) :
    ∃ task tasks, s.recycleTask t = { s with tasks := tasks } ∧
      s.tasks.Removed t.arenaIndex task tasks := by
  obtain ⟨task, htask, -⟩ := Option.map_eq_some_iff.mp howner
  obtain ⟨tasks, hremove, hspec⟩ := remove_spec hw htask
  exact ⟨task, tasks, by rw [recycleTask, hremove], hspec⟩

variable {record : RegionRecord}

/-- Only the value at the live record matters for an update. -/
theorem updateRegion_congr {f g : RegionRecord → RegionRecord} (h : s.region r = some record) (hfg : f record = g record) :
    s.updateRegion r f = s.updateRegion r g := by
  unfold updateRegion
  congr 2
  refine modify_congr fun value hvalue => ?_
  cases hvalue.symm.trans h
  exact hfg

/-- The state after both stacks of a region have been popped. -/
def dropTop (r : RegionId) : RuntimeState :=
  { s.updateRegion r fun record => { record with finalizers := record.finalizers.tail } with
    pendingFinalizerIds := Function.update s.pendingFinalizerIds r
      (if (s.finalizerIds r).tail.isEmpty then none else some (s.finalizerIds r).tail) }

@[simp]
theorem finalizerIds_dropTop (r q : RegionId) :
    (s.dropTop r).finalizerIds q = if q = r then (s.finalizerIds r).tail else s.finalizerIds q := by
  unfold dropTop finalizerIds
  by_cases hq : q = r
  · subst hq
    generalize ((s.pendingFinalizerIds q).getD []).tail = ids
    cases ids <;> simp
  · rw [if_neg hq]
    simp [update_of_ne hq]

theorem finalizers_dropTop (r q : RegionId) :
    (s.dropTop r).finalizers q = if q = r then (s.finalizers r).tail else s.finalizers q := by
  simp only [finalizers_eq]
  refine (congrArg (fun o => (Option.map (·.finalizers) o).getD [])
    (s.region_updateRegion r q _)).trans ?_
  split_ifs
  · cases s.region r <;> rfl
  · rfl

theorem finalizers_addFinalizer (finalizer : Finalizer)
    (h : s.region r = some record) (q : RegionId) :
    (s.updateRegion r (·.addFinalizer finalizer)).finalizers q =
      if q = r then finalizer :: s.finalizers r else s.finalizers q := by
  simp only [finalizers_eq]
  rw [region_updateRegion]
  split_ifs
  · rw [h]
    rfl
  · rfl

theorem finalizerIds_pushFinalizerId (r q : RegionId) (id : Nat) :
    (s.pushFinalizerId r id).finalizerIds q =
      if q = r then id :: s.finalizerIds r else s.finalizerIds q := by
  unfold pushFinalizerId finalizerIds
  by_cases hq : q = r
  · subst hq
    simp
  · simp [hq]

/-- Putting back what was just popped restores the state. -/
theorem reinsertFinalizer_dropTop {finalizer : Finalizer}
    {rest : List Finalizer} {id : Nat} {ids : List Nat} (hregion : s.region r = some record)
    (hstack : record.finalizers = finalizer :: rest)
    (hids : s.pendingFinalizerIds r = some (id :: ids)) :
    (s.dropTop r).reinsertFinalizer r id finalizer = s := by
  have hregions : (s.dropTop r).regions.modify r.arenaIndex (·.addFinalizer finalizer) =
      s.regions := by
    refine (modify_modify _).trans (modify_eq_self fun value hvalue => ?_)
    obtain rfl : value = record := Option.some.inj (hvalue.symm.trans hregion)
    simp [RegionRecord.addFinalizer, hstack]
    rw [← hstack]
  have htail : (s.dropTop r).finalizerIds r = ids := by
    rw [finalizerIds_dropTop, if_pos rfl, finalizerIds, hids]
    rfl
  have hpending : update (s.dropTop r).pendingFinalizerIds r
      (some (id :: (s.dropTop r).finalizerIds r)) = s.pendingFinalizerIds := by
    rw [htail, dropTop, update_idem, ← hids, update_eq_self]
  show { s with
    regions := (s.dropTop r).regions.modify r.arenaIndex (·.addFinalizer finalizer)
    pendingFinalizerIds := update (s.dropTop r).pendingFinalizerIds r
      (some (id :: (s.dropTop r).finalizerIds r)) } = s
  rw [hregions, hpending]

section Close

theorem swapRemove_spec {l : List RegionId} (r : RegionId) (h : l.Nodup) :
    (swapRemove l r).Nodup ∧ ∀ q, q ∈ swapRemove l r → q ∈ l ∧ q ≠ r := by
  rcases eq_nil_or_concat' l with rfl | ⟨front, last, rfl⟩
  · simp [swapRemove]
  have hfront : front.Nodup := (nodup_append.mp h).1
  have hlast : last ∉ front := fun hmem =>
    (nodup_append.mp h).2.2 last hmem last mem_cons_self rfl
  unfold swapRemove
  rw [getLast?_concat]
  dsimp only
  split_ifs with hmem
  · by_cases hr : r ∈ front
    · have hlt : front.idxOf r < front.length := idxOf_lt_length_iff.mpr hr
      rw [idxOf_append_of_mem hr, set_append_left _ _ hlt, dropLast_concat]
      refine ⟨hfront.set hlast, fun q hq => ?_⟩
      obtain ⟨i, hi, rfl⟩ := getElem_of_mem hq
      rw [length_set] at hi
      rw [getElem_set]
      split
      · exact ⟨by simp, fun heq => hlast (heq ▸ hr)⟩
      · rename_i hne
        refine ⟨mem_append_left _ (getElem_mem hi), fun heq => hne ?_⟩
        rw [← heq, hfront.idxOf_getElem i hi]
    · obtain rfl : r = last := by simpa [hr] using hmem
      rw [idxOf_append_of_notMem hr, set_append_right _ _ (Nat.le_add_right _ _)]
      simp only [idxOf_cons_self, Nat.add_zero, Nat.sub_self, set_cons_zero, dropLast_concat]
      exact ⟨hfront, fun q hq => ⟨mem_append_left _ hq, fun heq => hr (heq ▸ hq)⟩⟩
  · exact ⟨h, fun q hq => ⟨hq, fun heq => hmem (heq ▸ hq)⟩⟩

/-- What the end of a close leaves; `tables` is the record of it. -/
structure Finished (r : RegionId) (parent : Option RegionId) (tables : RuntimeTables)
    (s' : RuntimeState) : Prop where
  regions : s'.regions = RegionTable.remove (s.unlistChild parent r).regions r
  tasks : s'.tasks = s.tasks
  obligations : s'.obligations = s.obligations.markRegionFinalized r
  finalizingRegions : s'.finalizingRegions = swapRemove s.finalizingRegions r
  pendingFinalizerIds : s'.pendingFinalizerIds = Function.update s.pendingFinalizerIds r none
  activeAsyncFinalizers : s'.activeAsyncFinalizers = s.activeAsyncFinalizers
  asyncFinalizerTasks : s'.asyncFinalizerTasks = s.asyncFinalizerTasks
  nextFinalizerId : s'.nextFinalizerId = s.nextFinalizerId
  finalizerHistory : s'.finalizerHistory = s.finalizerHistory ++ [.regionClosed r s.now]
  closings : s'.closings = s.closings ++ [(r, tables)]
  tables : tables = { s'.toRuntimeTables with regions := (s.unlistChild parent r).regions }

theorem finishClose_spec (r : RegionId) (parent : Option RegionId) (outcome : Option TaskOutcome) :
    ∃ tables, Finished s r parent tables (s.finishClose r parent outcome) := by
  unfold finishClose
  extract_lets dequeued recorded fenced unlisted unrooted remembered
  have hregions : unlisted.regions = (s.unlistChild parent r).regions := by
    cases parent <;> rfl
  obtain ⟨regions, hunlisted⟩ : ∃ regions, unlisted = { fenced with regions := regions } := by
    cases parent with
    | none => exact ⟨fenced.regions, rfl⟩
    | some p => exact ⟨_, rfl⟩
  obtain ⟨order, outcomes, hremembered⟩ : ∃ order outcomes, remembered =
      { unrooted with
        recentlyClosedRegionOrder := order
        recentlyClosedRegionOutcomes := outcomes } := by
    unfold remembered rememberClosedRegion
    split
    · exact ⟨unrooted.recentlyClosedRegionOrder, unrooted.recentlyClosedRegionOutcomes, rfl⟩
    · exact ⟨_, _, rfl⟩
  refine ⟨remembered.toRuntimeTables, ?_⟩
  clear_value remembered
  subst hremembered
  clear_value unlisted
  subst hunlisted
  have htable : regions = (s.unlistChild parent r).regions := hregions
  constructor
  case regions | tables => rw [← htable]
  all_goals rfl

/-- The region arena after the removal of a region. -/
structure RegionRemoved (r : RegionId) (parent : Option RegionId)
    (regions : Arena RegionRecord) : Prop where
  wellFormed : regions.WellFormed
  gone : regions.get r.arenaIndex = none
  retired : regions.Stale r.arenaIndex
  stale : ∀ i, s.regions.Stale i → regions.Stale i
  unlisted : ∀ p, p ≠ r → parent = some p →
    regions.get p.arenaIndex = (s.region p).map (·.removeChild r)
  other : ∀ q, q ≠ r → parent ≠ some q → regions.get q.arenaIndex = s.region q

theorem region_unlistChild (parent : Option RegionId) (r q : RegionId) :
    (s.unlistChild parent r).region q =
      if parent = some q then (s.region q).map (·.removeChild r) else s.region q := by
  cases parent with
  | none => rfl
  | some p =>
    rw [unlistChild, region_updateRegion]
    by_cases hq : q = p
    · simp [hq]
    · simp [hq, Ne.symm hq]

theorem unlistChild_keeps (parent : Option RegionId) (r : RegionId) :
    (s.regions.WellFormed → (s.unlistChild parent r).regions.WellFormed) ∧
      ∀ i, s.regions.Stale i → (s.unlistChild parent r).regions.Stale i := by
  cases parent with
  | none => exact ⟨id, fun _ => id⟩
  | some p => exact ⟨modify_wellFormed, fun _ => modify_stale⟩

/-- The table unlists the region it removes. -/
theorem remove_eq_unlistChild {regions : Arena RegionRecord}
    (h : s.regions.remove r.arenaIndex = some (record, regions)) :
    RegionTable.remove s.regions r =
      ({ s with regions := regions }.unlistChild record.parent record.id).regions := by
  rw [RegionTable.remove, h]
  dsimp only
  cases record.parent <;> rfl

theorem remove_unlistChild (hw : s.regions.WellFormed) (hregion : s.region r = some record)
    (hid : record.id = r) (hparent : record.parent ≠ some r) :
    RegionRemoved s r record.parent
      (RegionTable.remove (s.unlistChild record.parent r).regions r) := by
  have hlive : (s.unlistChild record.parent r).region r = some record := by
    rw [region_unlistChild, if_neg hparent, hregion]
  obtain ⟨hkept, hstale⟩ := s.unlistChild_keeps record.parent r
  obtain ⟨regions, hremove, hspec⟩ := remove_spec (hkept hw) hlive
  have hget : ∀ q : RegionId, regions.get q.arenaIndex =
      if q = r then none else (s.unlistChild record.parent r).region q :=
    fun q => (hspec.get _).trans (if_congr RegionId.arenaIndex_eq_iff rfl rfl)
  rw [remove_eq_unlistChild _ hremove, hid]
  obtain ⟨hkept', hstale'⟩ :=
    { s.unlistChild record.parent r with regions := regions }.unlistChild_keeps record.parent r
  constructor
  case wellFormed => exact hkept' hspec.wellFormed
  case gone =>
    refine (region_unlistChild _ _ _ r).trans ((if_neg hparent).trans ((hget r).trans ?_))
    rw [if_pos rfl]
  case retired => exact hstale' _ hspec.gone
  case stale => exact fun i hi => hstale' i (hspec.stale i (hstale i hi))
  case unlisted =>
    intro p hp hlisted
    refine (region_unlistChild _ _ _ p).trans ((if_pos hlisted).trans ((congrArg _ (hget p)).trans ?_))
    rw [if_neg hp, region_unlistChild, if_pos hlisted, Option.map_map]
    congr 1
    exact funext fun record => by simp [RegionRecord.removeChild]
  case other =>
    intro q hq hother
    refine (region_unlistChild _ _ _ q).trans ((if_neg hother).trans ((hget q).trans ?_))
    rw [if_neg hq, region_unlistChild, if_neg hother]

end Close

end RuntimeState

/-- What a change of a task record keeps: the owner, a terminal state, and the severity of
a cancellation until the task ends. -/
structure TaskProgress (record record' : TaskRecord) : Prop where
  owner : record'.owner = record.owner
  terminal : record.state.isTerminal = true → record'.state.isTerminal = true
  severity : ∀ reason, record.cancelReason = some reason →
    record'.state.isTerminal = true ∨
      ∃ reason', record'.cancelReason = some reason' ∧ reason.severity ≤ reason'.severity

namespace TaskProgress

variable {record record' : TaskRecord}

theorem refl (record : TaskRecord) : TaskProgress record record where
  owner := rfl
  terminal h := h
  severity reason h := .inr ⟨reason, h, Nat.le_refl _⟩

section

variable (howner : record'.owner = record.owner)

include howner

theorem of_terminal (h : record'.state.isTerminal = true) : TaskProgress record record' :=
  ⟨howner, fun _ => h, fun _ _ => .inl h⟩

theorem of_uncancelled
    (hlive : record.state.isTerminal = false) (hnone : record.cancelReason = none) :
    TaskProgress record record' where
  owner := howner
  terminal h := absurd (hlive.symm.trans h) (by decide)
  severity reason h := absurd (hnone.symm.trans h) (Option.some_ne_none reason).symm

theorem of_reason {old new : CancelReason}
    (hlive : record.state.isTerminal = false) (hold : record.cancelReason = some old)
    (hnew : record'.cancelReason = some new) (hle : old.severity ≤ new.severity) :
    TaskProgress record record' where
  owner := howner
  terminal h := absurd (hlive.symm.trans h) (by decide)
  severity reason h := by
    cases hold.symm.trans h
    exact .inr ⟨new, hnew, hle⟩

end

theorem requestCancel (record : TaskRecord) (reason : CancelReason) (budget : Budget) :
    TaskProgress record (record.requestCancelWithBudget reason budget).1 := by
  unfold requestCancelWithBudget
  cases hs : record.state with
  | completed outcome => exact .refl record
  | created | running =>
    exact .of_uncancelled rfl (by rw [hs]; rfl) (by simp [cancelReason, hs])
  | cancelRequested existing b | cancelling existing b | finalizing existing b =>
    exact .of_reason rfl (by rw [hs]; rfl) (by simp [cancelReason, hs]) rfl
      (existing.severity_le_strengthen reason)

/-- Every lifecycle call is progress. -/
theorem exec (record : TaskRecord) (op : TaskOp) : TaskProgress record (record.exec op).1 := by
  cases op with
  | requestCancelWithBudget reason budget => exact .requestCancel record reason budget
  | cancelWitness => exact .refl record
  | startRunning =>
    show TaskProgress record record.startRunning.1
    unfold startRunning
    cases hs : record.state <;> try exact .refl record
    exact .of_uncancelled rfl (by rw [hs]; rfl) (by simp [cancelReason, hs])
  | acknowledgeCancel | cleanupDone =>
    simp only [TaskRecord.exec, acknowledgeCancel, cleanupDone]
    cases hs : record.state <;> try exact .refl record
    exact .of_reason rfl (by rw [hs]; rfl) (by simp [cancelReason, hs]) rfl
      (Nat.le_refl _)
  | finalizeDoneWithWitness =>
    show TaskProgress record record.finalizeDoneWithWitness.1
    unfold finalizeDoneWithWitness
    cases hs : record.state <;> try exact .refl record
    exact .of_terminal rfl rfl
  | complete outcome =>
    show TaskProgress record (record.complete outcome).1
    unfold complete
    split
    · exact .refl record
    · exact .of_terminal rfl rfl

/-- The state and the owner decide. -/
theorem of_same (howner : record'.owner = record.owner) (hstate : record'.state = record.state) :
    TaskProgress record record' where
  owner := howner
  terminal h := hstate ▸ h
  severity reason h := by
    refine .inr ⟨reason, ?_, Nat.le_refl _⟩
    unfold cancelReason at h ⊢
    rwa [hstate]

end TaskProgress

/-- A region record that differs in limits and outcome only. -/
def SameLife (record record' : RegionRecord) : Prop :=
  record' = { record with limits := record'.limits, closeOutcome := record'.closeOutcome }

/-- The same contents in possibly other slots. -/
structure SameContents (s s' : RuntimeState) : Prop where
  region : ∀ r, s'.region r = s.region r
  task : ∀ t, s'.task t = s.task t
  regions : s.regions.WellFormed → s'.regions.WellFormed
  tasks : s.tasks.WellFormed → s'.tasks.WellFormed
  stale : ∀ i, s.regions.Stale i → s'.regions.Stale i
  rest : s' = { s with regions := s'.regions, tasks := s'.tasks }

/-- A new region: open, and listed by its parent. -/
structure RegionCreated (s : RuntimeState) (r : RegionId) (parent : Option RegionId)
    (s' : RuntimeState) : Prop where
  absent : s.region r = none
  fresh : ¬ s.regions.Stale r.arenaIndex
  record : ∃ budget, s'.region r = some (.newWithTime r parent budget s.now)
  listed : ∀ p, parent = some p → ∃ record, s.region p = some record ∧
    record.state = .opened ∧ s'.region p = some { record with children := record.children ++ [r] }
  other : ∀ q, q ≠ r → parent ≠ some q → s'.region q = s.region q
  wellFormed : s'.regions.WellFormed
  stale : ∀ i, s.regions.Stale i → s'.regions.Stale i
  rest : s' = { s with regions := s'.regions, rootRegion := s'.rootRegion }

theorem RegionCreated.eq {s s' : RuntimeState} {r : RegionId} {parent : Option RegionId}
    (h : RegionCreated s r parent s') :
    ∃ regions root, s' = { s with regions := regions, rootRegion := root } :=
  ⟨_, _, h.rest⟩

/-- A new task, listed by the region that admitted it. -/
structure TaskCreated (s : RuntimeState) (r : RegionId) (cleanupTask : Bool) (t : TaskId)
    (s' : RuntimeState) : Prop where
  absent : s.task t = none
  region : ∃ record, s.region r = some record ∧
    RegionRecord.canAdmit cleanupTask record.state = true ∧
    ∀ q, s'.region q =
      if q = r then some { record with tasks := record.tasks ++ [t] } else s.region q
  task : ∃ record, record.owner = r ∧ record.state = .created ∧
    ∀ u, s'.task u = if u = t then some record else s.task u
  regions : s'.regions.WellFormed
  tasks : s'.tasks.WellFormed
  stale : ∀ i, s.regions.Stale i → s'.regions.Stale i
  rest : s' = { s with regions := s'.regions, tasks := s'.tasks }

theorem TaskCreated.eq {s s' : RuntimeState} {r : RegionId} {cleanupTask : Bool} {t : TaskId}
    (h : TaskCreated s r cleanupTask t s') :
    ∃ regions tasks, s' = { s with regions := regions, tasks := tasks } :=
  ⟨_, _, h.rest⟩

inductive ChangeLabel where
  | createRegion (region : RegionId)
  | createTask (task : TaskId) (region : RegionId)
  | createObligation (region : RegionId)
  | resolve (region : RegionId)
  | touchTask (task : TaskId)
  | touchRegion (region : RegionId)
  | beginClose (region : RegionId)
  | cancelRegion (region : RegionId) (reason : CancelReason)
  | drain (region : RegionId)
  | finalize (region : RegionId)
  | runSync (region : RegionId)
  | startAsync (region : RegionId) (task : TaskId)
  | asyncDone (task : TaskId)
  | removeTask (task : TaskId)
  | close (region : RegionId)
  | register (region : RegionId) (finalizer : Finalizer)
  | popFinalizer (region : RegionId)
  | recordRun
  | settings
  | rearrange

inductive Change (s : RuntimeState) : ChangeLabel → RuntimeState → Prop
  | createRegion {r : RegionId} {parent : Option RegionId} {s' : RuntimeState}
      (h : RegionCreated s r parent s') : Change s (.createRegion r) s'
  | createTask {r : RegionId} {t : TaskId} {s' : RuntimeState}
      (h : TaskCreated s r false t s') : Change s (.createTask t r) s'
  | createObligation {holder : TaskId} {r : RegionId} {o : ObligationId}
      {record : RegionRecord} {table : ObligationTable}
      (h : s.region r = some record) (hopen : record.state = .opened)
      (howner : s.owner holder = some r) (hcreate : s.obligations.Created holder r o table) :
      Change s (.createObligation r)
        { s.updateRegion r fun record =>
            { record with pendingObligations := min (record.pendingObligations + 1) usizeMax } with
          obligations := table }
  | resolve {o : ObligationId} {info : ObligationInfo} {table : ObligationTable}
      (h : s.obligations.Resolved o info table) :
      Change s (.resolve info.region)
        { s.updateRegion info.region (·.resolveObligation) with obligations := table }
  | touchTask {t : TaskId} {f : TaskRecord → TaskRecord}
      (h : ∀ record, s.task t = some record → TaskProgress record (f record)) :
      Change s (.touchTask t) (s.updateTask t f)
  | touchRegion {r : RegionId} {f : RegionRecord → RegionRecord}
      (h : ∀ record, SameLife record (f record)) :
      Change s (.touchRegion r) (s.updateRegion r f)
  | beginClose {r : RegionId} :
      Change s (.beginClose r) (s.updateRegion r fun record => (record.beginClose none).1)
  | cancelRegion {r : RegionId} {reason : CancelReason} :
      Change s (.cancelRegion r reason) (s.updateRegion r (RuntimeState.cancelRegion reason))
  | drain {r : RegionId} {record : RegionRecord}
      (h : s.region r = some record) (hstate : record.state = .closing) :
      Change s (.drain r) (s.updateRegion r fun record => { record with state := .draining })
  | finalize {r : RegionId} {record : RegionRecord}
      (h : s.region r = some record)
      (hstate : record.state = .closing ∨ record.state = .draining)
      (hchildren : record.children = []) (htasks : record.tasks = []) :
      Change s (.finalize r)
        { s.updateRegion r fun record => { record with state := .finalizing } with
          finalizingRegions := s.finalizingRegions ++ [r] }
  | runSync {r : RegionId} {record : RegionRecord} {closure id : Nat}
      {panics : Option PanicPayload} {rest : List Finalizer} {ids : List Nat}
      (h : s.region r = some record) (hstate : record.state = .finalizing)
      (hidle : s.activeAsyncFinalizers r = none)
      (hstack : record.finalizers = .sync closure panics :: rest)
      (hids : s.finalizerIds r = id :: ids) :
      Change s (.runSync r) (((s.dropTop r).recordSyncOutcome r panics).recordFinalizerRun id)
  | startAsync {r : RegionId} {record : RegionRecord} {future id : Nat}
      {rest : List Finalizer} {ids : List Nat} {t : TaskId} {s' : RuntimeState}
      (h : s.region r = some record) (hstate : record.state = .finalizing)
      (hidle : s.activeAsyncFinalizers r = none)
      (hstack : record.finalizers = .async future :: rest)
      (hids : s.finalizerIds r = id :: ids)
      (hspawn : TaskCreated (s.dropTop r) r true t s') :
      Change s (.startAsync r t)
        { s' with
          asyncFinalizerTasks := Function.update s'.asyncFinalizerTasks t (some id)
          activeAsyncFinalizers := Function.update s'.activeAsyncFinalizers r (some t) }
  | asyncDone {t : TaskId} {r : RegionId} {id : Nat}
      (h : s.owner t = some r) (hid : s.asyncFinalizerTasks t = some id)
      (hactive : s.activeAsyncFinalizers r = some t) :
      Change s (.asyncDone t)
        (RuntimeState.recordFinalizerRun
          { s with
            asyncFinalizerTasks := Function.update s.asyncFinalizerTasks t none
            activeAsyncFinalizers := Function.update s.activeAsyncFinalizers r none } id)
  | removeTask {t : TaskId} {r : RegionId} {outcome : Option TaskOutcome}
      (h : s.owner t = some r) (hdone : s.asyncFinalizerTasks t = none)
      (hfree : ∀ o ob, s.obligations.get o = some ob → ob.isPending = true → ob.holder ≠ t) :
      Change s (.removeTask t) (s.removeCompletedTask t r outcome)
  | close {r : RegionId} {record : RegionRecord}
      (h : s.region r = some record) (hstate : record.state = .finalizing)
      (hquiet : record.isQuiescent = true) (hidle : s.activeAsyncFinalizers r = none) :
      Change s (.close r)
        ((s.updateRegion r fun record => record.completeClose.1).finishClose r record.parent
          record.completeClose.1.closeOutcome)
  | register {r : RegionId} {record : RegionRecord} {finalizer : Finalizer}
      (h : s.region r = some record) (hopen : record.state = .opened) :
      Change s (.register r finalizer)
        (RuntimeState.recordFinalizerRegistration
          ({ s with nextFinalizerId := s.nextFinalizerId + 1 }.updateRegion r
            (·.addFinalizer finalizer)) s.nextFinalizerId r)
  | popFinalizer {r : RegionId} {record : RegionRecord} {finalizer : Finalizer} {id : Nat}
      {rest : List Finalizer} {ids : List Nat}
      (h : s.region r = some record) (hstack : record.finalizers = finalizer :: rest)
      (hids : s.finalizerIds r = id :: ids) :
      Change s (.popFinalizer r) (s.dropTop r)
  | recordRun {id : Nat} : Change s .recordRun (s.recordFinalizerRun id)
  | settings {s' : RuntimeState}
      (h : s' =
        { s with
          now := s'.now
          cancelAttribution := s'.cancelAttribution
          obligationLeakResponse := s'.obligationLeakResponse
          leakEscalation := s'.leakEscalation
          leakCount := s'.leakCount
          handlingLeaks := s'.handlingLeaks
          inFlightLeakIds := s'.inFlightLeakIds
          threadPanicking := s'.threadPanicking }) :
      Change s .settings s'
  | rearrange {s' : RuntimeState} (h : SameContents s s') : Change s .rearrange s'

def changeSystem : TransitionSystem RuntimeState ChangeLabel where
  init s := s = .new
  step s label s' := Change s label s'

/-- Changes with labels in `K` lead from one state to another. -/
def Via (K : ChangeLabel → Prop) (s s' : RuntimeState) : Prop :=
  ∃ labels, changeSystem.Run s labels s' ∧ ∀ label ∈ labels, K label

namespace Via

variable {K K' : ChangeLabel → Prop} {s s' s'' : RuntimeState}

theorem refl : Via K s s := ⟨[], .nil, nofun⟩

theorem single {label : ChangeLabel} (h : Change s label s') (hK : K label) : Via K s s' :=
  ⟨[label], .single h, fun _ hmem => (mem_singleton.mp hmem) ▸ hK⟩

theorem trans (h : Via K s s') (h' : Via K s' s'') : Via K s s'' := by
  obtain ⟨labels, hrun, hK⟩ := h
  obtain ⟨labels', hrun', hK'⟩ := h'
  refine ⟨labels ++ labels', hrun.append hrun', fun label hmem => ?_⟩
  exact (mem_append.mp hmem).elim (hK label) (hK' label)

theorem mono (h : Via K s s') (hK : ∀ label, K label → K' label) : Via K' s s' := by
  obtain ⟨labels, hrun, hlabels⟩ := h
  exact ⟨labels, hrun, fun label hmem => hK label (hlabels label hmem)⟩

/-- What every change of these kinds keeps is kept along them. -/
theorem invariant {I : RuntimeState → Prop} (h : Via K s s') (hstart : I s)
    (hstep : ∀ u label u', K label → I u → Change u label u' → I u') :
    I s' := by
  obtain ⟨labels, hrun, hlabels⟩ := h
  refine hrun.history_induction (I := fun bs u => (∀ label ∈ bs, K label) → I u)
    (fun _ => hstart) (fun bs u label u' _ ih hchange hbs => ?_) hlabels
  exact hstep u label u' (hbs label (by simp))
    (ih fun label' hmem => hbs label' (mem_append_left _ hmem)) hchange

end Via

end Asupersync
