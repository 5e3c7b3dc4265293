import Asupersync.Runtime.Invariant

/-!
# Every change keeps the invariant

One lemma for each kind of change, assembled in `Inv.change`.  The changes that only
move a region through its lifecycle or update a task go through `Inv.frame`.
-/

namespace Asupersync

open Lib RuntimeTables RuntimeState Function List Option Arena

/-! ## Changes of one record -/

section Records

theorem SameLife.kept {record record' : RegionRecord} (h : SameLife record record') :
    Kept record record' := by
  rw [h]
  exact ⟨⟨rfl, rfl, id⟩, ⟨rfl, rfl⟩, ⟨rfl, id⟩⟩

section

variable (record : RegionRecord) (reason : Option CancelReason)

/-- A step of the lifecycle keeps everything if it neither closes the region nor takes it
out of `Finalizing`. -/
theorem kept_state {state : RegionState} (hclosed : state ≠ .closed) (hfinalizing : record.state = .finalizing → state = .finalizing) :
    Kept record { record with state := state, cancelReason := reason } :=
  ⟨⟨rfl, rfl, fun _ => hclosed⟩, ⟨rfl, rfl⟩, ⟨rfl, hfinalizing⟩⟩

theorem kept_reason : Kept record { record with cancelReason := reason } :=
  ⟨⟨rfl, rfl, id⟩, ⟨rfl, rfl⟩, ⟨rfl, id⟩⟩

theorem kept_beginClose : Kept record (record.beginClose reason).1 := by
  unfold RegionRecord.beginClose RegionRecord.transition
  split
  · exact Kept.refl record
  split
  · rename_i hopen
    have hstate : record.state = .opened := by cases reason <;> exact hopen
    cases reason with
    | none => exact kept_state record record.cancelReason (by decide) (by simp [hstate])
    | some reason => exact kept_state record _ (by decide) (by simp [hstate])
  · cases reason with
    | none => exact Kept.refl record
    | some reason => exact kept_reason record _

end

theorem Kept.trans {a b c : RegionRecord} (h : Kept a b) (h' : Kept b c) : Kept a c where
  node := ⟨h'.node.id.trans h.node.id, h'.node.node.trans h.node.node,
    fun hs => h'.node.notClosed (h.node.notClosed hs)⟩
  ledger := ⟨h'.ledger.pending.trans h.ledger.pending,
    h'.ledger.doubleResolve.trans h.ledger.doubleResolve⟩
  stack := ⟨h'.stack.finalizers.trans h.stack.finalizers,
    fun hs => h'.stack.finalizing (h.stack.finalizing hs)⟩

theorem kept_cancelRegion (reason : CancelReason) (record : RegionRecord) :
    Kept record (cancelRegion reason record) := by
  have hbegin := kept_beginClose record (some reason)
  unfold cancelRegion
  split
  · rename_i record' heq
    rwa [heq] at hbegin
  · rename_i record' heq
    rw [heq] at hbegin
    split
    · exact hbegin.trans (kept_reason record' _)
    · exact hbegin

theorem sameLife_recordCloseOutcome (record : RegionRecord) (outcome : TaskOutcome) :
    SameLife record (record.recordCloseOutcome outcome) := rfl

/-- Obligations that are still pending after a resolution were pending before. -/
theorem pending_of_resolved {t t' : ObligationTable} {o : ObligationId} {info : ObligationInfo}
    (h : t.Resolved o info t') (j : ObligationId) (ob : ObligationRecord)
    (hget : t'.get j = some ob) (hpending : ob.isPending = true) :
    j ≠ o ∧ t.get j = some ob := by
  obtain ⟨now, resolution, hresolved⟩ := h.get
  rw [hresolved j] at hget
  split_ifs at hget with hj
  · obtain ⟨old, -, rfl⟩ := map_eq_some_iff.mp hget
    simp at hpending
  · exact ⟨hj, hget⟩

end Records

namespace Inv

variable {s s' : RuntimeState}

variable {r : RegionId} {f : RegionRecord → RegionRecord}

section

variable (h : Inv s)

include h

/-- An update of one region record that keeps everything the invariant reads. -/
theorem updateRegion (hf : ∀ record, s.region r = some record → Kept record (f record)) :
    Inv (s.updateRegion r f) :=
  h.frame (modify_wellFormed h.shape.regions) h.shape.tasks
    (RegionsRel.updateRegion Kept.refl hf) (fun _ => rfl) (fun _ hi => modify_stale hi)
    ⟨rfl, rfl, rfl, rfl, rfl, rfl⟩

/-- Fields the invariant does not read. -/
theorem sameTables (hregions : s'.regions = s.regions) (htasks : s'.tasks = s.tasks)
    (hbooks : SameBooks s s') : Inv s' := by
  have hregion : ∀ r, s'.region r = s.region r := by
    intro r
    unfold region
    rw [hregions]
  have howner : ∀ t, s'.owner t = s.owner t := by
    intro t
    unfold owner task
    rw [htasks]
  exact h.frame (hregions ▸ h.shape.regions) (htasks ▸ h.shape.tasks)
    (.of_eq Kept.refl hregion) howner (fun i hi => hregions ▸ hi) hbooks

theorem recordFinalizerRun (id : Nat) : Inv (s.recordFinalizerRun id) :=
  h.sameTables rfl rfl ⟨rfl, rfl, rfl, rfl, rfl, rfl⟩

variable {t : TaskId}

theorem touchTask {f : TaskRecord → TaskRecord}
    (hf : ∀ record, s.task t = some record → TaskProgress record (f record)) :
    Inv (s.updateTask t f) :=
  h.frame h.shape.regions (modify_wellFormed h.shape.tasks)
    (.of_eq Kept.refl fun _ => rfl)
    (fun u => s.owner_updateTask (fun record ht => (hf record ht).owner) u) (fun _ hi => hi)
    ⟨rfl, rfl, rfl, rfl, rfl, rfl⟩

theorem rearrange (hsame : SameContents s s') : Inv s' := by
  refine h.frame (hsame.regions h.shape.regions) (hsame.tasks h.shape.tasks)
    (.of_eq Kept.refl hsame.region) (fun t => ?_) hsame.stale ?_
  · unfold owner
    rw [hsame.task]
  · rw [hsame.rest]
    exact ⟨rfl, rfl, rfl, rfl, rfl, rfl⟩

/-! ## Regions and tasks that come and go -/

theorem exists_owner_of_reserved (hne : s.obligations.reserved r ≠ 0) :
    ∃ t, s.owner t = some r := by
  obtain ⟨i, ob, hget, hp⟩ :=
    exists_get_of_count_pos _ h.accounting.table (Nat.pos_of_ne_zero hne)
  obtain ⟨hpending, hregion⟩ := Bool.and_eq_true_iff.mp hp
  rw [← of_decide_eq_true hregion]
  exact ⟨ob.holder, h.accounting.holder ⟨i⟩ ob hget hpending⟩

/-- An obligation is reserved only in a region that is there. -/
theorem reserved_of_absent (habsent : s.region r = none) : s.obligations.reserved r = 0 := by
  by_contra hne
  obtain ⟨t, howner⟩ := h.exists_owner_of_reserved hne
  obtain ⟨n, hn, -⟩ := (h.shape.forest.owns r t).mpr howner
  simp [node, habsent] at hn

end

variable {o : ObligationId}

theorem finalizers_of_absent (habsent : s.region r = none) : s.finalizers r = [] := by
  rw [finalizers_eq, habsent]
  rfl

variable {parent : Option RegionId} {q : RegionId} {record' : RegionRecord}

/-- The region keeps its record, up to the list of its children. -/
def Relisted (s s' : RuntimeState) (q : RegionId) : Prop :=
  ∃ children : RegionRecord → List RegionId,
    s'.region q = (s.region q).map fun record => { record with children := children record }

theorem Relisted.back (h : Relisted s s' q) (hq : s'.region q = some record') :
    ∃ record children, s.region q = some record ∧
      record' = { record with children := children } := by
  obtain ⟨children, heq⟩ := h
  obtain ⟨record, hrecord, rfl⟩ := map_eq_some_iff.mp (heq.symm.trans hq)
  exact ⟨record, children record, hrecord, rfl⟩

theorem Relisted.forth {record : RegionRecord} (h : Relisted s s' q)
    (hq : s.region q = some record) :
    ∃ children, s'.region q = some { record with children := children } := by
  obtain ⟨children, heq⟩ := h
  exact ⟨children record, heq.trans (congrArg _ hq)⟩

theorem Relisted.present (h : Relisted s s' q) (hq : s.region q ≠ none) : s'.region q ≠ none := by
  obtain ⟨record, hrecord⟩ := ne_none_iff_exists'.mp hq
  obtain ⟨children, hnew⟩ := h.forth hrecord
  exact hnew ▸ some_ne_none _

/-- One region comes or goes, without finalizers. -/
theorem finalizers_relisted (hother : ∀ q, q ≠ r → Relisted s s' q)
    (hempty : s.finalizers r = []) (hempty' : s'.finalizers r = []) :
    s'.finalizers q = s.finalizers q := by
  by_cases hq : q = r
  · rw [hq, hempty, hempty']
  · obtain ⟨children, heq⟩ := hother q hq
    rw [finalizers_eq, finalizers_eq, heq, Option.map_map]
    rfl

/-- Regions that were there before, with a child added to the parent of the new one. -/
theorem regionCreated_other (hnew : RegionCreated s r parent s') (hq : q ≠ r) :
    Relisted s s' q := by
  by_cases hp : parent = some q
  · obtain ⟨record, hrecord, -, hrecord'⟩ := hnew.listed q hp
    exact ⟨fun record => record.children ++ [r], by rw [hrecord, hrecord', map_some]⟩
  · exact ⟨RegionRecord.children, (hnew.other q hq hp).trans map_id_apply.symm⟩

theorem finalizers_regionCreated (hnew : RegionCreated s r parent s') :
    s'.finalizers q = s.finalizers q := by
  obtain ⟨budget, hr⟩ := hnew.record
  refine finalizers_relisted (fun _ => regionCreated_other hnew) (finalizers_of_absent hnew.absent) ?_
  rw [finalizers_eq, hr]
  rfl

theorem createRegion (h : Inv s) (hnew : RegionCreated s r parent s') : Inv s' := by
  obtain ⟨budget, hr⟩ := hnew.record
  obtain ⟨regions, root, rfl⟩ := hnew.eq
  have habsent : s.node r = none := s.node_of_absent hnew.absent
  constructor
  case shape =>
    constructor
    case regions => exact hnew.wellFormed
    case tasks => exact h.shape.tasks
    case forest =>
      cases parent with
      | none =>
        refine (h.shape.forest.addRoot habsent).congr (fun q => ?_) fun _ => rfl
        by_cases hq : q = r
        · rw [hq, update_self, node, hr]
          rfl
        · rw [update_of_ne hq, node, hnew.other q hq (by simp)]
          rfl
      | some p =>
        obtain ⟨record, hp, -, hp'⟩ := hnew.listed p rfl
        refine (h.shape.forest.addChild (s.node_of_region hp) habsent).congr (fun q => ?_)
          fun _ => rfl
        by_cases hq : q = r
        · rw [hq, update_self, node, hr]
          rfl
        · rw [update_of_ne hq]
          by_cases hqp : q = p
          · rw [hqp, update_self, node, hp']
            rfl
          · rw [update_of_ne hqp, node, hnew.other q hq fun heq => hqp (some.inj heq).symm]
            rfl
    case named =>
      intro q record' hrecord'
      by_cases hq : q = r
      · rw [hq, hr] at hrecord'
        cases hrecord'
        exact ⟨hq.symm, by simp [RegionRecord.newWithTime]⟩
      · obtain ⟨record, children, hold, rfl⟩ := (regionCreated_other hnew hq).back hrecord'
        exact h.shape.named q record hold
  case accounting =>
    refine h.accounting.frame rfl (fun q record' hrecord' => ?_) (fun _ _ _ _ => rfl) hnew.stale
    by_cases hq : q = r
    · rw [hq, hr] at hrecord'
      cases hrecord'
      rw [hq, h.reserved_of_absent hnew.absent]
      exact ⟨rfl, rfl⟩
    · obtain ⟨record, children, hold, rfl⟩ := (regionCreated_other hnew hq).back hrecord'
      exact h.accounting.counter q record hold
  case stack =>
    refine h.stack.frame (fun q => finalizers_regionCreated hnew) (fun _ => rfl) (fun q hq => ?_)
      rfl rfl rfl fun _ _ ht _ => ht
    obtain ⟨record, hrecord, hstate⟩ := hq
    have hqr : q ≠ r := by
      rintro rfl
      cases hnew.absent.symm.trans hrecord
    obtain ⟨children, hnew⟩ := (regionCreated_other hnew hqr).forth hrecord
    exact ⟨_, hnew, hstate⟩
  case closings => exact h.closings

variable {cleanupTask : Bool} {table : ObligationTable}

theorem regionsRel_taskCreated (hnew : TaskCreated s r cleanupTask t s') :
    RegionsRel (fun record record' => ∃ tasks, record' = { record with tasks := tasks }) s s' := by
  obtain ⟨record, hrecord, -, hregion⟩ := hnew.region
  intro q
  rw [hregion q]
  split_ifs with hq
  · rw [hq, hrecord]
    exact .some ⟨_, rfl⟩
  · cases s.region q with
    | none => exact .none
    | some record => exact .some ⟨record.tasks, rfl⟩

theorem owner_taskCreated (hnew : TaskCreated s r cleanupTask t s') :
    s'.owner = update s.owner t (some r) := by
  obtain ⟨task, howner, -, htask⟩ := hnew.task
  funext u
  unfold owner
  rw [htask u]
  split_ifs with hu
  · rw [hu, update_self, ← howner]
    rfl
  · rw [update_of_ne hu]

theorem taskCreated (h : Inv s) (hnew : TaskCreated s r cleanupTask t s') : Inv s' := by
  have howner := owner_taskCreated hnew
  obtain ⟨record, hrecord, -, hregion⟩ := hnew.region
  have habsent : s.owner t = none := by
    unfold owner
    rw [hnew.absent]
    rfl
  refine h.regroup hnew.regions hnew.tasks ?_ ?_ (fun u q hu _ => ?_) hnew.stale ?_
  · refine (h.shape.forest.addItem (s.node_of_region hrecord) habsent).congr (fun q => ?_)
      (fun u => by rw [howner])
    unfold node
    rw [hregion q]
    split_ifs with hq
    · rw [hq, update_self]
      rfl
    · rw [update_of_ne hq]
  · exact (regionsRel_taskCreated hnew).mono fun _ _ ⟨_, heq⟩ =>
      heq ▸ ⟨⟨rfl, id⟩, ⟨rfl, rfl⟩, ⟨rfl, id⟩⟩
  · have hne : u ≠ t := by
      rintro rfl
      cases habsent.symm.trans hu
    rw [howner, update_of_ne hne, hu]
  · rw [hnew.rest]
    exact ⟨rfl, rfl, rfl, rfl, rfl, rfl⟩

theorem region_owner (h : Inv s) (howner : s.owner t = some r) :
    ∃ record, s.region r = some record ∧ t ∈ record.tasks := by
  obtain ⟨n, hn, hmem⟩ := (h.shape.forest.owns r t).mpr howner
  obtain ⟨record, hrecord, rfl⟩ := map_eq_some_iff.mp hn
  exact ⟨record, hrecord, hmem⟩

/-- A task leaves its region, once it holds no obligation and no finalizer number. -/
theorem removeTask {outcome : Option TaskOutcome} (h : Inv s) (howner : s.owner t = some r)
    (hdone : s.asyncFinalizerTasks t = none)
    (hfree : ∀ o ob, s.obligations.get o = some ob → ob.isPending = true → ob.holder ≠ t) :
    Inv (s.removeCompletedTask t r outcome) := by
  obtain ⟨record, hrecord, -⟩ := h.region_owner howner
  obtain ⟨_, tasks, hrecycle, hspec⟩ := s.recycleTask_spec h.shape.tasks howner
  have howner' : ({ s with tasks := tasks } : RuntimeState).owner = update s.owner t none := by
    funext u
    by_cases hu : u = t
    · rw [hu, update_self]
      exact congrArg _ ((hspec.get _).trans (if_pos rfl))
    · rw [update_of_ne hu]
      exact congrArg _ ((hspec.get _).trans (if_neg fun heq => hu (TaskId.arenaIndex_eq_iff.mp heq)))
  -- the outcome is recorded and the task is unlisted
  unfold removeCompletedTask
  rw [hrecycle]
  refine h.regroup (modify_wellFormed h.shape.regions) hspec.wellFormed ?_ ?_
    (fun u q hu hbusy => ?_) (fun _ hi => modify_stale hi) ⟨rfl, rfl, rfl, rfl, rfl, rfl⟩
  · refine (h.shape.forest.removeItem (s.node_of_region hrecord) howner).congr (fun q => ?_)
      (congrFun howner')
    unfold RuntimeTables.node
    rw [region_updateRegion]
    split_ifs with hq
    · rw [hq, update_self]
      refine (congrArg _ (congrArg _ hrecord)).trans ?_
      cases outcome <;> rfl
    · rw [update_of_ne hq]
      rfl
  · refine RegionsRel.updateRegion (fun _ => ⟨⟨rfl, id⟩, ⟨rfl, rfl⟩, ⟨rfl, id⟩⟩) fun record _ => ?_
    cases outcome <;> exact ⟨⟨rfl, id⟩, ⟨rfl, rfl⟩, ⟨rfl, id⟩⟩
  · have hne : u ≠ t := by
      rintro rfl
      rcases hbusy with hasync | ⟨o, ob, ho, hob, hholder⟩
      · exact hasync hdone
      · exact hfree o ob ho hob hholder
    exact (congrFun howner' u).trans ((update_of_ne hne _ _).trans hu)

/-! ## Obligations -/

theorem reserved_lt (h : Inv s) (r : RegionId) : s.obligations.reserved r < usizeMax :=
  Nat.lt_of_le_of_lt (Nat.le_trans (count_le _ _) h.accounting.table.size) (by decide)

/-- The ledger of one region changes with the obligation table. -/
theorem ledger (h : Inv s) (hf : ∀ record, ∃ pending count,
      f record = { record with pendingObligations := pending, doubleResolveCount := count })
    (htable : table.obligations.WellFormed)
    (hcounter : ∀ record, s.region r = some record →
      (f record).pendingObligations = table.reserved r ∧ (f record).doubleResolveCount = 0)
    (hother : ∀ q, q ≠ r → table.reserved q = s.obligations.reserved q)
    (hpending : ∀ o ob, table.get o = some ob → ob.isPending = true →
      s.owner ob.holder = some ob.region ∧ o ∈ table.idsForHolder ob.holder)
    (hfinalized : table.finalizedRegions = s.obligations.finalizedRegions) :
    Inv { s.updateRegion r f with obligations := table } := by
  have hrel : RegionsRel (fun record record' => ∃ pending count, record' =
      { record with pendingObligations := pending, doubleResolveCount := count }) s
      (s.updateRegion r f) :=
    RegionsRel.updateRegion (fun _ => ⟨_, _, rfl⟩) fun record _ => hf record
  have hstack : RegionsRel SameStack s (s.updateRegion r f) :=
    hrel.mono fun _ _ ⟨_, _, heq⟩ => heq ▸ ⟨rfl, id⟩
  constructor
  case shape =>
    refine h.shape.frame (modify_wellFormed h.shape.regions) h.shape.tasks ?_ fun _ => rfl
    exact hrel.mono fun _ _ ⟨_, _, heq⟩ => heq ▸ ⟨rfl, rfl, id⟩
  case accounting =>
    refine ⟨htable, fun q record' hrecord' => ?_, fun o ob ho hob => (hpending o ob ho hob).1,
      fun o ob ho hob => (hpending o ob ho hob).2,
      fun q hq => modify_stale (h.accounting.fenced q (hfinalized ▸ hq))⟩
    replace hrecord' := (s.region_updateRegion r q _).symm.trans hrecord'
    split_ifs at hrecord' with hq
    · obtain ⟨record, hrecord, rfl⟩ := map_eq_some_iff.mp hrecord'
      rw [hq]
      exact hcounter record hrecord
    · rw [hother q hq]
      exact h.accounting.counter q record' hrecord'
  case stack =>
    exact h.stack.frame hstack.finalizers (fun _ => rfl) (fun _ => hstack.isFinalizing) rfl rfl
      rfl fun _ _ ht _ => ht
  case closings => exact h.closings

theorem createObligation {holder : TaskId} (h : Inv s)
    (howner : s.owner holder = some r) (hcreate : s.obligations.Created holder r o table) :
    Inv
      { s.updateRegion r fun record =>
          { record with pendingObligations := min (record.pendingObligations + 1) usizeMax } with
        obligations := table } := by
  obtain ⟨new, hholder, hregion, -, hget⟩ := hcreate.get
  refine h.ledger (fun _ => ⟨_, _, rfl⟩) hcreate.wellFormed (fun record hrecord => ?_)
    (fun q hq => ?_) (fun o' ob ho' hob => ?_) hcreate.finalized
  · obtain ⟨hcount, hdouble⟩ := h.accounting.counter r record hrecord
    have hbound := h.reserved_lt r
    rw [hcreate.reserved r, if_pos rfl]
    refine ⟨?_, hdouble⟩
    show min (record.pendingObligations + 1) usizeMax = _
    omega
  · rw [hcreate.reserved q, if_neg (Ne.symm hq), Nat.add_zero]
  · rw [hget o'] at ho'
    rw [hcreate.index ob.holder o']
    split_ifs at ho' with heq
    · cases ho'
      rw [hholder, hregion]
      exact ⟨howner, .inr ⟨rfl, heq⟩⟩
    · exact ⟨h.accounting.holder o' ob ho' hob, .inl (h.accounting.indexed o' ob ho' hob)⟩

theorem resolve {info : ObligationInfo} (h : Inv s)
    (hresolved : s.obligations.Resolved o info table) :
    Inv { s.updateRegion info.region (·.resolveObligation) with obligations := table } := by
  refine h.ledger (fun record => ?_) (hresolved.wellFormed h.accounting.table)
    (fun record hrecord => ?_) (fun q hq => ?_) (fun o' ob ho' hob => ?_) hresolved.finalized
  · unfold RegionRecord.resolveObligation
    split
    · exact ⟨record.pendingObligations, _, rfl⟩
    · exact ⟨_, record.doubleResolveCount, rfl⟩
  · obtain ⟨hcount, hdouble⟩ := h.accounting.counter info.region record hrecord
    have hreserved := hresolved.reserved info.region
    rw [if_pos rfl, ← hcount] at hreserved
    -- the counter was positive, so this is not a double resolution
    unfold RegionRecord.resolveObligation
    rw [← hreserved]
    exact ⟨rfl, hdouble⟩
  · have hreserved := hresolved.reserved q
    rwa [if_neg (Ne.symm hq)] at hreserved
  · obtain ⟨-, hold⟩ := pending_of_resolved hresolved o' ob ho' hob
    have hmem := h.accounting.indexed o' ob hold hob
    unfold ObligationTable.idsForHolder at hmem ⊢
    rw [hresolved.index]
    exact ⟨h.accounting.holder o' ob hold hob, hmem⟩

/-! ## Finalizers -/

variable {record : RegionRecord}

/-- Only the queue, the barriers and the tasks they wait for change. -/
theorem moveBarrier {queue : List RegionId} {tasks : TaskId → Option Nat}
    {active : RegionId → Option TaskId} (h : Inv s) (hnodup : queue.Nodup)
    (hqueued : ∀ q ∈ queue, s.isFinalizing q)
    (hbarrier : ∀ q u, active q = some u → s.owner u = some q ∧ s.isFinalizing q ∧ tasks u ≠ none)
    (hasync : ∀ u, tasks u ≠ none → ∃ q, s.owner u = some q ∧ active q = some u) :
    Inv { s with
      finalizingRegions := queue, asyncFinalizerTasks := tasks, activeAsyncFinalizers := active } := by
  obtain ⟨htable, hcounter, hholder, hindexed, hfenced⟩ := h.accounting
  exact ⟨⟨h.shape.1, h.shape.2, h.shape.3, h.shape.4⟩, ⟨htable, hcounter, hholder, hindexed, hfenced⟩,
    ⟨h.stack.aligned, hnodup, hqueued, hbarrier, hasync⟩, h.closings⟩

theorem finalize (h : Inv s) (hregion : s.region r = some record)
    (hstate : record.state = .closing ∨ record.state = .draining) :
    Inv
      { s.updateRegion r fun record => { record with state := .finalizing } with
        finalizingRegions := s.finalizingRegions ++ [r] } := by
  have hkept : Inv (s.updateRegion r fun record => { record with state := .finalizing }) :=
    h.updateRegion fun record _ =>
      kept_state record record.cancelReason (by decide) fun _ => rfl
  have hfresh : r ∉ s.finalizingRegions := by
    intro hmem
    obtain ⟨record', hrecord', hfinalizing⟩ := h.stack.queued r hmem
    cases hrecord'.symm.trans hregion
    rw [hfinalizing] at hstate
    simp at hstate
  refine hkept.moveBarrier ?_ (fun q hq => ?_) hkept.stack.barrier hkept.stack.async
  · exact h.stack.nodup.append (nodup_singleton r) (by simpa using hfresh)
  · rcases mem_append.mp hq with hq | hq
    · exact hkept.stack.queued q hq
    · rw [mem_singleton.mp hq]
      exact ⟨_, (s.region_updateRegion_self r _).trans (congrArg _ hregion), rfl⟩

/-- The finalizer stacks of the records and the stacks of numbers change together. -/
theorem restack {ids : RegionId → Option (List Nat)} {next : Nat}
    {history : List FinalizerHistoryEvent} (h : Inv s)
    (hf : ∀ record, ∃ finalizers, f record = { record with finalizers := finalizers })
    (haligned : ∀ q, ((ids q).getD []).length = ((s.updateRegion r f).finalizers q).length) :
    Inv
      { s.updateRegion r f with
        pendingFinalizerIds := ids
        nextFinalizerId := next
        finalizerHistory := history } := by
  have hrel : RegionsRel (fun record record' => ∃ finalizers,
      record' = { record with finalizers := finalizers }) s (s.updateRegion r f) :=
    RegionsRel.updateRegion (fun record => ⟨record.finalizers, rfl⟩) fun record _ => hf record
  constructor
  case shape =>
    refine h.shape.frame (modify_wellFormed h.shape.regions) h.shape.tasks ?_ fun _ => rfl
    exact hrel.mono fun _ _ ⟨_, heq⟩ => heq ▸ ⟨rfl, rfl, id⟩
  case accounting =>
    refine h.accounting.frame rfl (fun q record' hrecord' => ?_) (fun _ _ _ _ => rfl)
      fun _ hi => modify_stale hi
    obtain ⟨record, hrecord, _, rfl⟩ := hrel.back hrecord'
    exact h.accounting.counter q record hrecord
  case stack =>
    refine h.stack.frameOn haligned h.stack.nodup (fun q hq => ⟨trivial, hq⟩)
      (fun _ _ _ => trivial) (fun q _ hq => ?_) rfl rfl fun _ _ ht _ => ht
    obtain ⟨record, hrecord, hstate⟩ := hq
    obtain ⟨record', hrecord', _, rfl⟩ := hrel.forth hrecord
    exact ⟨_, hrecord', hstate⟩
  case closings => exact h.closings

theorem dropTop (h : Inv s) (r : RegionId) : Inv (s.dropTop r) := by
  refine h.restack (fun _ => ⟨_, rfl⟩) fun q => ?_
  have hold := h.stack.aligned q
  show ((s.dropTop r).finalizerIds q).length = ((s.dropTop r).finalizers q).length
  rw [finalizers_dropTop, finalizerIds_dropTop]
  split_ifs with hq
  · rw [length_tail, length_tail, ← hq, hold]
  · rw [hold]

theorem recordSyncOutcome (h : Inv s) (r : RegionId) (panics : Option PanicPayload) :
    Inv (s.recordSyncOutcome r panics) := by
  cases panics with
  | none => exact h
  | some payload =>
    exact h.updateRegion fun record _ => (sameLife_recordCloseOutcome record _).kept

/-- The barrier is raised for a task of a finalizing region without one. -/
theorem raiseBarrier (id : Nat) (h : Inv s) (howner : s.owner t = some r)
    (hfinalizing : s.isFinalizing r) (hidle : s.activeAsyncFinalizers r = none) :
    Inv
      { s with
        asyncFinalizerTasks := update s.asyncFinalizerTasks t (some id)
        activeAsyncFinalizers := update s.activeAsyncFinalizers r (some t) } := by
  refine h.moveBarrier h.stack.nodup h.stack.queued (fun q u hq => ?_) fun u hu => ?_
  · by_cases hqr : q = r
    · rw [hqr, update_self] at hq
      cases hq
      rw [update_self, hqr]
      exact ⟨howner, hfinalizing, some_ne_none id⟩
    · rw [update_of_ne hqr] at hq
      obtain ⟨hown, hstate, htask⟩ := h.stack.barrier q u hq
      refine ⟨hown, hstate, ?_⟩
      by_cases hut : u = t
      · rw [hut, update_self]
        exact some_ne_none id
      · rwa [update_of_ne hut]
  · by_cases hut : u = t
    · exact ⟨r, hut ▸ howner, by rw [update_self, hut]⟩
    · rw [update_of_ne hut] at hu
      obtain ⟨q, hown, hq⟩ := h.stack.async u hu
      have hqr : q ≠ r := by
        rintro rfl
        cases hidle.symm.trans hq
      exact ⟨q, hown, by rw [update_of_ne hqr, hq]⟩

/-- The barrier comes down with the task it was raised for. -/
theorem asyncDone (id : Nat) (h : Inv s) (howner : s.owner t = some r)
    (hactive : s.activeAsyncFinalizers r = some t) :
    Inv
      (RuntimeState.recordFinalizerRun
        { s with
          asyncFinalizerTasks := update s.asyncFinalizerTasks t none
          activeAsyncFinalizers := update s.activeAsyncFinalizers r none } id) := by
  apply Inv.recordFinalizerRun
  refine h.moveBarrier h.stack.nodup h.stack.queued (fun q u hq => ?_) fun u hu => ?_
  · have hqr : q ≠ r := by
      rintro rfl
      rw [update_self] at hq
      cases hq
    rw [update_of_ne hqr] at hq
    obtain ⟨hown, hstate, htask⟩ := h.stack.barrier q u hq
    have hut : u ≠ t := by
      rintro rfl
      exact hqr (some.inj (hown.symm.trans howner))
    refine ⟨hown, hstate, ?_⟩
    rwa [update_of_ne hut]
  · have hut : u ≠ t := by
      rintro rfl
      exact hu (update_self _ _ _)
    rw [update_of_ne hut] at hu
    obtain ⟨q, hown, hq⟩ := h.stack.async u hu
    have hqr : q ≠ r := by
      rintro rfl
      exact hut (some.inj (hq.symm.trans hactive))
    exact ⟨q, hown, by rw [update_of_ne hqr, hq]⟩

theorem register (finalizer : Finalizer) (h : Inv s) (hregion : s.region r = some record) :
    Inv
      (recordFinalizerRegistration
        ({ s with nextFinalizerId := s.nextFinalizerId + 1 }.updateRegion r
          (·.addFinalizer finalizer)) s.nextFinalizerId r) := by
  refine h.restack (fun _ => ⟨_, rfl⟩) fun q => ?_
  have hold := h.stack.aligned q
  have hids := finalizerIds_pushFinalizerId s r q s.nextFinalizerId
  have hstack := finalizers_addFinalizer s finalizer hregion q
  refine (congrArg length hids).trans (Eq.trans ?_ (congrArg length hstack).symm)
  split_ifs with hq
  · rw [length_cons, length_cons, ← hq, hold]
  · rw [hold]

/-! ## The close of a region -/

theorem completeClose_quiescent (hquiet : record.isQuiescent = true)
    (hstate : record.state = .finalizing) :
    record.completeClose = ({ record.defaultCloseOutcome with state := .closed }, true) := by
  unfold RegionRecord.completeClose RegionRecord.transition
  rw [if_pos hquiet, if_pos (show record.defaultCloseOutcome.state = .finalizing from hstate)]

theorem isQuiescent_iff (record : RegionRecord) :
    record.isQuiescent = true ↔ record.children = [] ∧ record.tasks = [] ∧
      record.pendingObligations = 0 ∧ record.finalizers = [] := by
  simp [RegionRecord.isQuiescent, and_assoc]

theorem region_completeClose (hregion : s.region r = some record)
    (hstate : record.state = .finalizing) (hquiet : record.isQuiescent = true) :
    (s.updateRegion r fun record => record.completeClose.1).region r =
      some { record.defaultCloseOutcome with state := .closed } := by
  rw [region_updateRegion_self, hregion, map_some, completeClose_quiescent hquiet hstate]

theorem parent_ne_self (h : Inv s) (hregion : s.region r = some record) : record.parent ≠ some r :=
  fun hp => h.shape.forest.not_hasParent_self r ⟨record.node, s.node_of_region hregion, hp⟩

/-- Nothing but the region itself and its entry at the parent changes in the region table. -/
theorem close_spec (outcome : Option TaskOutcome) (h : Inv s)
    (hregion : s.region r = some record) (hstate : record.state = .finalizing)
    (hquiet : record.isQuiescent = true) :
    ∃ s' tables, (s.updateRegion r fun record => record.completeClose.1).finishClose r record.parent
        outcome = s' ∧
      s.RegionRemoved r record.parent s'.regions ∧
      (s.updateRegion r fun record => record.completeClose.1).Finished r record.parent tables s' := by
  obtain ⟨tables, hfinished⟩ := finishClose_spec
    (s.updateRegion r fun record => record.completeClose.1) r record.parent outcome
  refine ⟨_, tables, rfl, ?_, hfinished⟩
  have hself := h.parent_ne_self hregion
  have hremoved := remove_unlistChild _ (modify_wellFormed h.shape.regions)
    (region_completeClose hregion hstate hquiet) (h.shape.named r record hregion).1 hself
  rw [hfinished.regions]
  constructor
  case wellFormed => exact hremoved.wellFormed
  case gone => exact hremoved.gone
  case retired => exact hremoved.retired
  case stale => exact fun i hi => hremoved.stale i (modify_stale hi)
  case unlisted =>
    intro p hp hparent
    refine (hremoved.unlisted p hp hparent).trans ?_
    rw [region_updateRegion_of_ne _ hp]
  case other =>
    intro q hq hparent
    refine (hremoved.other q hq hparent).trans ?_
    rw [region_updateRegion_of_ne _ hq]

theorem regionRemoved_other (hremoved : s.RegionRemoved r parent s'.regions) (hq : q ≠ r) :
    Relisted s s' q := by
  by_cases hparent : parent = some q
  · exact ⟨_, hremoved.unlisted q hq hparent⟩
  · exact ⟨RegionRecord.children, (hremoved.other q hq hparent).trans map_id_apply.symm⟩

/-- A region that is left was there before. -/
theorem regionRemoved_back (hremoved : s.RegionRemoved r parent s'.regions)
    (hq : s'.region q = some record') :
    ∃ record children, s.region q = some record ∧
      record' = { record with children := children } := by
  refine (regionRemoved_other hremoved ?_).back hq
  rintro rfl
  exact absurd (hremoved.gone.symm.trans hq) (some_ne_none record').symm

/-- The tables at the close of a region. -/
theorem quiescent_close {tables : RuntimeTables} (h : Inv s) (hregion : s.region r = some record)
    (hstate : record.state = .finalizing) (hquiet : record.isQuiescent = true)
    (hidle : s.activeAsyncFinalizers r = none)
    (hfinished : (s.updateRegion r fun record => record.completeClose.1).Finished r record.parent
      tables s') :
    Quiescent r tables := by
  obtain ⟨hchildren, htasks, hpending, hfinalizers⟩ := (isQuiescent_iff record).mp hquiet
  obtain ⟨hcount, hdouble⟩ := h.accounting.counter r record hregion
  obtain ⟨⟨⟩⟩ := s'
  obtain ⟨-, rfl, rfl, -, rfl, rfl, -, -, -, -, rfl⟩ := hfinished
  have htask : ∀ t task, s.task t = some task → task.owner ≠ r := by
    intro t task ht howner
    obtain ⟨record', hrecord', hmem⟩ := h.region_owner ((s.owner_of_task ht).trans (congrArg some howner))
    cases hrecord'.symm.trans hregion
    rw [htasks] at hmem
    exact absurd hmem not_mem_nil
  have hclosed := region_completeClose hregion hstate hquiet
  -- neither the close nor the unlisting touches a parent
  have hrel : RegionsRel (fun a b => b.parent = a.parent) s { s with regions :=
      ((s.updateRegion r fun record => record.completeClose.1).unlistChild record.parent r).regions } := by
    have hclose : RegionsRel (fun a b => b.parent = a.parent) s
        (s.updateRegion r fun record => record.completeClose.1) := by
      refine RegionsRel.updateRegion (fun _ => rfl) fun record' hrecord' => ?_
      cases hrecord'.symm.trans hregion
      rw [completeClose_quiescent hquiet hstate]
      rfl
    refine hclose.trans ?_ fun _ _ _ hab hbc => hbc.trans hab
    cases record.parent with
    | none => exact .of_eq (fun _ => rfl) fun _ => rfl
    | some p => exact RegionsRel.updateRegion (fun _ => rfl) fun _ _ => rfl
  constructor
  case record =>
    refine ⟨{ record.defaultCloseOutcome with state := .closed }, ?_, rfl, htasks, hchildren,
      hfinalizers, hdouble⟩
    exact (region_unlistChild _ _ r r).trans
      ((if_neg (h.parent_ne_self hregion)).trans hclosed)
  case task => exact htask
  case child =>
    intro q record' hq hparent
    obtain ⟨old, hold, heq⟩ := hrel.back hq
    have hlists := (h.shape.forest.links r q).mpr
      ⟨old.node, s.node_of_region hold, heq.symm.trans hparent⟩
    obtain ⟨n, hn, hmem⟩ := hlists
    rw [s.node_of_region hregion] at hn
    cases hn
    rw [show record.node.children = [] from hchildren] at hmem
    exact absurd hmem not_mem_nil
  case obligation =>
    intro o ob ho hreserved hob
    have hpos : 0 < s.obligations.reserved ob.region :=
        count_pos_of_get _ ho (by simp [ObligationRecord.isPending, hreserved])
    rw [hob, ← hcount, hpending] at hpos
    exact Nat.lt_irrefl 0 hpos
  case finalizerIds => exact update_self _ _ _
  case barrier => exact hidle
  case finalizerTask => exact fun t task ht _ => htask t task ht

theorem close (outcome : Option TaskOutcome) (h : Inv s) (hregion : s.region r = some record)
    (hstate : record.state = .finalizing) (hquiet : record.isQuiescent = true)
    (hidle : s.activeAsyncFinalizers r = none) :
    Inv ((s.updateRegion r fun record => record.completeClose.1).finishClose r record.parent
      outcome) := by
  obtain ⟨hchildren, htasks, hpending, hfinalizers⟩ := (isQuiescent_iff record).mp hquiet
  obtain ⟨s', tables, heq, hremoved, hfinished⟩ := h.close_spec outcome hregion hstate hquiet
  rw [heq]
  have hquiescent := h.quiescent_close hregion hstate hquiet hidle hfinished
  have hfinalizing : ∀ q, q ≠ r → s.isFinalizing q → s'.isFinalizing q := by
    rintro q hq ⟨record', hrecord', hstate'⟩
    obtain ⟨children, hnew⟩ := (regionRemoved_other hremoved hq).forth hrecord'
    exact ⟨_, hnew, hstate'⟩
  obtain ⟨⟨⟩⟩ := s'
  obtain ⟨-, rfl, rfl, rfl, rfl, rfl, rfl, -, -, rfl, -⟩ := hfinished
  constructor
  case shape =>
    constructor
    case regions => exact hremoved.wellFormed
    case tasks => exact h.shape.tasks
    case forest =>
      refine (h.shape.forest.removeLeaf (s.node_of_region hregion) hchildren htasks
        (node_of_absent _ hremoved.gone) (fun k hk hp => ?_) fun k hk hp => ?_).congr
        (fun _ => rfl) fun _ => rfl
      · refine (congrArg _ (hremoved.unlisted k hk hp)).trans ?_
        unfold node
        rw [Option.map_map, Option.map_map]
        rfl
      · exact congrArg _ (hremoved.other k hk hp)
    case named =>
      intro q record' hq
      obtain ⟨old, children, hold, rfl⟩ := regionRemoved_back hremoved hq
      exact h.shape.named q old hold
  case accounting =>
    obtain ⟨htable, hcounter, hholder, hindexed, hfenced⟩ := h.accounting
    refine ⟨htable, fun q record' hq => ?_, hholder, hindexed, fun q hq => ?_⟩
    · obtain ⟨old, children, hold, rfl⟩ := regionRemoved_back hremoved hq
      exact hcounter q old hold
    · rcases mem_cons.mp hq with rfl | hq
      · exact hremoved.retired
      · exact hremoved.stale _ (hfenced q hq)
  case stack =>
    obtain ⟨hnodup, hmem⟩ := swapRemove_spec r h.stack.nodup
    refine h.stack.frameOn (fun q => ?_) hnodup (fun q hq => (hmem q hq).symm) ?_ hfinalizing
      rfl rfl fun _ _ ht _ => ht
    · have hempty : s.finalizers r = [] := by
        rw [finalizers_eq, hregion]
        exact hfinalizers
      rw [finalizerIds, finalizers_relisted (fun _ => regionRemoved_other hremoved) hempty
        (finalizers_of_absent hremoved.gone)]
      dsimp only
      by_cases hq : q = r
      · rw [hq, update_self, hempty]
        rfl
      · rw [update_of_ne hq]
        exact h.stack.aligned q
    · rintro q t hq rfl
      exact absurd (hidle.symm.trans hq) (Option.some_ne_none t).symm
  case closings =>
    intro closing hclosing
    rcases mem_append.mp hclosing with hold | hnew
    · exact h.closings closing hold
    · rw [mem_singleton.mp hnew]
      exact hquiescent

/-- Every change keeps the invariant. -/
theorem change {label : ChangeLabel} (h : Inv s) (hchange : Change s label s') : Inv s' := by
  cases hchange with
  | createRegion hnew => exact h.createRegion hnew
  | createTask hnew => exact h.taskCreated hnew
  | createObligation _ _ howner hcreate => exact h.createObligation howner hcreate
  | resolve hresolved => exact h.resolve hresolved
  | touchTask hf => exact h.touchTask hf
  | touchRegion hf => exact h.updateRegion fun record _ => (hf record).kept
  | beginClose => exact h.updateRegion fun record _ => kept_beginClose record none
  | cancelRegion => exact h.updateRegion fun record _ => kept_cancelRegion _ record
  | drain hregion hstate =>
    refine h.updateRegion fun record hrecord => ?_
    obtain rfl := some.inj (hrecord.symm.trans hregion)
    exact kept_state record record.cancelReason (by decide) (by simp [hstate])
  | finalize hregion hstate => exact h.finalize hregion hstate
  | runSync => exact ((h.dropTop _).recordSyncOutcome _ _).recordFinalizerRun _
  | @startAsync r record _ id _ _ t s₁ hregion hstate hidle _ _ hspawn =>
    have hnew := (h.dropTop r).taskCreated hspawn
    obtain ⟨record', hrecord', -, hregions⟩ := hspawn.region
    have hold := (s.region_updateRegion_self r _).symm.trans hrecord'
    rw [hregion] at hold
    obtain rfl := some.inj hold
    refine hnew.raiseBarrier id ?_ ⟨_, (hregions r).trans (if_pos rfl), hstate⟩ ?_
    · rw [owner_taskCreated hspawn, update_self]
    · rw [hspawn.rest]
      exact hidle
  | asyncDone howner _ hactive => exact h.asyncDone _ howner hactive
  | removeTask howner hdone hfree => exact h.removeTask howner hdone hfree
  | close hregion hstate hquiet hidle => exact h.close _ hregion hstate hquiet hidle
  | register hregion _ => exact h.register _ hregion
  | popFinalizer => exact h.dropTop _
  | recordRun => exact h.recordFinalizerRun _
  | settings hs =>
    rw [hs]
    exact h.sameTables rfl rfl ⟨rfl, rfl, rfl, rfl, rfl, rfl⟩
  | rearrange hsame => exact h.rearrange hsame

theorem via {K : ChangeLabel → Prop} (h : Inv s) (hvia : Via K s s') : Inv s' :=
  hvia.invariant h fun _ _ _ _ hu hchange => hu.change hchange

theorem new : Inv .new := by
  constructor
  case shape =>
    refine ⟨Arena.new_wellFormed, Arena.new_wellFormed, ?_, fun _ _ hr => (nomatch hr)⟩
    exact Forest.empty.congr (fun r => node_of_absent _ rfl) fun _ => rfl
  case accounting =>
    exact ⟨Arena.new_wellFormed, fun _ _ hr => (nomatch hr), fun _ _ ho => (nomatch ho),
      fun _ _ ho => (nomatch ho), nofun⟩
  case stack =>
    refine ⟨fun r => ?_, nodup_nil, nofun, fun r t hr => (nomatch hr), fun t ht => absurd rfl ht⟩
    rfl
  case closings => exact nofun

end Inv

end Asupersync
