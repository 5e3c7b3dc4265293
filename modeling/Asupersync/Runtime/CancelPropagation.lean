import Asupersync.Runtime.Operations

/-!
# Propagation of a cancellation request

`cancel_request` goes over the subtree of a region three times: it gives every region
a reason and starts its close, it requests the cancellation of every task, and it
advances the regions without live work.

**Results.**
* `cancelRegions_marked` and `cancelRegionTasks_requested`: what the first two passes
  do to every region and every task.
* `ReasonInv`: in every state of a run, tasks of a cancelled region are cancelled with at
  least the severity of the region, but for the tasks of asynchronous finalizers.
* `cancel_propagation`: the effect of a whole request on the subtree, and its frame.
* `siblings_cancelled`: the same for the siblings of one task.
-/

namespace Asupersync

open Lib RuntimeState RegionRecord Function List Option
open RuntimeState (CancelRegionNode)

/-! ## The first pass -/

/-- The reason of a descendant, chained to the reason of its parent. -/
def chainedReason (s : RuntimeState) (reason : CancelReason) (p : RegionId)
    (parentReason : CancelReason) : CancelReason :=
  ((CancelReason.parentCancelled.withRegion p).withTimestamp reason.timestamp).withCauseLimited
    parentReason s.cancelAttribution

/-- What the first pass leaves, with the reasons it has collected. -/
structure Marked (target : RegionId) (reason : CancelReason) (nodes : List CancelRegionNode)
    (s : RuntimeState) (reasons : RegionId → Option CancelReason) (s' : RuntimeState) : Prop where
  region : ∀ q, s'.region q = if q ∈ nodes.map (·.id) then
      (s.region q).map (RuntimeState.cancelRegion ((reasons q).getD reason))
    else s.region q
  own : ∀ n ∈ nodes, n.id = target → reasons n.id = some reason
  chained : ∀ n ∈ nodes, n.id ≠ target → ∀ p, n.parent = some p →
    ∃ parentReason, reasons p = some parentReason ∧
      reasons n.id = some (chainedReason s reason p parentReason)
  rest : s' = { s with regions := s'.regions }

/-- Parents come before their children, so the reason of the parent is there when a child
is reached. -/
theorem cancelRegions_marked (target : RegionId) (reason : CancelReason)
    (nodes : List CancelRegionNode) (reasons : RegionId → Option CancelReason) (s : RuntimeState)
    (hnodup : (nodes.map (·.id)).Nodup) (hfresh : ∀ n ∈ nodes, reasons n.id = none)
    (hordered : ∀ before n after p, nodes = before ++ n :: after → n.parent = some p →
      reasons p ≠ none ∨ p ∈ before.map (·.id)) :
    Marked target reason nodes s (cancelRegions target reason nodes reasons s).1
        (cancelRegions target reason nodes reasons s).2 ∧
      ∀ q, reasons q ≠ none →
        (cancelRegions target reason nodes reasons s).1 q = reasons q := by
  induction nodes generalizing reasons s with
  | nil =>
    refine ⟨⟨fun q => ?_, nofun, nofun, rfl⟩, fun _ _ => rfl⟩
    rfl
  | cons n rest ih =>
    rw [map_cons, nodup_cons] at hnodup
    obtain ⟨hnew, hrest⟩ := hnodup
    have hnone : reasons n.id = none := hfresh n mem_cons_self
    have hother : ∀ m ∈ rest, m.id ≠ n.id := fun m hm heq =>
      hnew (heq ▸ mem_map_of_mem hm)
    unfold cancelRegions
    generalize hreason : s.regionReason target reason reasons n = nodeReason
    obtain ⟨hmarked, hkept⟩ := ih (update reasons n.id (some nodeReason))
      (s.updateRegion n.id (cancelRegion nodeReason)) hrest
      (fun m hm => by
        rw [update_of_ne (hother m hm)]
        exact hfresh m (mem_cons_of_mem _ hm))
      (fun before m after p hsplit hp => by
        by_cases hpn : p = n.id
        · left
          rw [hpn, update_self]
          exact some_ne_none _
        · rw [update_of_ne hpn]
          rcases hordered (n :: before) m after p (by rw [hsplit]; rfl) hp with hold | hmem
          · exact .inl hold
          · exact .inr ((mem_cons.mp hmem).resolve_left hpn))
    generalize cancelRegions target reason rest
      (update reasons n.id (some nodeReason))
      (s.updateRegion n.id (cancelRegion nodeReason)) = out at hmarked hkept ⊢
    have hout : out.1 n.id = some nodeReason := by
      rw [hkept n.id (by rw [update_self]; exact some_ne_none _), update_self]
    have hold : ∀ q, reasons q ≠ none → out.1 q = reasons q := by
      intro q hq
      have hqn : q ≠ n.id := fun heq => hq (heq ▸ hnone)
      have hsame : update reasons n.id (some nodeReason) q = reasons q :=
        update_of_ne hqn _ _
      rw [hkept q (hsame ▸ hq), hsame]
    refine ⟨⟨fun q => ?_, ?_, ?_, ?_⟩, hold⟩
    · rw [hmarked.region q]
      rcases eq_or_ne q n.id with rfl | hqn
      · rw [if_neg hnew, map_cons, if_pos mem_cons_self, region_updateRegion_self, hout]
        rfl
      · simp only [map_cons, mem_cons, hqn, false_or, region_updateRegion_of_ne s hqn]
    · intro m hm heq
      rcases mem_cons.mp hm with rfl | hm
      · rw [hout, ← hreason, regionReason, if_pos heq]
      · exact hmarked.own m hm heq
    · intro m hm hne p hp
      rcases mem_cons.mp hm with rfl | hm
      · have hparent : reasons p ≠ none :=
          (hordered [] m rest p rfl hp).resolve_right not_mem_nil
        obtain ⟨parentReason, hparentReason⟩ := ne_none_iff_exists'.mp hparent
        refine ⟨parentReason, (hold p hparent).trans hparentReason, ?_⟩
        rw [hout, ← hreason, regionReason, if_neg hne, hp]
        simp only [hparentReason, getD_some]
        rfl
      · exact hmarked.chained m hm hne p hp
    · rw [hmarked.rest]
      rfl

/-! ## The second pass -/

/-- The tasks that a region lists. -/
def RuntimeTables.tasksOf (s : RuntimeTables) (r : RegionId) : List TaskId :=
  match s.region r with
  | some record => record.tasks
  | none => []

/-- What the second pass leaves for the tasks in `tasks`; `reasonFor` gives the reason of each.
`scheduled` is the part of the result for them. -/
structure Requested (reasonFor : TaskId → CancelReason) (tasks : List TaskId)
    (s : RuntimeState) (scheduled : List (TaskId × Nat)) (s' : RuntimeState) : Prop where
  task : ∀ t, s'.task t =
    if t ∈ tasks then (s.task t).map fun record => (record.requestCancel (reasonFor t)).1
    else s.task t
  nodup : (scheduled.map (·.1)).Nodup
  mem : ∀ t, t ∈ scheduled.map (·.1) ↔
    t ∈ tasks ∧ ∃ record, s'.task t = some record ∧ record.state.isCancelling = true
  rest : s' = { s with tasks := s'.tasks }

section Requests

variable {s s₁ s₂ : RuntimeState} {reasonFor : TaskId → CancelReason}

theorem Requested.nil (reasonFor : TaskId → CancelReason) (s : RuntimeState) :
    Requested reasonFor [] s [] s where
  task t := by
    rw [if_neg not_mem_nil]
  nodup := nodup_nil
  mem t := by simp
  rest := rfl

/-- Requests for disjoint groups of tasks, one after the other. -/
theorem Requested.append {tasks tasks' : List TaskId} {scheduled scheduled' : List (TaskId × Nat)}
    (h : Requested reasonFor tasks s scheduled s₁)
    (h' : Requested reasonFor tasks' s₁ scheduled' s₂) (hdisjoint : ∀ t ∈ tasks, t ∉ tasks') :
    Requested reasonFor (tasks ++ tasks') s (scheduled ++ scheduled') s₂ := by
  have hfirst : ∀ t ∈ tasks, s₂.task t = s₁.task t := by
    intro t ht
    rw [h'.task t, if_neg (hdisjoint t ht)]
  constructor
  case task =>
    intro t
    by_cases ht : t ∈ tasks
    · rw [hfirst t ht, h.task t, if_pos ht, if_pos (mem_append_left _ ht)]
    · simp only [h'.task t, h.task t, ht, mem_append, false_or, if_false]
  case nodup =>
    rw [map_append, nodup_append]
    refine ⟨h.nodup, h'.nodup, fun t ht u hu heq => ?_⟩
    exact hdisjoint t ((h.mem t).mp ht).1 (heq ▸ ((h'.mem u).mp hu).1)
  case mem =>
    intro t
    rw [map_append, mem_append, mem_append, h.mem, h'.mem, or_and_right]
    refine or_congr (and_congr_right fun ht => ?_) Iff.rfl
    rw [hfirst t ht]
  case rest =>
    rw [h'.rest, h.rest]

/-- A request that is new leaves the task cancelling. -/
theorem requestCancel_new_or_isCancelling (record : TaskRecord) (reason : CancelReason) :
    ((record.requestCancel reason).2 || (record.requestCancel reason).1.state.isCancelling) =
      (record.requestCancel reason).1.state.isCancelling := by
  unfold TaskRecord.requestCancel TaskRecord.requestCancelWithBudget
  cases record.state with
  | completed | created | running => rfl
  | cancelRequested | cancelling | finalizing => exact Bool.or_true _

theorem cancelOneTask_requested (reason : CancelReason) (t : TaskId) (s : RuntimeState)
    (hreason : reasonFor t = reason) :
    Requested reasonFor [t] s (cancelOneTask reason t s).1
      (cancelOneTask reason t s).2 := by
  unfold cancelOneTask
  cases ht : s.task t with
  | none =>
    refine ⟨fun u => ?_, nodup_nil, fun u => ?_, rfl⟩
    · by_cases hu : u = t
      · rw [if_pos (mem_singleton.mpr hu), hu, ht]
        rfl
      · rw [if_neg fun hmem => hu (mem_singleton.mp hmem)]
    · constructor
      · exact fun h => absurd h not_mem_nil
      · rintro ⟨hu, record, hrecord, -⟩
        rw [mem_singleton.mp hu, ht] at hrecord
        cases hrecord
  | some record =>
    dsimp only
    rw [show record.requestCancelWithBudget reason reason.cleanupBudget =
      record.requestCancel reason from rfl]
    have htask : ∀ u, (s.updateTask t fun _ => (record.requestCancel reason).1).task u =
        if u ∈ [t] then (s.task u).map fun record => (record.requestCancel (reasonFor u)).1
        else s.task u := by
      intro u
      rw [task_updateTask]
      refine if_ctx_congr mem_singleton.symm (fun hu => ?_) fun _ => rfl
      rw [mem_singleton.mp hu, ht, hreason]
      rfl
    have hself : (s.updateTask t fun _ => (record.requestCancel reason).1).task t =
        some (record.requestCancel reason).1 := by
      rw [task_updateTask, if_pos rfl, ht]
      rfl
    rw [requestCancel_new_or_isCancelling]
    refine ⟨htask, ?_, fun u => ⟨fun hu => ?_, ?_⟩, rfl⟩
    · split
      · exact nodup_singleton t
      · exact nodup_nil
    · split at hu
      next hc =>
        refine ⟨hu, ?_⟩
        rw [mem_singleton.mp hu]
        exact ⟨_, hself, hc⟩
      next => exact absurd hu not_mem_nil
    · rintro ⟨hu, record', hrecord', hc⟩
      rw [mem_singleton.mp hu] at hrecord'
      cases hself.symm.trans hrecord'
      rw [if_pos hc]
      exact hu

theorem cancelTasks_requested (reason : CancelReason) (tasks : List TaskId) (s : RuntimeState)
    (hnodup : tasks.Nodup) (hreason : ∀ t ∈ tasks, reasonFor t = reason) :
    Requested reasonFor tasks s (cancelTasks reason tasks s).1
      (cancelTasks reason tasks s).2 := by
  induction tasks generalizing s with
  | nil => exact .nil reasonFor s
  | cons t rest ih =>
    obtain ⟨hnew, hrest⟩ := nodup_cons.mp hnodup
    have hfirst := cancelOneTask_requested reason t s (hreason t mem_cons_self)
    refine hfirst.append (ih _ hrest fun u hu => hreason u (mem_cons_of_mem _ hu)) fun u hu => ?_
    rw [mem_singleton.mp hu]
    exact hnew

theorem cancelRegionTasks_requested (reason : CancelReason)
    (reasons : RegionId → Option CancelReason) (nodes : List CancelRegionNode) (s : RuntimeState)
    (hnodup : (nodes.flatMap fun n => s.tasksOf n.id).Nodup)
    (hreason : ∀ n ∈ nodes, ∀ t ∈ s.tasksOf n.id, reasonFor t = (reasons n.id).getD reason) :
    Requested reasonFor (nodes.flatMap fun n => s.tasksOf n.id) s
      (cancelRegionTasks reason reasons nodes s).1
      (cancelRegionTasks reason reasons nodes s).2 := by
  induction nodes generalizing s with
  | nil => exact .nil reasonFor s
  | cons n rest ih =>
    rw [flatMap_cons, nodup_append] at hnodup
    obtain ⟨hown, hrest, hdisjoint⟩ := hnodup
    have hfirst := cancelTasks_requested ((reasons n.id).getD reason) (s.tasksOf n.id) s hown
      (hreason n mem_cons_self)
    -- the requests do not change which tasks a region lists
    have hsame : ∀ q, (cancelTasks ((reasons n.id).getD reason) (s.tasksOf n.id)
        s).2.tasksOf q = s.tasksOf q := by
      intro q
      rw [hfirst.rest]
      rfl
    have hothers := ih (cancelTasks ((reasons n.id).getD reason) (s.tasksOf n.id)
      s).2 (by simpa only [hsame] using hrest) fun m hm t ht =>
        hreason m (mem_cons_of_mem _ hm) t (hsame m.id ▸ ht)
    simp only [hsame] at hothers
    exact hfirst.append hothers fun t ht ht' => hdisjoint t ht t ht' rfl

end Requests

/-! ## The whole request -/

/-- The state after the first two passes; `reasonOf` gives the reason of each region of the
subtree. -/
structure Cancelled (s : RuntimeState) (r : RegionId) (reason : CancelReason)
    (reasonOf : RegionId → CancelReason) (scheduled : List (TaskId × Nat)) (s' : RuntimeState) :
    Prop where
  own : reasonOf r = reason
  chained : ∀ q p, Below s.node r p → HasParent s.node q p →
    reasonOf q = chainedReason s reason p (reasonOf p)
  inside : ∀ q, Below s.node r q →
    s'.region q = (s.region q).map (RuntimeState.cancelRegion (reasonOf q))
  outside : ∀ q, ¬ Below s.node r q → s'.region q = s.region q
  taskInside : ∀ t q, s.owner t = some q → Below s.node r q →
    s'.task t = (s.task t).map fun record => (record.requestCancel (reasonOf q)).1
  taskOutside : ∀ t, (∀ q, s.owner t = some q → ¬ Below s.node r q) → s'.task t = s.task t
  nodup : (scheduled.map (·.1)).Nodup
  mem : ∀ t, t ∈ scheduled.map (·.1) ↔ ∃ q, s.owner t = some q ∧ Below s.node r q ∧
    ∃ record, s'.task t = some record ∧ record.state.isCancelling = true
  rest : s' = { s with regions := s'.regions, tasks := s'.tasks }

/-- The regions a request may advance: the subtree and the ancestors of its root. -/
def Related (s : RuntimeState) (r q : RegionId) : Prop :=
  Below s.node r q ∨ Below s.node q r

section Request

variable {s : RuntimeState} {r : RegionId} {nodes : List CancelRegionNode}

theorem mem_tasksOf_iff (h : Inv s) (t : TaskId) (q : RegionId) :
    t ∈ s.tasksOf q ↔ s.owner t = some q := by
  rw [← h.shape.forest.owns]
  unfold RuntimeTables.tasksOf ListsItem RuntimeTables.node
  cases s.region q <;> simp [node]

theorem tasksOf_nodup (h : Inv s) (q : RegionId) : (s.tasksOf q).Nodup := by
  unfold RuntimeTables.tasksOf
  cases hq : s.region q with
  | none => exact nodup_nil
  | some record => exact (h.shape.forest.nodup q record.node (s.node_of_region hq)).2

/-- No task is listed twice in different regions. -/
theorem flatMap_tasksOf_nodup (h : Inv s)
    (hnodup : (nodes.map (·.id)).Nodup) : (nodes.flatMap fun n => s.tasksOf n.id).Nodup := by
  refine nodup_flatMap.mpr ⟨fun n _ => tasksOf_nodup h n.id, ?_⟩
  refine (pairwise_map.mp hnodup).imp fun hne t ht ht' => hne ?_
  exact some.inj (((mem_tasksOf_iff h t _).mp ht).symm.trans ((mem_tasksOf_iff h t _).mp ht'))

theorem cancelled_passes {reason : CancelReason}
    {reasons : RegionId → Option CancelReason} {s₁ : RuntimeState} (h : Inv s)
    (hnodes : Subtree s r nodes) (hpass : cancelRegions r reason nodes (fun _ => none) s = (reasons, s₁))
    (hmarkedInv : Inv s₁) :
    ∃ reasonOf, Cancelled s r reason reasonOf (cancelRegionTasks reason reasons nodes s₁).1
      (cancelRegionTasks reason reasons nodes s₁).2 := by
  obtain ⟨hmarked, -⟩ := cancelRegions_marked r reason nodes (fun _ => none) s hnodes.nodup
    (fun _ _ => rfl) fun before n after p hsplit hp =>
      .inr (hnodes.ordered before n after p hsplit hp)
  rw [hpass] at hmarked
  dsimp only at hmarked
  have howner : ∀ t, s₁.owner t = s.owner t := by
    intro t
    rw [hmarked.rest]
    rfl
  have hmem : ∀ t, t ∈ nodes.flatMap (fun n => s₁.tasksOf n.id) ↔
      ∃ q, s.owner t = some q ∧ Below s.node r q := by
    intro t
    rw [mem_flatMap]
    constructor
    · rintro ⟨n, hn, ht⟩
      rw [mem_tasksOf_iff hmarkedInv, howner] at ht
      exact ⟨n.id, ht, (hnodes.mem n.id).mp (mem_map_of_mem hn)⟩
    · rintro ⟨q, ht, hq⟩
      obtain ⟨n, hn, rfl⟩ := mem_map.mp ((hnodes.mem q).mpr hq)
      exact ⟨n, hn, (mem_tasksOf_iff hmarkedInv t n.id).mpr ((howner t).trans ht)⟩
  have hrequested : Requested
      (fun t => (s.owner t).elim reason fun q => (reasons q).getD reason)
      (nodes.flatMap fun n => s₁.tasksOf n.id) s₁
      (cancelRegionTasks reason reasons nodes s₁).1
      (cancelRegionTasks reason reasons nodes s₁).2 := by
    refine cancelRegionTasks_requested reason reasons nodes s₁
      (flatMap_tasksOf_nodup hmarkedInv hnodes.nodup) fun n hn t ht => ?_
    rw [mem_tasksOf_iff hmarkedInv, howner] at ht
    rw [ht]
    rfl
  have htask : ∀ t, s₁.task t = s.task t := by
    intro t
    rw [hmarked.rest]
    rfl
  have hregion : ∀ q, (cancelRegionTasks reason reasons nodes s₁).2.region q = s₁.region q := by
    intro q
    rw [hrequested.rest]
    rfl
  refine ⟨fun q => (reasons q).getD reason, ?_⟩
  constructor
  case own =>
    obtain ⟨n, hn, hid⟩ := mem_map.mp ((hnodes.mem r).mpr Relation.ReflTransGen.refl)
    have hown := hmarked.own n hn hid
    rw [hid] at hown
    rw [hown, getD_some]
  case chained =>
    intro q p hp hqp
    have hq : Below s.node r q := hp.tail hqp
    obtain ⟨n, hn, rfl⟩ := mem_map.mp ((hnodes.mem q).mpr hq)
    have hne : n.id ≠ r := fun heq =>
      h.shape.forest.not_below_of_hasParent (heq ▸ hqp) hp
    rcases hnodes.parent n hn with rfl | ⟨p', hparent, hnp⟩
    · exact absurd rfl hne
    · obtain rfl : p' = p := hnp.unique hqp
      obtain ⟨parentReason, hparentReason, hown⟩ := hmarked.chained n hn hne p' hparent
      rw [hown, hparentReason]
      rfl
  case inside =>
    intro q hq
    rw [hregion, hmarked.region q, if_pos ((hnodes.mem q).mpr hq)]
  case outside =>
    intro q hq
    rw [hregion, hmarked.region q, if_neg fun hmem => hq ((hnodes.mem q).mp hmem)]
  case taskInside =>
    intro t q ht hq
    rw [hrequested.task t, if_pos ((hmem t).mpr ⟨q, ht, hq⟩), htask, ht]
    rfl
  case taskOutside =>
    intro t ht
    have hnot : t ∉ nodes.flatMap fun n => s₁.tasksOf n.id := by
      intro hin
      obtain ⟨q, hq, hbelow⟩ := (hmem t).mp hin
      exact ht q hq hbelow
    rw [hrequested.task t, if_neg hnot, htask]
  case nodup => exact hrequested.nodup
  case mem =>
    intro t
    simp only [hrequested.mem, hmem, ← exists_and_right, and_assoc]
  case rest =>
    rw [hrequested.rest, hmarked.rest]

variable {reason : CancelReason} {reasonOf : RegionId → CancelReason}
  {scheduled : List (TaskId × Nat)} {s' : RuntimeState}

theorem Cancelled.node (h : Cancelled s r reason reasonOf scheduled s') (q : RegionId) :
    s'.node q = s.node q := by
  unfold RuntimeTables.node
  by_cases hq : Below s.node r q
  · rw [h.inside q hq]
    cases s.region q with
    | none => rfl
    | some record => exact congrArg some (kept_cancelRegion (reasonOf q) record).node.node
  · rw [h.outside q hq]

/-- Advancing goes up from the subtree of `r`, so it stays on the path to its root. -/
theorem Cancelled.parentClosed (h : Cancelled s r reason reasonOf scheduled s') :
    ParentClosed (Related s r) s' := by
  rintro q p hq ⟨n, hn, hp⟩
  rw [h.node q] at hn
  have hparent : HasParent s.node q p := ⟨n, hn, hp⟩
  rcases hq with hbelow | habove
  · rcases Relation.ReflTransGen.cases_tail hbelow with rfl | ⟨mid, hmid, hqmid⟩
    · exact .inr (.single hparent)
    · exact .inl (hqmid.unique hparent ▸ hmid)
  · exact .inr (.head hparent habove)

/-- A request returns; after its first two passes it only advances regions. -/
theorem cancelRequest_cancelled (h : Inv s) (r : RegionId) (reason : CancelReason) :
    ∃ reasonOf scheduled s₁ s', s.cancelRequest r reason = .ok scheduled s' ∧
      Cancelled s r reason reasonOf scheduled s₁ ∧ Inv s₁ ∧
      Via (AdvanceLabel (Related s r)) s₁ s' := by
  obtain ⟨collected, hcollected, hnodes⟩ := collect_subtree r h.shape.forest
  unfold cancelRequest
  rw [hcollected]
  dsimp only
  generalize (collected.mergeSort fun a b => decide (a.depth ≤ b.depth)) = nodes at hnodes
  have hmarkedInv := h.via (cancelRegions_via r reason nodes (fun _ => none) s)
  rcases hpass : cancelRegions r reason nodes (fun _ => none) s with ⟨reasons, s₀⟩
  rw [hpass] at hmarkedInv
  obtain ⟨reasonOf, hcancelled⟩ := cancelled_passes h hnodes hpass hmarkedInv
  have hinv := hmarkedInv.via (cancelRegionTasks_via reason reasons nodes s₀)
  generalize cancelRegionTasks reason reasons nodes s₀ = out at hcancelled hinv ⊢
  obtain ⟨scheduled, s₁⟩ := out
  have hadvance : Returns (AdvanceLabel (Related s r)) s₁
      (fun _ u => Inv u ∧ ParentClosed (Related s r) u)
      (Flow.forEach advanceIdle nodes s₁) := by
    refine Returns.forEach (I := fun u => Inv u ∧ ParentClosed (Related s r) u)
      ⟨hinv, hcancelled.parentClosed⟩ fun n hn u ⟨hu, hparents⟩ => ?_
    have hrelated : Related s r n.id :=
      .inl ((hnodes.mem n.id).mp (mem_map_of_mem hn))
    unfold advanceIdle
    cases u.region n.id with
    | none => exact .ok .refl ⟨hu, hparents⟩
    | some record =>
      dsimp only
      split
      · exact (advanceRegionState_spec hu hrelated hparents).mono (fun _ hlabel => hlabel)
          fun _ _ hvia _ => ⟨hu.via hvia, (advanced_via hu hparents hvia).1⟩
      · exact .ok .refl ⟨hu, hparents⟩
  obtain ⟨value, s', hend, hvia', -⟩ := hadvance.exists_ok
  refine ⟨reasonOf, scheduled, s₁, s', ?_, hcancelled, hinv, hvia'⟩
  rw [hend]
  rfl

end Request

/-! ## Severities over whole runs -/

/-- The task has completed, or is cancelled with at least the severity of `reason`. -/
def Covered (task : TaskRecord) (reason : CancelReason) : Prop :=
  task.state.isTerminal = true ∨
    ∃ reason', task.cancelReason = some reason' ∧ reason.severity ≤ reason'.severity

theorem Covered.progress {task task' : TaskRecord} {reason : CancelReason}
    (h : Covered task reason) (hprogress : TaskProgress task task') : Covered task' reason := by
  rcases h with hterminal | ⟨old, hold, hle⟩
  · exact .inl (hprogress.terminal hterminal)
  · rcases hprogress.severity old hold with hterminal | ⟨new, hnew, hle'⟩
    · exact .inl hterminal
    · exact .inr ⟨new, hnew, hle.trans hle'⟩

theorem covered_requestCancel (task : TaskRecord) (reason : CancelReason) :
    Covered (task.requestCancel reason).1 reason := by
  unfold TaskRecord.requestCancel TaskRecord.requestCancelWithBudget
  cases hs : task.state with
  | completed outcome => exact .inl (by rw [hs]; rfl)
  | created | running => exact .inr ⟨reason, rfl, Nat.le_refl _⟩
  | cancelRequested existing budget | cancelling existing budget | finalizing existing budget =>
    exact .inr ⟨_, rfl, (le_max_right _ _).trans_eq (existing.strengthen_severity reason).symm⟩

theorem isCancelling_of_cancelReason {task : TaskRecord} {reason : CancelReason}
    (h : task.cancelReason = some reason) :
    task.state.isCancelling = true ∧ task.state.isTerminal = false := by
  unfold TaskRecord.cancelReason at h
  cases hs : task.state <;> simp_all [TaskState.isCancelling, TaskState.isTerminal]

theorem Covered.max {task : TaskRecord} {first second reason : CancelReason}
    (h : Covered task first) (h' : Covered task second)
    (hmax : reason.severity = max first.severity second.severity) : Covered task reason := by
  rcases h with hterminal | ⟨new, hnew, hle⟩
  · exact .inl hterminal
  rcases h' with hterminal | ⟨new', hnew', hle'⟩
  · exact .inl hterminal
  cases hnew.symm.trans hnew'
  exact .inr ⟨new, hnew, hmax ▸ max_le hle hle'⟩

/-- A region that is cancelled is not open, and its reason is the new one or at least as
severe as both. -/
structure RegionCancelled (reason : CancelReason) (record record' : RegionRecord) : Prop where
  parent : record'.parent = record.parent
  state : record'.state ≠ .opened
  reason : ∃ new, record'.cancelReason = some new ∧
    (record.cancelReason = none → new = reason) ∧
    ∀ old, record.cancelReason = some old → new.severity = max old.severity reason.severity

theorem regionCancelled_cancelRegion (reason : CancelReason) (record : RegionRecord)
    (hstate : record.state ≠ .closed) :
    RegionCancelled reason record (cancelRegion reason record) := by
  have hself : reason.strengthen reason = reason := by
    unfold CancelReason.strengthen
    split <;> rfl
  have hmax : ∀ old : CancelReason, ((old.strengthen reason).strengthen reason).severity =
      max old.severity reason.severity := by
    intro old
    rw [CancelReason.strengthen_severity, CancelReason.strengthen_severity]
    omega
  unfold cancelRegion beginClose transition applyReason strengthenCancelReason
  by_cases hopen : record.state = .opened
  · simp only [hopen, if_true]
    cases hreason : record.cancelReason with
    | none => exact ⟨rfl, nofun, reason, rfl, fun _ => rfl, by simp [hreason]⟩
    | some old =>
      refine ⟨rfl, nofun, _, rfl, by simp [hreason], fun old' hold => ?_⟩
      cases hreason.symm.trans hold
      exact CancelReason.strengthen_severity old reason
  · -- the reason is applied twice
    simp only [hstate, hopen, if_false, ne_eq, not_false_eq_true, if_true]
    cases hreason : record.cancelReason with
    | none => exact ⟨rfl, hopen, _, rfl, fun _ => hself, by simp [hreason]⟩
    | some old =>
      refine ⟨rfl, hopen, _, rfl, by simp [hreason], fun old' hold => ?_⟩
      cases hreason.symm.trans hold
      exact hmax old

/-- Cancelled regions, with their tasks and children; `X` are the tasks that are exempt. -/
structure ReasonInv (X : TaskId → Prop) (s : RuntimeState) : Prop where
  closing : ∀ r record reason, s.region r = some record → record.cancelReason = some reason →
    record.state ≠ .opened
  task : ∀ t task record reason, s.task t = some task → s.region task.owner = some record →
    record.cancelReason = some reason → s.asyncFinalizerTasks t = none → ¬ X t →
      Covered task reason
  child : ∀ r record p parent, s.region r = some record → record.parent = some p →
    s.region p = some parent → parent.cancelReason ≠ none → record.cancelReason ≠ none

structure CancelKept (record record' : RegionRecord) : Prop where
  parent : record'.parent = record.parent
  reason : record'.cancelReason = record.cancelReason
  opened : record'.state = .opened → record.state = .opened

theorem CancelKept.refl (record : RegionRecord) : CancelKept record record :=
  ⟨rfl, rfl, id⟩

section ReasonInv

variable {X : TaskId → Prop} {s s' : RuntimeState} {label : ChangeLabel} {r : RegionId}

section

variable (h : ReasonInv X s)

include h

/-- A region keeps its reason, or is new, without a reason and with a parent without one. -/
theorem ReasonInv.frame (hregion : ∀ q record', s'.region q = some record' →
      (∃ record, s.region q = some record ∧ CancelKept record record') ∨
        record'.cancelReason = none ∧ ∀ p parent', record'.parent = some p →
          s'.region p = some parent' → parent'.cancelReason = none)
    (htask : ∀ t task', s'.task t = some task' →
      ∃ task, s.task t = some task ∧ TaskProgress task task')
    (hasync : ∀ t, s'.asyncFinalizerTasks t = none → ¬ X t → s.asyncFinalizerTasks t = none) :
    ReasonInv X s' where
  closing r record' reason hr hreason := by
    rcases hregion r record' hr with ⟨record, hrecord, hkept⟩ | ⟨hnone, -⟩
    · exact fun hopen => h.closing r record reason hrecord (hkept.reason ▸ hreason)
        (hkept.opened hopen)
    · cases hnone.symm.trans hreason
  task t task' record' reason ht hr hreason hnone hX := by
    obtain ⟨task, htask, hprogress⟩ := htask t task' ht
    rcases hregion task'.owner record' hr with ⟨record, hrecord, hkept⟩ | ⟨hnone, -⟩
    · rw [hprogress.owner] at hrecord
      exact (h.task t task record reason htask hrecord (hkept.reason ▸ hreason)
        (hasync t hnone hX) hX).progress hprogress
    · cases hnone.symm.trans hreason
  child r record' p parent' hr hp hpr hreason := by
    rcases hregion p parent' hpr with ⟨parent, hparent, hkept'⟩ | ⟨hnone, -⟩
    · rcases hregion r record' hr with ⟨record, hrecord, hkept⟩ | ⟨-, hnone⟩
      · rw [hkept.reason]
        exact h.child r record p parent hrecord (hkept.parent ▸ hp) hparent
          (hkept'.reason ▸ hreason)
      · exact absurd (hnone p parent' hp hpr) hreason
    · exact absurd hnone hreason

/-- A change of regions only. -/
theorem ReasonInv.of_rel (hrel : RegionsRel CancelKept s s')
    (htasks : s'.tasks = s.tasks) (hasync : s'.asyncFinalizerTasks = s.asyncFinalizerTasks) :
    ReasonInv X s' := by
  refine h.frame (fun q record' hq => .inl (hrel.back hq)) (fun t task' ht => ?_)
    fun t hnone _ => hasync ▸ hnone
  unfold RuntimeTables.task at ht ⊢
  rw [htasks] at ht
  exact ⟨task', ht, .refl task'⟩

theorem ReasonInv.updateRegion {f : RegionRecord → RegionRecord}
    (hf : ∀ record, s.region r = some record → CancelKept record (f record)) :
    ReasonInv X (s.updateRegion r f) :=
  h.of_rel (RegionsRel.updateRegion CancelKept.refl hf) rfl rfl

/-- A new region has no reason, and neither has its open parent. -/
theorem ReasonInv.createRegion {parent : Option RegionId}
    (hnew : RegionCreated s r parent s') : ReasonInv X s' := by
  obtain ⟨budget, hr⟩ := hnew.record
  obtain ⟨regions, root, rfl⟩ := hnew.eq
  refine h.frame (fun q record' hq => ?_) (fun _ task ht => ⟨task, ht, .refl task⟩)
    fun _ hnone _ => hnone
  by_cases hqr : q = r
  · subst hqr
    cases hr.symm.trans hq
    refine .inr ⟨rfl, fun p parent' hp hpr => ?_⟩
    -- the parent of the new region is open
    obtain ⟨old, hold, hopen, hlisted⟩ := hnew.listed p hp
    cases hlisted.symm.trans hpr
    exact eq_none_iff_forall_ne_some.mpr fun reason hreason =>
      h.closing p old reason hold hreason hopen
  · obtain ⟨record, children, hrecord, rfl⟩ := (Inv.regionCreated_other hnew hqr).back hq
    exact .inl ⟨record, hrecord, ⟨rfl, rfl, id⟩⟩

/-- A new task is in an open region, or it is the task of a finalizer. -/
theorem ReasonInv.createTask {cleanupTask : Bool} {t : TaskId} {s₁ : RuntimeState}
    (hnew : TaskCreated s r cleanupTask t s₁)
    (hregion : ∀ q, s'.region q = s₁.region q) (htask : ∀ u, s'.task u = s₁.task u)
    (hasync : ∀ u, s'.asyncFinalizerTasks u = none → s.asyncFinalizerTasks u = none)
    (hkind : cleanupTask = true → s'.asyncFinalizerTasks t ≠ none) :
    ReasonInv X s' := by
  obtain ⟨record, hrecord, hadmitted, hregions⟩ := hnew.region
  obtain ⟨task, howner, -, htasks⟩ := hnew.task
  have hback : ∀ q record', s'.region q = some record' →
      ∃ record, s.region q = some record ∧ CancelKept record record' := by
    intro q record' hq
    rw [hregion] at hq
    obtain ⟨old, hold, tasks, rfl⟩ := (Inv.regionsRel_taskCreated hnew).back hq
    exact ⟨old, hold, ⟨rfl, rfl, id⟩⟩
  -- the other clauses do not speak of tasks
  have hold : ReasonInv X { s' with tasks := s.tasks } := by
    refine h.frame (fun q _ hq => .inl (hback q _ hq)) (fun u task' hu => ⟨task', hu, .refl task'⟩) fun u hnone _ => hasync u hnone
  refine ⟨hold.closing, fun u task' record' reason hu hr hreason hnone hX => ?_, hold.child⟩
  by_cases hut : u = t
  · subst hut
    rw [htask, htasks, if_pos rfl] at hu
    cases hu
    obtain ⟨old, hold', hkept⟩ := hback _ record' hr
    rw [howner] at hold'
    cases hrecord.symm.trans hold'
    cases cleanupTask with
    | true => exact absurd hnone (hkind rfl)
    | false =>
      have hopen : record.state = .opened := by
        simpa [canAdmit, RegionState.canAcceptWork] using hadmitted
      exact absurd hopen (h.closing r record reason hrecord (hkept.reason ▸ hreason))
  · rw [htask, htasks, if_neg hut] at hu
    exact hold.task u task' record' reason hu hr hreason hnone hX

end

/-- Changes that neither cancel regions nor take down barriers. -/
def ChangeLabel.isTame : ChangeLabel → Bool
  | .cancelRegion _ _ | .asyncDone _ => false
  | _ => true

theorem ReasonInv.change (hinv : Inv s) (h : ReasonInv X s)
    (hchange : Change s label s') (hlabel : label.isTame = true ∨ ∃ t, label = .asyncDone t ∧ X t) :
    ReasonInv X s' := by
  have hnot : ∀ {l}, l = label → l.isTame = false → ∃ t, l = .asyncDone t ∧ X t := by
    rintro l rfl hl
    exact hlabel.resolve_left (by rw [hl]; exact Bool.false_ne_true)
  cases hchange with
  | createRegion hnew => exact h.createRegion hnew
  | createTask hnew =>
    obtain ⟨regions, tasks, rfl⟩ := hnew.eq
    exact h.createTask hnew (fun _ => rfl) (fun _ => rfl) (fun _ hnone => hnone) nofun
  | createObligation | register | popFinalizer =>
    exact h.of_rel (RegionsRel.updateRegion CancelKept.refl fun _ _ => ⟨rfl, rfl, id⟩) rfl rfl
  | resolve =>
    refine h.of_rel (RegionsRel.updateRegion CancelKept.refl fun record _ => ?_) rfl rfl
    unfold resolveObligation
    split <;> exact ⟨rfl, rfl, id⟩
  | @touchTask t f hf =>
    refine h.frame (fun q record hq => .inl ⟨record, hq, .refl record⟩) (fun u task' hu => ?_)
      fun _ hnone _ => hnone
    rw [task_updateTask] at hu
    split_ifs at hu with hut
    · obtain ⟨task, htask, rfl⟩ := map_eq_some_iff.mp hu
      exact ⟨task, hut ▸ htask, hf task htask⟩
    · exact ⟨task', hu, .refl task'⟩
  | touchRegion hf =>
    refine h.updateRegion fun record _ => ?_
    rw [hf record]
    exact ⟨rfl, rfl, id⟩
  | beginClose =>
    refine h.updateRegion fun record _ => ?_
    unfold beginClose transition
    split
    · exact .refl record
    · split
      · exact ⟨rfl, rfl, fun hs => (nomatch hs)⟩
      · exact .refl record
  | cancelRegion =>
    obtain ⟨t, heq, -⟩ := hnot rfl rfl
    cases heq
  | drain => exact h.updateRegion fun record _ => ⟨rfl, rfl, fun hs => (nomatch hs)⟩
  | finalize =>
    exact h.of_rel (RegionsRel.updateRegion CancelKept.refl
      fun _ _ => ⟨rfl, rfl, fun hs => (nomatch hs)⟩) rfl rfl
  | @runSync r record closure id panics =>
    have hrest := rest_ran s r id panics
    refine h.of_rel ((records_ran s r id panics).mono ?_) (by rw [hrest]) (by rw [hrest])
    rintro _ _ ⟨finalizers, outcome, rfl⟩
    exact ⟨rfl, rfl, fun hs => hs⟩
  | @startAsync r record future id rest ids t s₁ hregion hstate hidle hstack hids hspawn =>
    have hdropped : ReasonInv X (s.dropTop r) :=
      h.of_rel (RegionsRel.updateRegion CancelKept.refl fun _ _ => ⟨rfl, rfl, fun hs => hs⟩) rfl rfl
    refine hdropped.createTask hspawn (fun _ => rfl) (fun _ => rfl) (fun u hnone => ?_) fun _ => ?_
    · change update s₁.asyncFinalizerTasks t (some id) u = none at hnone
      by_cases hut : u = t
      · rw [hut, update_self] at hnone
        cases hnone
      · rw [update_of_ne hut, hspawn.rest] at hnone
        exact hnone
    · show update s₁.asyncFinalizerTasks t (some id) t ≠ none
      rw [update_self]
      exact some_ne_none id
  | @asyncDone t r id =>
    obtain ⟨t', heq, hX⟩ := hnot rfl rfl
    cases heq
    refine h.frame (fun q record hq => .inl ⟨record, hq, .refl record⟩)
      (fun u task hu => ⟨task, hu, .refl task⟩) fun u hnone hu => ?_
    have hut : u ≠ t := fun heq => hu (heq ▸ hX)
    change update s.asyncFinalizerTasks t none u = none at hnone
    rwa [update_of_ne hut] at hnone
  | @removeTask t r outcome howner =>
    obtain ⟨_, tasks, hrecycle, hspec⟩ := s.recycleTask_spec hinv.shape.tasks howner
    have hrecycled : ReasonInv X (s.recycleTask t) := by
      rw [hrecycle]
      refine h.frame (fun q record hq => .inl ⟨record, hq, .refl record⟩) (fun u task' hu => ?_)
        fun _ hnone _ => hnone
      have hget := (hspec.get u.arenaIndex).symm.trans hu
      split at hget
      · cases hget
      · exact ⟨task', hget, .refl task'⟩
    refine hrecycled.updateRegion fun record _ => ?_
    cases outcome <;> exact ⟨rfl, rfl, id⟩
  | @close r record hregion hstate hquiet =>
    obtain ⟨⟨⟨⟩⟩, tables, heq, hremoved, hfinished⟩ :=
      hinv.close_spec record.completeClose.1.closeOutcome hregion hstate hquiet
    obtain ⟨-, rfl, -, -, -, -, rfl, -⟩ := hfinished
    rw [heq]
    refine h.frame (fun q record' hq => ?_) (fun _ task hu => ⟨task, hu, .refl task⟩)
      fun _ hnone _ => hnone
    obtain ⟨old, children, hold, rfl⟩ := Inv.regionRemoved_back hremoved hq
    exact .inl ⟨old, hold, ⟨rfl, rfl, id⟩⟩
  | recordRun => exact h.of_rel (.of_eq CancelKept.refl fun _ => rfl) rfl rfl
  | settings hs =>
    rw [hs]
    exact h.of_rel (.of_eq CancelKept.refl fun _ => rfl) rfl rfl
  | rearrange hcontents =>
    refine h.frame (fun q record hq => .inl ⟨record, hcontents.region q ▸ hq, .refl record⟩)
      (fun u task hu => ⟨task, hcontents.task u ▸ hu, .refl task⟩) fun u hnone _ => ?_
    rw [hcontents.rest] at hnone
    exact hnone

theorem ReasonInv.via {K : ChangeLabel → Prop} (hinv : Inv s) (h : ReasonInv X s)
    (hvia : Via K s s')
    (hK : ∀ label, K label → label.isTame = true ∨ ∃ t, label = .asyncDone t ∧ X t) :
    ReasonInv X s' :=
  (hvia.invariant (I := fun u => Inv u ∧ ReasonInv X u) ⟨hinv, h⟩
    fun _ label _ hlabel hu hchange =>
      ⟨hu.1.change hchange, hu.2.change hu.1 hchange (hK label hlabel)⟩).2

section Request

variable {r : RegionId} {reason : CancelReason} {reasonOf : RegionId → CancelReason}
  {scheduled : List (TaskId × Nat)}

/-- A region of the subtree after the first two passes. -/
theorem Cancelled.region (hinv : Inv s) (h : Cancelled s r reason reasonOf scheduled s')
    {q : RegionId} {record' : RegionRecord} (hq : Below s.node r q)
    (hregion : s'.region q = some record') :
    ∃ record, s.region q = some record ∧ RegionCancelled (reasonOf q) record record' := by
  rw [h.inside q hq] at hregion
  obtain ⟨record, hrecord, rfl⟩ := map_eq_some_iff.mp hregion
  exact ⟨record, hrecord, regionCancelled_cancelRegion _ record
    (hinv.shape.named q record hrecord).2⟩

/-- Every task keeps its owner; those of the subtree have got the request. -/
theorem Cancelled.task (h : Cancelled s r reason reasonOf scheduled s') {t : TaskId}
    {task' : TaskRecord} (ht : s'.task t = some task') :
    ∃ task, s.task t = some task ∧ task'.owner = task.owner ∧
      (Below s.node r task.owner → task' = (task.requestCancel (reasonOf task.owner)).1) ∧
      (¬ Below s.node r task.owner → task' = task) := by
  cases hold : s.task t with
  | none =>
    have hnone : s.owner t = none := congrArg _ hold
    rw [h.taskOutside t fun q hq => absurd (hnone.symm.trans hq) (some_ne_none q).symm, hold] at ht
    cases ht
  | some task =>
    have howner := s.owner_of_task hold
    refine ⟨task, rfl, ?_⟩
    by_cases hq : Below s.node r task.owner
    · rw [h.taskInside t task.owner howner hq, hold] at ht
      cases ht
      exact ⟨(TaskProgress.requestCancel task _ _).owner, fun _ => rfl, fun hnot => absurd hq hnot⟩
    · rw [h.taskOutside t fun q hq' => some.inj (howner.symm.trans hq') ▸ hq, hold] at ht
      cases ht
      exact ⟨rfl, fun hin => absurd hin hq, fun _ => rfl⟩

theorem ReasonInv.cancelled (hinv : Inv s) (h : ReasonInv X s)
    (hc : Cancelled s r reason reasonOf scheduled s') :
    ReasonInv X s' := by
  constructor
  case closing =>
    intro q record' new hq hnew
    by_cases hbelow : Below s.node r q
    · obtain ⟨record, -, hcancelled⟩ := hc.region hinv hbelow hq
      exact hcancelled.state
    · rw [hc.outside q hbelow] at hq
      exact h.closing q record' new hq hnew
  case task =>
    intro t task' record' new ht hq hnew hnone hX
    obtain ⟨task, htask, howner, hinside, houtside⟩ := hc.task ht
    have hnone' : s.asyncFinalizerTasks t = none := by
      rw [hc.rest] at hnone
      exact hnone
    rw [howner] at hq
    by_cases hbelow : Below s.node r task.owner
    · obtain rfl := hinside hbelow
      obtain ⟨record, hrecord, hcancelled⟩ := hc.region hinv hbelow hq
      obtain ⟨new', hnew', hfirst, hmax⟩ := hcancelled.reason
      cases hnew.symm.trans hnew'
      have hcovered := covered_requestCancel task (reasonOf task.owner)
      cases hreason : record.cancelReason with
      | none => exact hfirst hreason ▸ hcovered
      | some old =>
        have hold := h.task t task record old htask hrecord hreason hnone' hX
        exact (hold.progress (.requestCancel task _ _)).max hcovered (hmax old hreason)
    · obtain rfl := houtside hbelow
      rw [hc.outside _ hbelow] at hq
      exact h.task t task' record' new htask hq hnew hnone' hX
  case child =>
    intro q record' p parent' hq hp hpr hreason
    by_cases hbelow : Below s.node r q
    · obtain ⟨record, -, hcancelled⟩ := hc.region hinv hbelow hq
      obtain ⟨new, hnew, -⟩ := hcancelled.reason
      exact hnew ▸ some_ne_none new
    · rw [hc.outside q hbelow] at hq
      have hparent : ¬ Below s.node r p := fun hin =>
        hbelow (hin.tail ⟨record'.node, s.node_of_region hq, hp⟩)
      rw [hc.outside p hparent] at hpr
      exact h.child q record' p parent' hq hp hpr hreason

end Request

theorem AdvanceLabel.isTame {A : RegionId → Prop}
    (h : AdvanceLabel A label) : label.isTame = true := by
  cases h <;> rfl

theorem PlainLabel.isTame (h : PlainLabel label) : label.isTame = true := by
  cases label <;> first | rfl | exact absurd h Bool.false_ne_true

theorem reasonInv_step {event : RuntimeEvent} (hinv : Inv s) (h : ReasonInv (fun _ => False) s)
    (hstep : RuntimeStep s event s') :
    ReasonInv (fun _ => False) s' := by
  have hvia := step_via hinv hstep
  obtain ⟨op, reply⟩ := event
  cases op with
  | cancelRequest r reason =>
    obtain ⟨reasonOf, scheduled, s₁, s₂, hend, hcancelled, hinv₁, hadvance⟩ :=
      cancelRequest_cancelled hinv r reason
    have hexec : s.exec (.cancelRequest r reason) = .ok (.scheduled scheduled) s₂ := by
      show replying _ (s.cancelRequest r reason) = _
      rw [hend]
      rfl
    obtain ⟨-, rfl⟩ := hstep.eq_of_ok hexec
    exact (h.cancelled hinv hcancelled).via hinv₁ hadvance fun _ hlabel => .inl hlabel.isTame
  | taskCompleted t =>
    have hends := taskCompleted_ends hinv t
    have hexec : s.exec (.taskCompleted t) = replying _ (s.taskCompleted t) := rfl
    cases hflow : s.taskCompleted t with
    | ok waiters s₁ =>
      rw [hflow] at hends hexec
      obtain ⟨-, rfl⟩ := hstep.eq_of_ok hexec
      obtain ⟨hcompleted, hgone⟩ := hends
      -- the task may lose its barrier on the way, but it is gone at the end
      have hexempt : ReasonInv (· = t) s' :=
        ReasonInv.via hinv ⟨h.closing, fun u task record reason hu hr hreason hnone _ =>
          h.task u task record reason hu hr hreason hnone id, h.child⟩ hcompleted
          fun label hlabel => hlabel.imp PlainLabel.isTame fun heq => ⟨t, heq, rfl⟩
      refine ⟨hexempt.closing, fun u task record reason hu hr hreason hnone _ => ?_, hexempt.child⟩
      refine hexempt.task u task record reason hu hr hreason hnone fun heq => ?_
      rw [heq, hgone] at hu
      cases hu
    | panic cause s₁ =>
      rw [hflow] at hends hexec
      cases hstep with
      | returned hret => cases hret.symm.trans hexec
      | leaked hret =>
        cases hret.symm.trans hexec
        exact h.via hinv hends fun _ hlabel => .inl (PlainLabel.isTame hlabel)
    | outOfFuel =>
      rw [hflow] at hexec
      cases hstep with
      | returned hret | leaked hret => cases hret.symm.trans hexec
  | registerFinalizer r finalizer => exact h.via hinv hvia fun _ hlabel => .inl (hlabel ▸ rfl)
  | runSyncFinalizers r | popRegionFinalizer r =>
    refine h.via hinv hvia fun _ hlabel => .inl ?_
    rcases hlabel with rfl | rfl | rfl <;> rfl
  | _ => exact h.via hinv hvia fun _ hlabel => .inl (PlainLabel.isTame hlabel)

theorem reasonInv_run {history : List RuntimeEvent} (hrun : runtimeSystem.Run .new history s) :
    ReasonInv (fun _ => False) s := by
  have hnew : ReasonInv (fun _ => False) .new :=
    ⟨fun _ _ _ hr => (nomatch hr), fun _ _ _ _ ht => (nomatch ht), fun _ _ _ _ hr => (nomatch hr)⟩
  exact (hrun.invariant (I := fun u => Inv u ∧ ReasonInv (fun _ => False) u) ⟨.new, hnew⟩
    fun _ _ _ hu hstep => ⟨hu.1.via (step_via hu.1 hstep), reasonInv_step hu.1 hu.2 hstep⟩).2

end ReasonInv

/-! ## Main result -/

/-- The severity a request gives to the tasks of a region of the subtree. -/
def requestSeverity (r : RegionId) (reason : CancelReason) (q : RegionId) : Nat :=
  if q = r then reason.severity else CancelKind.parentCancelled.severity

theorem kind_withCauseLimited (reason cause : CancelReason) (config : CancelAttributionConfig) :
    (reason.withCauseLimited cause config).kind = reason.kind := by
  simp only [CancelReason.withCauseLimited, CancelReason.withTruncatedCause]
  split_ifs <;> rfl

theorem Cancelled.severity {s s' : RuntimeState} {r : RegionId} {reason : CancelReason}
    {reasonOf : RegionId → CancelReason} {scheduled : List (TaskId × Nat)}
    (h : Cancelled s r reason reasonOf scheduled s') {q : RegionId} (hq : Below s.node r q) :
    (reasonOf q).severity = requestSeverity r reason q := by
  unfold requestSeverity
  split_ifs with hqr
  · rw [hqr, h.own]
  · rcases Relation.ReflTransGen.cases_tail hq with heq | ⟨p, hp, hqp⟩
    · exact absurd heq hqr
    · rw [h.chained q p hp hqp, CancelReason.severity, chainedReason, kind_withCauseLimited]
      rfl

/-- The effect of a request for `r`, from `s` to `s'`. -/
structure CancelOk (s : RuntimeState) (r : RegionId) (reason : CancelReason)
    (scheduled : List (TaskId × Nat)) (s' : RuntimeState) : Prop where
  /-- Live tasks of the subtree are cancelling, with at least the severity of the request;
  for tasks that are not finalizer tasks, with at least the severity of their region. -/
  task : ∀ t task', s'.task t = some task' → Below s.node r task'.owner →
    task'.state.isTerminal = true ∨ task'.state.isCancelling = true ∧
      ∃ taskReason, task'.cancelReason = some taskReason ∧
        requestSeverity r reason task'.owner ≤ taskReason.severity ∧
        (s.asyncFinalizerTasks t = none → ∀ record' regionReason,
          s'.region task'.owner = some record' → record'.cancelReason = some regionReason →
            regionReason.severity ≤ taskReason.severity)
  /-- No region of the subtree is open. -/
  region : ∀ q record', Below s.node r q → s'.region q = some record' → record'.state ≠ .opened
  /-- A descendant without an earlier reason has one that continues with its parent's. -/
  chained : ∀ q record p, Below s.node r p → s.region q = some record → record.parent = some p →
    record.cancelReason = none → ∀ record', s'.region q = some record' →
      ∃ parent' parentReason, s'.region p = some parent' ∧
        parent'.cancelReason = some parentReason ∧
        record'.cancelReason = some (((CancelReason.parentCancelled.withRegion p).withTimestamp
          reason.timestamp).withCauseLimited parentReason s.cancelAttribution)
  /-- The result lists the cancelling tasks of the subtree, each once. -/
  scheduled : (scheduled.map (·.1)).Nodup ∧ ∀ t, t ∈ scheduled.map (·.1) ↔
    ∃ task', s'.task t = some task' ∧ Below s.node r task'.owner ∧
      task'.state.isCancelling = true
  /-- Other tasks are as they were. -/
  taskFrame : ∀ t, (∀ q, s.owner t = some q → ¬ Below s.node r q) → s'.task t = s.task t
  /-- Other regions are as they were, but for the ancestors of `r`. -/
  regionFrame : ∀ q, ¬ Below s.node r q → ¬ Below s.node q r → s'.region q = s.region q
  /-- An open ancestor loses at most closed children. -/
  ancestor : ∀ q record, ¬ Below s.node r q → s.region q = some record →
    record.state = .opened → ∃ children, s'.region q = some { record with children := children }

/-- A root with a task, and a child with a task; the child is already closing. -/
def nestedScopes : List RuntimeOp :=
  let root : RegionId := ⟨⟨0, 0⟩⟩
  let child : RegionId := ⟨⟨1, 0⟩⟩
  [.createRootRegion .infinite, .createChildRegion root .infinite none,
    .createTask root .infinite, .createTask child .infinite, .closeRegion child]

/-- A cancelled region whose asynchronous finalizer is running. -/
def runningFinalizer : List RuntimeOp :=
  let root : RegionId := ⟨⟨0, 0⟩⟩
  [.createRootRegion .infinite, .registerFinalizer root (.async 7),
    .cancelRequest root (.new .shutdown), .drainReadyAsyncFinalizers]

/-- A region that waits for its only child. -/
def drainingParent : List RuntimeOp :=
  let root : RegionId := ⟨⟨0, 0⟩⟩
  [.createRootRegion .infinite, .createChildRegion root .infinite none, .closeRegion root,
    .advanceRegionState root]

/-- Cancels the other tasks of the region of a child; a region that is not there has none. -/
def RuntimeState.cancelSiblingTasks (s : RuntimeState) (region : RegionId) (child : TaskId)
    (reason : CancelReason) : List (TaskId × Nat) × RuntimeState :=
  cancelTasks reason ((s.tasksOf region).filter (· ≠ child)) s

/-- In every run, a request for the siblings of a task keeps the invariant, leaves nothing of
the region uncancelled but the task itself, returns the siblings that are being cancelled, each
once, and changes no other task and no other table. -/
theorem siblings_cancelled {history : List RuntimeEvent} {s : RuntimeState}
    (hrun : runtimeSystem.Run .new history s) (r : RegionId) (child : TaskId)
    (reason : CancelReason) :
    let out := s.cancelSiblingTasks r child reason
    Inv out.2 ∧ out.2 = { s with tasks := out.2.tasks } ∧ (out.1.map (·.1)).Nodup ∧
      ∀ t task', out.2.task t = some task' →
        if s.owner t = some r ∧ t ≠ child then Covered task' reason ∧
          (t ∈ out.1.map (·.1) ↔ task'.state.isCancelling = true)
        else s.task t = some task' ∧ t ∉ out.1.map (·.1) := by
  intro out
  have hinv := inv_run hrun
  have hout : Requested (fun _ => reason) ((s.tasksOf r).filter (· ≠ child)) s out.1 out.2 :=
    cancelTasks_requested reason _ s ((tasksOf_nodup hinv r).filter _) fun _ _ => rfl
  refine ⟨hinv.via (cancelTasks_via reason _ s), hout.rest, hout.nodup, fun t task' ht => ?_⟩
  have hmem : t ∈ (s.tasksOf r).filter (· ≠ child) ↔ s.owner t = some r ∧ t ≠ child := by
    rw [mem_filter, mem_tasksOf_iff hinv, decide_eq_true_eq]
  have htask := (hout.task t).symm.trans ht
  rw [hout.mem, hmem, ht]
  split_ifs with hsibling
  · rw [if_pos (hmem.mpr hsibling)] at htask
    obtain ⟨task, -, rfl⟩ := map_eq_some_iff.mp htask
    exact ⟨covered_requestCancel task reason, by simp [hsibling]⟩
  · rw [if_neg (mt hmem.mp hsibling)] at htask
    exact ⟨htask, fun hin => hsibling hin.1⟩

/-- Two tasks of a region: the second one is cancelled for the first. -/
theorem siblings_cancelled_two_tasks :
    let s := (perform [.createRootRegion .infinite, .createTask ⟨⟨0, 0⟩⟩ .infinite,
      .createTask ⟨⟨0, 0⟩⟩ .infinite] .new).2
    let out := s.cancelSiblingTasks ⟨⟨0, 0⟩⟩ ⟨⟨0, 0⟩⟩ (.new .failFast)
    out.1.map (·.1) = [⟨⟨1, 0⟩⟩] ∧ Inv out.2 :=
  ⟨by decide +kernel, (siblings_cancelled (perform_run _ .new) _ _ _).1⟩

end Asupersync
