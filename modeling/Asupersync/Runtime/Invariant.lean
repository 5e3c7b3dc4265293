import Mathlib.Data.Option.Defs
import Asupersync.Runtime.Changes

/-!
# The invariant of the runtime state

**Components.**
* `Shape`: regions and tasks form an ownership forest.
* `Accounting`: the obligation counters of the regions agree with the obligation
  table, and reserved obligations are held by live tasks of their region.
* `Stacks`: the finalizer stacks of the regions and the stacks of finalizer numbers
  have the same height, and a barrier belongs to one running finalizer task.
* `Quiescent`: what holds of a region in the tables at its close.

**Results.**  `Inv.change`: every change keeps the invariant.  Each component has a
`frame` lemma with what it depends on; a change is then looked at only in the
components it touches.
-/

namespace Asupersync

open Lib

/-- The region is there and finalizing. -/
def RuntimeTables.isFinalizing (s : RuntimeTables) (r : RegionId) : Prop :=
  ∃ record, s.region r = some record ∧ record.state = .finalizing

structure Shape (s : RuntimeState) : Prop where
  regions : s.regions.WellFormed
  tasks : s.tasks.WellFormed
  forest : Forest s.node s.owner
  named : ∀ r record, s.region r = some record → record.id = r ∧ record.state ≠ .closed

structure Accounting (s : RuntimeState) : Prop where
  table : s.obligations.obligations.WellFormed
  counter : ∀ r record, s.region r = some record →
    record.pendingObligations = s.obligations.reserved r ∧ record.doubleResolveCount = 0
  holder : ∀ o ob, s.obligations.get o = some ob → ob.isPending = true →
    s.owner ob.holder = some ob.region
  indexed : ∀ o ob, s.obligations.get o = some ob → ob.isPending = true →
    o ∈ s.obligations.idsForHolder ob.holder
  fenced : ∀ r ∈ s.obligations.finalizedRegions, s.regions.Stale r.arenaIndex

structure Stacks (s : RuntimeState) : Prop where
  aligned : ∀ r, (s.finalizerIds r).length = (s.finalizers r).length
  nodup : s.finalizingRegions.Nodup
  queued : ∀ r ∈ s.finalizingRegions, s.isFinalizing r
  barrier : ∀ r t, s.activeAsyncFinalizers r = some t →
    s.owner t = some r ∧ s.isFinalizing r ∧ s.asyncFinalizerTasks t ≠ none
  async : ∀ t, s.asyncFinalizerTasks t ≠ none →
    ∃ r, s.owner t = some r ∧ s.activeAsyncFinalizers r = some t

/-- The tables at the close of a region: nothing of it is left but its closed record. -/
structure Quiescent (r : RegionId) (s : RuntimeTables) : Prop where
  record : ∃ record, s.region r = some record ∧ record.state = .closed ∧ record.tasks = [] ∧
    record.children = [] ∧ record.finalizers = [] ∧ record.doubleResolveCount = 0
  task : ∀ t record, s.task t = some record → record.owner ≠ r
  child : ∀ q record, s.region q = some record → record.parent ≠ some r
  obligation : ∀ o ob, s.obligation o = some ob → ob.state = .reserved → ob.region ≠ r
  finalizerIds : s.pendingFinalizerIds r = none
  barrier : s.activeAsyncFinalizers r = none
  finalizerTask : ∀ t record, s.task t = some record → s.asyncFinalizerTasks t ≠ none →
    record.owner ≠ r

structure Inv (s : RuntimeState) : Prop where
  shape : Shape s
  accounting : Accounting s
  stack : Stacks s
  closings : ∀ closing ∈ s.closings, Quiescent closing.1 closing.2

/-! ## Records before and after -/

/-- The regions are the same, with records related by `P`. -/
def RegionsRel (P : RegionRecord → RegionRecord → Prop) (s s' : RuntimeState) : Prop :=
  ∀ r, Option.Rel P (s.region r) (s'.region r)

structure SameNode (record record' : RegionRecord) : Prop where
  id : record'.id = record.id
  node : record'.node = record.node
  notClosed : record.state ≠ .closed → record'.state ≠ .closed

structure SameLedger (record record' : RegionRecord) : Prop where
  pending : record'.pendingObligations = record.pendingObligations
  doubleResolve : record'.doubleResolveCount = record.doubleResolveCount

structure SameStack (record record' : RegionRecord) : Prop where
  finalizers : record'.finalizers = record.finalizers
  finalizing : record.state = .finalizing → record'.state = .finalizing

/-- Everything the invariant reads is kept. -/
structure Kept (record record' : RegionRecord) : Prop where
  node : SameNode record record'
  ledger : SameLedger record record'
  stack : SameStack record record'

section

variable (record : RegionRecord)

theorem SameNode.refl : SameNode record record := ⟨rfl, rfl, fun h => h⟩

theorem SameLedger.refl : SameLedger record record := ⟨rfl, rfl⟩

theorem SameStack.refl : SameStack record record := ⟨rfl, id⟩

theorem Kept.refl : Kept record record :=
  ⟨.refl record, .refl record, .refl record⟩

end

section RegionsRel

variable {P Q : RegionRecord → RegionRecord → Prop} {s s' : RuntimeState} {r : RegionId}

theorem RegionsRel.mono (h : RegionsRel P s s') (hPQ : ∀ a b, P a b → Q a b) :
    RegionsRel Q s s' := by
  intro r
  have hrel := h r
  generalize s.region r = old, s'.region r = new at hrel ⊢
  cases hrel with
  | some hP => exact .some (hPQ _ _ hP)
  | none => exact .none

theorem RegionsRel.trans {s'' : RuntimeState} (h : RegionsRel P s s') (h' : RegionsRel P s' s'')
    (htrans : ∀ a b c, P a b → P b c → P a c) :
    RegionsRel P s s'' := by
  intro r
  have hfirst := h r
  have hsecond := h' r
  generalize s.region r = a, s'.region r = b, s''.region r = c at hfirst hsecond ⊢
  cases hfirst with
  | some hP =>
    cases hsecond with
    | some hP' => exact .some (htrans _ _ _ hP hP')
  | none =>
    cases hsecond
    exact .none

theorem RegionsRel.of_eq (hrefl : ∀ record, P record record) (h : ∀ r, s'.region r = s.region r) :
    RegionsRel P s s' := by
  intro r
  rw [h r]
  cases s.region r with
  | none => exact .none
  | some record => exact .some (hrefl record)

theorem RegionsRel.updateRegion {f : RegionRecord → RegionRecord}
    (hrefl : ∀ record, P record record)
    (hf : ∀ record, s.region r = some record → P record (f record)) :
    RegionsRel P s (s.updateRegion r f) := by
  intro q
  rw [RuntimeState.region_updateRegion]
  split_ifs with hq
  · rw [hq]
    cases hr : s.region r with
    | none => exact .none
    | some record => exact .some (hf record hr)
  · cases s.region q with
    | none => exact .none
    | some record => exact .some (hrefl record)

section

variable (h : RegionsRel P s s')

include h

theorem RegionsRel.back {record' : RegionRecord} (hr : s'.region r = some record') :
    ∃ record, s.region r = some record ∧ P record record' := by
  have hrel := h r
  rw [hr] at hrel
  generalize s.region r = old at hrel
  cases hrel with
  | some hP => exact ⟨_, rfl, hP⟩

theorem RegionsRel.forth {record : RegionRecord} (hr : s.region r = some record) :
    ∃ record', s'.region r = some record' ∧ P record record' := by
  have hrel := h r
  rw [hr] at hrel
  generalize s'.region r = new at hrel
  cases hrel with
  | some hP => exact ⟨_, rfl, hP⟩

/-- A view of the records that `P` keeps. -/
theorem RegionsRel.present (hr : s.region r ≠ none) : s'.region r ≠ none := by
  obtain ⟨record, hrecord⟩ := Option.ne_none_iff_exists'.mp hr
  obtain ⟨record', hnew, -⟩ := h.forth hrecord
  exact hnew ▸ Option.some_ne_none record'

theorem RegionsRel.map_eq {β : Type} {view : RegionRecord → β}
    (hview : ∀ a b, P a b → view b = view a) (r : RegionId) :
    (s'.region r).map view = (s.region r).map view := by
  have hrel := h r
  generalize s.region r = old, s'.region r = new at hrel ⊢
  cases hrel with
  | some hP => exact congrArg some (hview _ _ hP)
  | none => rfl

end

theorem RegionsRel.node (h : RegionsRel SameNode s s') (r : RegionId) : s'.node r = s.node r :=
  h.map_eq (fun _ _ hP => hP.node) r

theorem RegionsRel.finalizers (h : RegionsRel SameStack s s') (r : RegionId) :
    s'.finalizers r = s.finalizers r := by
  rw [RuntimeTables.finalizers_eq, RuntimeTables.finalizers_eq,
    h.map_eq (fun _ _ hP => hP.finalizers) r]

theorem RegionsRel.isFinalizing (h : RegionsRel SameStack s s')
    (hr : s.isFinalizing r) : s'.isFinalizing r := by
  obtain ⟨record, hrecord, hstate⟩ := hr
  obtain ⟨record', hrecord', hP⟩ := h.forth hrecord
  exact ⟨record', hrecord', hP.finalizing hstate⟩

end RegionsRel

/-! ## What each component depends on -/

section Frame

variable {s s' : RuntimeState}

theorem Shape.frame (h : Shape s) (hregions : s'.regions.WellFormed) (htasks : s'.tasks.WellFormed)
    (hregion : RegionsRel SameNode s s') (howner : ∀ t, s'.owner t = s.owner t) :
    Shape s' where
  regions := hregions
  tasks := htasks
  forest := h.forest.congr hregion.node howner
  named := by
    intro r record' hr
    obtain ⟨record, hrecord, hP⟩ := hregion.back hr
    obtain ⟨hid, hstate⟩ := h.named r record hrecord
    exact ⟨hP.id.trans hid, hP.notClosed hstate⟩

theorem Accounting.frame
    (h : Accounting s)
    (htable : s'.obligations = s.obligations)
    (hcounter : ∀ r record', s'.region r = some record' →
      record'.pendingObligations = s.obligations.reserved r ∧ record'.doubleResolveCount = 0)
    (howner : ∀ o ob, s.obligations.get o = some ob → ob.isPending = true →
      s'.owner ob.holder = s.owner ob.holder)
    (hstale : ∀ i, s.regions.Stale i → s'.regions.Stale i) :
    Accounting s' where
  table := htable ▸ h.table
  counter := htable ▸ hcounter
  holder := by
    intro o ob ho hpending
    rw [htable] at ho
    exact (howner o ob ho hpending).trans (h.holder o ob ho hpending)
  indexed := by
    rw [htable]
    exact h.indexed
  fenced := by
    rw [htable]
    exact fun r hr => hstale _ (h.fenced r hr)

/-- The barriers stay, and the regions in `keep` stay finalizing. -/
theorem Stacks.frameOn (h : Stacks s) {keep : RegionId → Prop}
    (haligned : ∀ r, (s'.finalizerIds r).length = (s'.finalizers r).length)
    (hnodup : s'.finalizingRegions.Nodup)
    (hqueue : ∀ r ∈ s'.finalizingRegions, keep r ∧ r ∈ s.finalizingRegions)
    (hkeep : ∀ r t, s.activeAsyncFinalizers r = some t → keep r)
    (hfinalizing : ∀ r, keep r → s.isFinalizing r → s'.isFinalizing r)
    (hactive : s'.activeAsyncFinalizers = s.activeAsyncFinalizers)
    (htasks : s'.asyncFinalizerTasks = s.asyncFinalizerTasks)
    (howner : ∀ t r, s.owner t = some r → s.asyncFinalizerTasks t ≠ none → s'.owner t = some r) :
    Stacks s' where
  aligned := haligned
  nodup := hnodup
  queued := by
    intro r hr
    obtain ⟨hkept, hr⟩ := hqueue r hr
    exact hfinalizing r hkept (h.queued r hr)
  barrier := by
    intro r t hr
    rw [hactive] at hr
    obtain ⟨hown, hstate, htask⟩ := h.barrier r t hr
    exact ⟨howner t r hown htask, hfinalizing r (hkeep r t hr) hstate, htasks ▸ htask⟩
  async := by
    intro t ht
    rw [htasks] at ht
    obtain ⟨r, hown, hr⟩ := h.async t ht
    exact ⟨r, howner t r hown ht, hactive ▸ hr⟩

theorem Stacks.frame (h : Stacks s) (hstack : ∀ r, s'.finalizers r = s.finalizers r)
    (hids : ∀ r, s'.finalizerIds r = s.finalizerIds r)
    (hfinalizing : ∀ r, s.isFinalizing r → s'.isFinalizing r)
    (hqueue : s'.finalizingRegions = s.finalizingRegions)
    (hactive : s'.activeAsyncFinalizers = s.activeAsyncFinalizers)
    (htasks : s'.asyncFinalizerTasks = s.asyncFinalizerTasks)
    (howner : ∀ t r, s.owner t = some r → s.asyncFinalizerTasks t ≠ none → s'.owner t = some r) :
    Stacks s' := by
  refine h.frameOn (fun r => ?_) (hqueue ▸ h.nodup) (fun r hr => ⟨trivial, hqueue ▸ hr⟩)
    (fun _ _ _ => trivial) (fun r _ => hfinalizing r) hactive htasks howner
  rw [hstack, hids]
  exact h.aligned r

/-- What the invariant reads beside the regions and the tasks. -/
structure SameBooks (s s' : RuntimeState) : Prop where
  obligations : s'.obligations = s.obligations
  finalizerIds : s'.pendingFinalizerIds = s.pendingFinalizerIds
  queue : s'.finalizingRegions = s.finalizingRegions
  active : s'.activeAsyncFinalizers = s.activeAsyncFinalizers
  tasks : s'.asyncFinalizerTasks = s.asyncFinalizerTasks
  closings : s'.closings = s.closings

/-- The forest changes, and nothing else the invariant reads.  A task that runs a finalizer
or holds an obligation stays where it is. -/
theorem Inv.regroup (h : Inv s) (hregions : s'.regions.WellFormed) (htasks : s'.tasks.WellFormed)
    (hforest : Forest s'.node s'.owner)
    (hregion : RegionsRel (fun a b => (b.id = a.id ∧ (a.state ≠ .closed → b.state ≠ .closed)) ∧
      SameLedger a b ∧ SameStack a b) s s')
    (howner : ∀ t r, s.owner t = some r → (s.asyncFinalizerTasks t ≠ none ∨
      ∃ o ob, s.obligations.get o = some ob ∧ ob.isPending = true ∧ ob.holder = t) →
      s'.owner t = some r)
    (hstale : ∀ i, s.regions.Stale i → s'.regions.Stale i) (hbooks : SameBooks s s') :
    Inv s' := by
  have hstack : RegionsRel SameStack s s' := hregion.mono fun _ _ hP => hP.2.2
  constructor
  case shape =>
    refine ⟨hregions, htasks, hforest, fun r record' hr => ?_⟩
    obtain ⟨record, hrecord, ⟨hid, hclosed⟩, -⟩ := hregion.back hr
    exact (h.shape.named r record hrecord).imp hid.trans hclosed
  case accounting =>
    refine h.accounting.frame hbooks.obligations (fun r record' hr => ?_) (fun o ob ho hob => ?_)
      hstale
    · obtain ⟨record, hrecord, -, hledger, -⟩ := hregion.back hr
      rw [hledger.pending, hledger.doubleResolve]
      exact h.accounting.counter r record hrecord
    · have hheld := h.accounting.holder o ob ho hob
      exact (howner _ _ hheld (.inr ⟨o, ob, ho, hob, rfl⟩)).trans hheld.symm
  case stack =>
    refine h.stack.frame hstack.finalizers (fun r => ?_) (fun _ => hstack.isFinalizing)
      hbooks.queue hbooks.active hbooks.tasks fun t r ht hasync => howner t r ht (.inl hasync)
    unfold RuntimeTables.finalizerIds
    rw [hbooks.finalizerIds]
  case closings => exact hbooks.closings ▸ h.closings

/-- A change that keeps everything the invariant reads. -/
theorem Inv.frame (h : Inv s) (hregions : s'.regions.WellFormed) (htasks : s'.tasks.WellFormed)
    (hregion : RegionsRel Kept s s') (howner : ∀ t, s'.owner t = s.owner t)
    (hstale : ∀ i, s.regions.Stale i → s'.regions.Stale i) (hbooks : SameBooks s s') :
    Inv s' := by
  have hnode : RegionsRel SameNode s s' := hregion.mono fun _ _ hP => hP.node
  refine h.regroup hregions htasks (h.shape.forest.congr hnode.node howner) ?_
    (fun t _ ht _ => (howner t).trans ht) hstale hbooks
  exact hregion.mono fun _ _ hP => ⟨⟨hP.node.id, hP.node.notClosed⟩, hP.ledger, hP.stack⟩

end Frame

end Asupersync
