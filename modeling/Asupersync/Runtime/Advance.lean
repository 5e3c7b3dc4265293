import Asupersync.Runtime.Preservation

/-!
# Advancing a region

`Spec K s Q flow` says that code started in `s` ends, that it is made of changes with
labels in `K`, and that its value meets `Q`.  A panic over leaked obligations leaves
such changes behind too; the panics of the finalizer stacks do not occur.

**Results.**
* `syncFinalizerLoop_spec`: the loop runs synchronous finalizers down to an
  asynchronous one or to the end of the stack.
* `advanceRegionState_spec`: advancing a region ends and touches only the region and
  its ancestors.  Leak handling is never reached from here: a finalizing region
  without tasks has no reserved obligation.
-/

namespace Asupersync

open Lib RuntimeState List Arena RuntimeTables

section Spec

variable {α β : Type} {K K' : ChangeLabel → Prop} {s s' : RuntimeState}

/-- What may hold when code started in `s` panics. -/
def PanicOk (K : ChangeLabel → Prop) (s : RuntimeState) : RuntimePanic → RuntimeState → Prop
  | .obligationLeaks, s' => Via K s s'
  | .arenaOverflow, _ | .finalizerIdOverflow, _ => True
  | .finalizerIdsMissing, _ | .finalizerIdsOutOfSync, _ => False

def Spec (K : ChangeLabel → Prop) (s : RuntimeState) (Q : α → RuntimeState → Prop)
    (flow : RuntimeFlow α) : Prop :=
  flow.Ends (fun value s' => Via K s s' ∧ Q value s') (PanicOk K s)

theorem PanicOk.after {cause : RuntimePanic} {s'' : RuntimeState}
    (h : Via K s s') (hpanic : PanicOk K s' cause s'') : PanicOk K s cause s'' := by
  cases cause with
  | obligationLeaks => exact h.trans hpanic
  | arenaOverflow | finalizerIdOverflow => trivial
  | finalizerIdsMissing | finalizerIdsOutOfSync => exact hpanic

theorem PanicOk.mono {cause : RuntimePanic}
    (h : PanicOk K s cause s') (hK : ∀ label, K label → K' label) : PanicOk K' s cause s' := by
  cases cause with
  | obligationLeaks => exact Via.mono h hK
  | arenaOverflow | finalizerIdOverflow => trivial
  | finalizerIdsMissing | finalizerIdsOutOfSync => exact h

variable {Q Q' : α → RuntimeState → Prop} {flow : RuntimeFlow α} {R : β → RuntimeState → Prop}
  {next : α → RuntimeState → RuntimeFlow β}

theorem PanicOk.cause {cause : RuntimePanic} (h : PanicOk K s cause s') :
    cause ≠ .finalizerIdsMissing ∧ cause ≠ .finalizerIdsOutOfSync := by
  cases cause with
  | finalizerIdsMissing | finalizerIdsOutOfSync => exact absurd h id
  | _ => exact ⟨by decide, by decide⟩

theorem Spec.mono (h : Spec K s Q flow) (hK : ∀ label, K label → K' label)
    (hQ : ∀ value s', Via K s s' → Q value s' → Q' value s') :
    Spec K' s Q' flow :=
  Flow.Ends.mono h (fun value s' hvalue => ⟨hvalue.1.mono hK, hQ value s' hvalue.1 hvalue.2⟩)
    fun _ _ hpanic => hpanic.mono hK

/-- Changes made before the code runs. -/
theorem Spec.after (h : Via K s s') (hflow : Spec K s' Q flow) : Spec K s Q flow :=
  Flow.Ends.mono hflow (fun _ _ hvalue => ⟨h.trans hvalue.1, hvalue.2⟩)
    fun _ _ hpanic => hpanic.after h

theorem Spec.bind (h : Spec K s Q flow)
    (hnext : ∀ value s', Via K s s' → Q value s' → Spec K s' R (next value s')) :
    Spec K s R (flow.bind next) :=
  Flow.Ends.bind h fun value s' hvalue => (hnext value s' hvalue.1 hvalue.2).after hvalue.1

theorem Spec.ok {value : α} (h : Via K s s') (hQ : Q value s') :
    Spec K s Q (.ok value s') := ⟨h, hQ⟩

/-- The code returns; it neither panics nor runs out of fuel. -/
def Returns (K : ChangeLabel → Prop) (s : RuntimeState) (Q : α → RuntimeState → Prop)
    (flow : RuntimeFlow α) : Prop :=
  flow.Ends (fun value s' => Via K s s' ∧ Q value s') fun _ _ => False

theorem Returns.spec (h : Returns K s Q flow) : Spec K s Q flow :=
  Flow.Ends.mono h (fun _ _ hvalue => hvalue) fun _ _ hpanic => hpanic.elim

theorem Returns.mono (h : Returns K s Q flow) (hK : ∀ label, K label → K' label)
    (hQ : ∀ value s', Via K s s' → Q value s' → Q' value s') :
    Returns K' s Q' flow :=
  Flow.Ends.mono h (fun value s' hvalue => ⟨hvalue.1.mono hK, hQ value s' hvalue.1 hvalue.2⟩)
    fun _ _ hpanic => hpanic

theorem Returns.after (h : Via K s s') (hflow : Returns K s' Q flow) : Returns K s Q flow :=
  Flow.Ends.mono hflow (fun _ _ hvalue => ⟨h.trans hvalue.1, hvalue.2⟩) fun _ _ hpanic => hpanic

theorem Returns.bind (h : Returns K s Q flow)
    (hnext : ∀ value s', Via K s s' → Q value s' → Returns K s' R (next value s')) :
    Returns K s R (flow.bind next) :=
  Flow.Ends.bind h fun value s' hvalue => (hnext value s' hvalue.1 hvalue.2).after hvalue.1

theorem Returns.ok {value : α} (h : Via K s s') (hQ : Q value s') :
    Returns K s Q (.ok value s') := ⟨h, hQ⟩

/-- A loop whose turns keep `I`. -/
theorem Returns.forEach {I : RuntimeState → Prop} {body : β → RuntimeState → RuntimeFlow Unit}
    {items : List β} (hstart : I s)
    (hbody : ∀ item ∈ items, ∀ u, I u → Returns K u (fun _ u' => I u') (body item u)) :
    Returns K s (fun _ s' => I s') (Flow.forEach body items s) := by
  induction items generalizing s with
  | nil => exact ⟨.refl, hstart⟩
  | cons item rest ih =>
    refine (hbody item mem_cons_self s hstart).bind fun _ s' _ hs' => ?_
    exact ih hs' fun item' hitem' => hbody item' (mem_cons_of_mem _ hitem')

theorem Returns.exists_ok (h : Returns K s Q flow) :
    ∃ value s', flow = .ok value s' ∧ Via K s s' ∧ Q value s' := by
  cases flow with
  | ok value s' => exact ⟨value, s', rfl, h⟩
  | panic cause s' | outOfFuel => exact h.elim

end Spec

/-! ## The finalizer stacks -/

section SyncLoop

variable {s : RuntimeState} {r : RegionId}

/-- The stacks agree, so a pop finds a number for every finalizer. -/
theorem popTrackedFinalizer_cases (h : Inv s) (r : RegionId) :
    (s.popTrackedFinalizer r = .ok none s ∧ s.finalizers r = []) ∨
      ∃ record finalizer rest id ids, s.region r = some record ∧
        record.finalizers = finalizer :: rest ∧ s.pendingFinalizerIds r = some (id :: ids) ∧
        s.popTrackedFinalizer r = .ok (some (id, finalizer)) (s.dropTop r) := by
  have haligned := h.stack.aligned r
  unfold popTrackedFinalizer
  cases hr : s.region r with
  | none => exact .inl ⟨rfl, Inv.finalizers_of_absent hr⟩
  | some record =>
    rw [finalizers_eq, hr] at haligned
    replace haligned : (s.finalizerIds r).length = record.finalizers.length := haligned
    unfold RegionRecord.popFinalizer
    cases hstack : record.finalizers with
    | nil => exact .inl ⟨by simp [hstack], by rw [finalizers_eq, hr, ← hstack]; rfl⟩
    | cons finalizer rest =>
      rw [hstack] at haligned
      have hids : ∃ id ids, s.pendingFinalizerIds r = some (id :: ids) := by
        unfold finalizerIds at haligned
        cases hpending : s.pendingFinalizerIds r with
        | none => simp [hpending] at haligned
        | some ids =>
          cases ids with
          | nil => simp [hpending] at haligned
          | cons id ids => exact ⟨id, ids, rfl⟩
      obtain ⟨id, ids, hids⟩ := hids
      refine .inr ⟨record, finalizer, rest, id, ids, rfl, hstack, hids, ?_⟩
      simp only [hstack, hids]
      unfold dropTop updateRegion
      have hregions : s.regions.modify r.arenaIndex (fun _ =>
          { record with finalizers := rest }) = s.regions.modify r.arenaIndex (fun record =>
          { record with finalizers := record.finalizers.tail }) := by
        refine modify_congr fun value hvalue => ?_
        cases hvalue.symm.trans hr
        rw [hstack]
        rfl
      rw [hregions]
      simp [finalizerIds, hids]

/-- Synchronous finalizers of `r` have run; nothing but its stack, its outcome and the
history has changed. -/
structure SyncRan (r : RegionId) (s s' : RuntimeState) : Prop where
  via : Via (· = .runSync r) s s'
  records : RegionsRel (fun record record' => ∃ finalizers outcome,
    record' = { record with finalizers := finalizers, closeOutcome := outcome }) s s'
  count : ∀ p : RegionState → Bool,
    s'.regions.count (fun record => p record.state) = s.regions.count (fun record => p record.state)
  rest : s' =
    { s with
      regions := s'.regions
      pendingFinalizerIds := s'.pendingFinalizerIds
      finalizerHistory := s'.finalizerHistory }

theorem SyncRan.refl (r : RegionId) (s : RuntimeState) : SyncRan r s s where
  via := .refl
  records := .of_eq (fun record => ⟨record.finalizers, record.closeOutcome, rfl⟩) fun _ => rfl
  count _ := rfl
  rest := rfl

theorem SyncRan.trans {s' s'' : RuntimeState}
    (h : SyncRan r s s') (h' : SyncRan r s' s'') : SyncRan r s s'' where
  via := h.via.trans h'.via
  records := h.records.trans h'.records fun _ _ _ ⟨_, _, hb⟩ ⟨_, _, hc⟩ => ⟨_, _, hb ▸ hc⟩
  count p := (h'.count p).trans (h.count p)
  rest := by
    rw [h'.rest, h.rest]

theorem SyncRan.isFinalizing {r q : RegionId} {s' : RuntimeState}
    (h : SyncRan r s s') (hq : s.isFinalizing q) : s'.isFinalizing q := by
  obtain ⟨record, hrecord, hstate⟩ := hq
  obtain ⟨record', hrecord', _, _, rfl⟩ := h.records.forth hrecord
  exact ⟨_, hrecord', hstate⟩

section Ran

/-! One finalizer has been taken off and run, in whatever state the region is. -/

variable (s) (r : RegionId) (id : Nat) (panics : Option PanicPayload)

theorem records_ran :
    RegionsRel (fun record record' => ∃ finalizers outcome,
      record' = { record with finalizers := finalizers, closeOutcome := outcome }) s
      (((s.dropTop r).recordSyncOutcome r panics).recordFinalizerRun id) := by
  have hkeep : ∀ record : RegionRecord, ∃ finalizers outcome,
      record = { record with finalizers := finalizers, closeOutcome := outcome } :=
    fun record => ⟨record.finalizers, record.closeOutcome, rfl⟩
  cases panics with
  | none => exact .updateRegion hkeep fun record _ => ⟨_, record.closeOutcome, rfl⟩
  | some payload =>
    refine RegionsRel.trans (.updateRegion hkeep fun record _ => ⟨_, record.closeOutcome, rfl⟩)
      (.updateRegion hkeep fun record _ => ⟨record.finalizers, _, rfl⟩) ?_
    rintro _ _ _ ⟨_, _, hb⟩ ⟨_, _, hc⟩
    exact ⟨_, _, hb ▸ hc⟩

theorem finalizers_ran (q : RegionId) :
    (((s.dropTop r).recordSyncOutcome r panics).recordFinalizerRun id).finalizers q =
      if q = r then (s.finalizers r).tail else s.finalizers q := by
  have hdrop := s.finalizers_dropTop r q
  cases panics with
  | none => exact hdrop
  | some payload =>
    have hsame : RegionsRel SameStack (s.dropTop r)
        ((s.dropTop r).recordSyncOutcome r (some payload)) :=
      RegionsRel.updateRegion SameStack.refl fun record _ =>
        (sameLife_recordCloseOutcome record _).kept.stack
    exact (hsame.finalizers q).trans hdrop

theorem finalizerIds_ran (q : RegionId) :
    (((s.dropTop r).recordSyncOutcome r panics).recordFinalizerRun id).finalizerIds q =
      if q = r then (s.finalizerIds r).tail else s.finalizerIds q := by
  cases panics <;> exact s.finalizerIds_dropTop r q

/-- Nothing but the records, the numbers and the history has changed. -/
theorem rest_ran :
    (((s.dropTop r).recordSyncOutcome r panics).recordFinalizerRun id) =
      { s with
        regions :=
          (((s.dropTop r).recordSyncOutcome r panics).recordFinalizerRun id).regions
        pendingFinalizerIds := (s.dropTop r).pendingFinalizerIds
        finalizerHistory := s.finalizerHistory ++ [.ran id s.now] } := by
  cases panics <;> rfl

end Ran

/-- One turn of the loop. -/
theorem syncRan_single {record : RegionRecord} {closure id : Nat}
    {panics : Option PanicPayload} {rest : List Finalizer} {ids : List Nat}
    (hregion : s.region r = some record) (hstate : record.state = .finalizing)
    (hidle : s.activeAsyncFinalizers r = none)
    (hstack : record.finalizers = .sync closure panics :: rest)
    (hids : s.finalizerIds r = id :: ids) :
    SyncRan r s (((s.dropTop r).recordSyncOutcome r panics).recordFinalizerRun id) := by
  constructor
  case via => exact .single (.runSync hregion hstate hidle hstack hids) rfl
  case records => exact records_ran s r id panics
  case count =>
    intro p
    have hfirst : (s.dropTop r).regions.count (fun record => p record.state) =
        s.regions.count (fun record => p record.state) :=
      count_modify_of_eq _ fun _ _ => rfl
    cases panics with
    | none => exact hfirst
    | some payload =>
      have hsecond : ((s.dropTop r).recordSyncOutcome r (some payload)).regions.count
          (fun record => p record.state) =
            (s.dropTop r).regions.count (fun record => p record.state) :=
        count_modify_of_eq _ fun _ _ => rfl
      exact hsecond.trans hfirst
  case rest => cases panics <;> rfl

/-- The end of the loop: the stack is empty, or its top is asynchronous and has been
popped. -/
def SyncEnd (r : RegionId) (s₀ : RuntimeState) (flow : RuntimeFlow (Option (Nat × Finalizer))) :
    Prop :=
  flow = .ok none s₀ ∧ s₀.finalizers r = [] ∨
    ∃ record future rest id ids, s₀.region r = some record ∧
      record.finalizers = .async future :: rest ∧ s₀.pendingFinalizerIds r = some (id :: ids) ∧
      flow = .ok (some (id, .async future)) (s₀.dropTop r)

/-- `J` is what the run of a synchronous finalizer keeps. -/
theorem syncFinalizerLoop_spec {J : RuntimeState → Prop} (hinv : ∀ u, J u → Inv u)
    (hturn : ∀ u record closure panics rest id ids, J u → u.region r = some record →
      record.finalizers = .sync closure panics :: rest →
      u.pendingFinalizerIds r = some (id :: ids) →
        J (((u.dropTop r).recordSyncOutcome r panics).recordFinalizerRun id))
    (fuel : Nat) (hstart : J s) (hfuel : (s.finalizers r).length < fuel) :
    ∃ s₀, J s₀ ∧ SyncEnd r s₀ (syncFinalizerLoop r fuel s) := by
  induction fuel generalizing s with
  | zero => exact absurd hfuel (Nat.not_lt_zero _)
  | succ fuel ih =>
    unfold syncFinalizerLoop
    rcases popTrackedFinalizer_cases (hinv s hstart) r with ⟨hpop, hnil⟩ |
      ⟨record, finalizer, rest, id, ids, hrecord, hstack, hids, hpop⟩
    · rw [hpop]
      exact ⟨s, hstart, .inl ⟨rfl, hnil⟩⟩
    rw [hpop]
    cases finalizer with
    | async future =>
      exact ⟨s, hstart, .inr ⟨record, future, rest, id, ids, hrecord, hstack, hids, rfl⟩⟩
    | sync closure panics =>
      refine ih (hturn s record closure panics rest id ids hstart hrecord hstack hids) ?_
      have hcons : s.finalizers r = .sync closure panics :: rest := by
        rw [finalizers_eq, hrecord, ← hstack]
        rfl
      rw [hcons, length_cons] at hfuel
      rw [finalizers_ran, if_pos rfl, hcons, tail_cons]
      omega

theorem runSyncFinalizersTracked_eq (s : RuntimeState) (r : RegionId) :
    s.runSyncFinalizersTracked r = syncFinalizerLoop r ((s.finalizers r).length + 1) s := by
  unfold runSyncFinalizersTracked finalizers
  cases s.region r <;> rfl

theorem runSyncFinalizersTracked_spec (h : Inv s) (hfinalizing : s.isFinalizing r)
    (hidle : s.activeAsyncFinalizers r = none) :
    ∃ s₀, SyncRan r s s₀ ∧ SyncEnd r s₀ (s.runSyncFinalizersTracked r) := by
  rw [runSyncFinalizersTracked_eq]
  refine syncFinalizerLoop_spec (fun u hu => h.via hu.via) ?_ _ (.refl r s) (Nat.lt_succ_self _)
  intro u record closure panics rest id ids hran hrecord hstack hids
  obtain ⟨record', hrecord', hstate⟩ := hran.isFinalizing hfinalizing
  obtain rfl := Option.some.inj (hrecord'.symm.trans hrecord)
  have hidle' : u.activeAsyncFinalizers r = none := by
    rw [hran.rest]
    exact hidle
  exact hran.trans (syncRan_single hrecord hstate hidle' hstack (u.finalizerIds_of_some hids))

end SyncLoop

/-! ## The advance loop -/

/-- Changes made by advancing regions in `A`. -/
inductive AdvanceLabel (A : RegionId → Prop) : ChangeLabel → Prop
  | drain {r : RegionId} : A r → AdvanceLabel A (.drain r)
  | finalize {r : RegionId} : A r → AdvanceLabel A (.finalize r)
  | runSync {r : RegionId} : A r → AdvanceLabel A (.runSync r)
  | close {r : RegionId} : A r → AdvanceLabel A (.close r)

theorem AdvanceLabel.mono {A B : RegionId → Prop} {label : ChangeLabel}
    (h : AdvanceLabel A label) (hAB : ∀ r, A r → B r) : AdvanceLabel B label := by
  cases h with
  | drain hA => exact .drain (hAB _ hA)
  | finalize hA => exact .finalize (hAB _ hA)
  | runSync hA => exact .runSync (hAB _ hA)
  | close hA => exact .close (hAB _ hA)

/-- The parents of regions in `A` are in `A`. -/
def ParentClosed (A : RegionId → Prop) (s : RuntimeState) : Prop :=
  ∀ q p, A q → HasParent s.node q p → A p

def unfinalized (record : RegionRecord) : Bool := decide (record.state ≠ .finalizing)

/-- A bound for the turns left: the regions, and those that have yet to be finalized. -/
def turnsLeft (s : RuntimeState) : Nat :=
  s.regions.count (fun _ => true) + s.regions.count unfinalized

/-- What advancing keeps of a record: an open region loses at most closed children. -/
structure AdvanceKept (record record' : RegionRecord) : Prop where
  parent : record'.parent = record.parent
  reason : record'.cancelReason = record.cancelReason
  opened : record'.state = .opened ∨ record.state = .opened →
    ∃ children, record' = { record with children := children }

theorem AdvanceKept.refl (record : RegionRecord) : AdvanceKept record record :=
  ⟨rfl, rfl, fun _ => ⟨record.children, rfl⟩⟩

theorem AdvanceKept.trans {a b c : RegionRecord} (h : AdvanceKept a b) (h' : AdvanceKept b c) :
    AdvanceKept a c where
  parent := h'.parent.trans h.parent
  reason := h'.reason.trans h.reason
  opened hopen := by
    have hmiddle : b.state = .opened := by
      rcases hopen with hc | ha
      · obtain ⟨children, rfl⟩ := h'.opened (.inl hc)
        exact hc
      · obtain ⟨children, rfl⟩ := h.opened (.inr ha)
        exact ha
    obtain ⟨children, rfl⟩ := h.opened (.inl hmiddle)
    obtain ⟨children', rfl⟩ := h'.opened (.inr hmiddle)
    exact ⟨children', rfl⟩

/-- Regions in `A` have advanced. -/
structure Advanced (A : RegionId → Prop) (s s' : RuntimeState) : Prop where
  back : ∀ q record', s'.region q = some record' →
    ∃ record, s.region q = some record ∧ AdvanceKept record record'
  stays : ∀ q record, s.region q = some record → record.state = .opened → s'.region q ≠ none
  outside : ∀ q, ¬ A q → s'.region q = s.region q

section Advance

variable {s s' : RuntimeState} {A : RegionId → Prop} {r : RegionId}

theorem turnsLeft_le (s : RuntimeState) : turnsLeft s ≤ 2 * s.regions.slots.length := by
  have hall := count_le (fun _ : RegionRecord => true) s.regions
  have hopen := count_le unfinalized s.regions
  unfold turnsLeft
  omega

theorem SyncRan.turnsLeft (h : SyncRan r s s') : turnsLeft s' = turnsLeft s := by
  have hall := h.count fun _ => true
  have hopen := h.count fun state => decide (state ≠ .finalizing)
  exact congrArg₂ (· + ·) hall hopen

variable {record : RegionRecord}

theorem turnsLeft_finalize (hregion : s.region r = some record)
    (hstate : record.state ≠ .finalizing) :
    turnsLeft (s.updateRegion r fun record => { record with state := .finalizing }) <
      turnsLeft s := by
  have hall : (s.regions.modify r.arenaIndex fun record =>
      { record with state := .finalizing }).count (fun _ => true) =
      s.regions.count fun _ => true := count_modify_of_eq _ fun _ _ => rfl
  have hopen := count_modify (f := fun record : RegionRecord =>
    { record with state := .finalizing }) unfinalized hregion
  rw [if_pos (show unfinalized record = true from decide_eq_true hstate),
    if_neg (show ¬ unfinalized { record with state := .finalizing } = true by
      simp [unfinalized])] at hopen
  show (s.regions.modify r.arenaIndex _).count (fun _ => true) +
    (s.regions.modify r.arenaIndex _).count unfinalized <
      s.regions.count (fun _ => true) + s.regions.count unfinalized
  omega

section Count

/-! Predicates that do not look at children. -/

variable (p : RegionRecord → Bool)
  (hp : ∀ record children, p { record with children := children } = p record)

include hp

theorem count_unlistChild (parent : Option RegionId) :
    (s.unlistChild parent r).regions.count p = s.regions.count p := by
  cases parent with
  | none => rfl
  | some q => exact count_modify_of_eq p fun value _ => hp value _

theorem count_removeRegion (hregion : s.region r = some record) :
    (RegionTable.remove s.regions r).count p + (if p record then 1 else 0) = s.regions.count p := by
  obtain ⟨removed, hremove⟩ : ∃ removed, s.regions.remove r.arenaIndex = some (record, removed) :=
    ⟨_, remove_of_get hregion⟩
  rw [remove_eq_unlistChild s hremove, count_unlistChild p hp]
  exact count_remove p hregion hremove

theorem count_close (outcome : Option TaskOutcome) (h : Inv s)
    (hregion : s.region r = some record) :
    ((s.updateRegion r fun record => record.completeClose.1).finishClose r record.parent
        outcome).regions.count p + (if p record then 1 else 0) = s.regions.count p := by
  obtain ⟨tables, hfinished⟩ := finishClose_spec
    (s.updateRegion r fun record => record.completeClose.1) r record.parent outcome
  have hclosed : (s.updateRegion r fun record => record.completeClose.1).region r =
      some record.completeClose.1 := by
    rw [region_updateRegion_self, hregion]
    rfl
  have hmodified : (s.updateRegion r fun record => record.completeClose.1).regions.count p +
      (if p record then 1 else 0) =
      s.regions.count p + if p record.completeClose.1 then 1 else 0 := count_modify p hregion
  generalize (s.updateRegion r fun record => record.completeClose.1) = closed at *
  have hlive : (closed.unlistChild record.parent r).region r = some record.completeClose.1 := by
    rw [region_unlistChild, if_neg (h.parent_ne_self hregion), hclosed]
  have hremoved := count_removeRegion p hp hlive
  rw [count_unlistChild p hp] at hremoved
  rw [hfinished.regions]
  omega

end Count

theorem turnsLeft_close (outcome : Option TaskOutcome) (h : Inv s)
    (hregion : s.region r = some record) :
    turnsLeft ((s.updateRegion r fun record => record.completeClose.1).finishClose r record.parent
      outcome) < turnsLeft s := by
  have hall := count_close (fun _ => true) (fun _ _ => rfl) outcome h hregion
  have hopen := count_close unfinalized (fun _ _ => rfl) outcome h hregion
  rw [if_pos rfl] at hall
  unfold turnsLeft
  omega

theorem Advanced.of_rel (hrel : RegionsRel AdvanceKept s s')
    (houtside : ∀ q, ¬ A q → s'.region q = s.region q) :
    Advanced A s s' where
  back _ _ hq := hrel.back hq
  stays _ record hq _ := hrel.present (hq ▸ Option.some_ne_none record)
  outside := houtside

theorem Advanced.refl (A : RegionId → Prop) (s : RuntimeState) : Advanced A s s :=
  .of_rel (.of_eq AdvanceKept.refl fun _ => rfl) fun _ _ => rfl

theorem Advanced.trans {s'' : RuntimeState} (h : Advanced A s s') (h' : Advanced A s' s'') :
    Advanced A s s'' where
  back q record'' hq := by
    obtain ⟨record', hq', hkept'⟩ := h'.back q record'' hq
    obtain ⟨record, hq, hkept⟩ := h.back q record' hq'
    exact ⟨record, hq, hkept.trans hkept'⟩
  stays q record hq hopen := by
    obtain ⟨record', hq'⟩ := Option.ne_none_iff_exists'.mp (h.stays q record hq hopen)
    obtain ⟨old, hold, hkept⟩ := h.back q record' hq'
    cases hold.symm.trans hq
    obtain ⟨children, rfl⟩ := hkept.opened (.inr hopen)
    exact h'.stays q _ hq' hopen
  outside q hq := (h'.outside q hq).trans (h.outside q hq)

/-- A region that is not open steps to another state that is not open. -/
theorem Advanced.updateRegion {r : RegionId} {record : RegionRecord}
    {f : RegionRecord → RegionRecord} (hA : A r) (hregion : s.region r = some record)
    (hparent : (f record).parent = record.parent)
    (hreason : (f record).cancelReason = record.cancelReason) (hbefore : record.state ≠ .opened)
    (hafter : (f record).state ≠ .opened) :
    Advanced A s (s.updateRegion r f) := by
  refine .of_rel (RegionsRel.updateRegion AdvanceKept.refl fun record' hrecord' => ?_)
    fun q hq => s.region_updateRegion_of_ne (fun heq : q = r => hq (heq ▸ hA)) f
  cases hrecord'.symm.trans hregion
  exact ⟨hparent, hreason, fun hopen => (hopen.elim hafter hbefore).elim⟩

theorem advanced_change {label : ChangeLabel} (h : Inv s) (hclosed : ParentClosed A s)
    (hlabel : AdvanceLabel A label) (hchange : Change s label s') :
    Advanced A s s' := by
  cases hlabel with
  | drain hA =>
    cases hchange with
    | drain hregion hstate =>
      exact .updateRegion hA hregion rfl rfl (by simp [hstate]) (by simp)
  | finalize hA =>
    cases hchange with
    | @finalize r record hregion hstate =>
      have hopen : record.state ≠ .opened := by
        rcases hstate with hstate | hstate <;> simp [hstate]
      obtain ⟨hback, hstays, houtside⟩ := Advanced.updateRegion
        (f := fun record => { record with state := .finalizing }) hA hregion rfl rfl hopen
        (by simp)
      exact ⟨hback, hstays, houtside⟩
  | @runSync r hA =>
    cases hchange with
    | @runSync _ record closure id panics rest ids hregion hstate =>
      have hother : ∀ q, q ≠ r →
          (((s.dropTop r).recordSyncOutcome r panics).recordFinalizerRun id).region q =
            s.region q := by
        intro q hq
        have hdrop : (s.dropTop r).region q = s.region q :=
          s.region_updateRegion_of_ne hq _
        cases panics with
        | none => exact hdrop
        | some payload =>
          exact ((s.dropTop r).region_updateRegion_of_ne hq _).trans hdrop
      have hrel := records_ran s r id panics
      refine .of_rel (fun q => ?_) fun q hq => hother q fun heq => hq (heq ▸ hA)
      by_cases hq : q = r
      · obtain ⟨record', hrecord', finalizers, outcome, rfl⟩ := hrel.forth hregion
        rw [hq, hregion, hrecord']
        refine .some ⟨rfl, rfl, fun hopen => ?_⟩
        have hnot : record.state = .opened := hopen.elim (fun hs => hs) fun hs => hs
        cases hstate.symm.trans hnot
      · rw [hother q hq]
        cases s.region q with
        | none => exact .none
        | some record => exact .some (.refl record)
  | @close r hA =>
    cases hchange with
    | @close _ record hregion hstate hquiet =>
      obtain ⟨_, -, rfl, hremoved, -⟩ := h.close_spec record.completeClose.1.closeOutcome hregion hstate hquiet
      refine ⟨fun q record' hq => ?_, fun q old hq hopen => ?_, fun q hq => ?_⟩
      · obtain ⟨old, children, hold, rfl⟩ := Inv.regionRemoved_back hremoved hq
        exact ⟨old, hold, rfl, rfl, fun _ => ⟨children, rfl⟩⟩
      · have hqr : q ≠ r := by
          rintro rfl
          cases hq.symm.trans hregion
          cases hstate.symm.trans hopen
        exact (Inv.regionRemoved_other hremoved hqr).present (hq ▸ Option.some_ne_none old)
      · have hqr : q ≠ r := fun heq => hq (heq ▸ hA)
        refine hremoved.other q hqr fun hparent => hq ?_
        exact hclosed r q hA ⟨record.node, s.node_of_region hregion, hparent⟩

theorem Advanced.hasParent (h : Advanced A s s') {q p : RegionId}
    (hparent : HasParent s'.node q p) : HasParent s.node q p := by
  obtain ⟨n, hn, hp⟩ := hparent
  obtain ⟨record', hrecord', rfl⟩ := Option.map_eq_some_iff.mp hn
  obtain ⟨record, hrecord, hkept⟩ := h.back q record' hrecord'
  exact ⟨record.node, s.node_of_region hrecord, hkept.parent.symm.trans hp⟩

/-- Advancing makes no new parent links, so it stays in `A`. -/
theorem advanced_via (h : Inv s) (hclosed : ParentClosed A s) (hvia : Via (AdvanceLabel A) s s') :
    ParentClosed A s' ∧ Advanced A s s' := by
  refine (hvia.invariant (I := fun u => Inv u ∧ ParentClosed A u ∧ Advanced A s u)
    ⟨h, hclosed, .refl A s⟩ fun u label u' hlabel ⟨hu, hparents, hadvanced⟩ hchange => ?_).2
  have hstep := advanced_change hu hparents hlabel hchange
  exact ⟨hu.change hchange, fun q p hq hqp => hparents q p hq (hstep.hasParent hqp),
    hadvanced.trans hstep⟩

/-- A region without tasks has no reserved obligation. -/
theorem pendingObligations_of_no_tasks (h : Inv s) (hregion : s.region r = some record)
    (htasks : record.tasks = []) :
    record.pendingObligations = 0 := by
  rw [(h.accounting.counter r record hregion).1]
  by_contra hne
  obtain ⟨t, howner⟩ := h.exists_owner_of_reserved hne
  obtain ⟨record', hrecord', hmem⟩ := h.region_owner howner
  cases hrecord'.symm.trans hregion
  rw [htasks] at hmem
  exact absurd hmem not_mem_nil

theorem handleFinalizingLeaks_eq
    (advance : RuntimeState → RegionId → RuntimeFlow Unit)
    (h : Inv s) :
    s.handleFinalizingLeaks advance r = .ok () s := by
  unfold handleFinalizingLeaks
  cases hr : s.region r with
  | none => rfl
  | some record =>
    refine if_neg fun ⟨hpos, htasks⟩ => ?_
    rw [pendingObligations_of_no_tasks h hr htasks] at hpos
    exact Nat.lt_irrefl 0 hpos

/-- What a turn promises: a further turn is for a region in `A`, and brings the end
closer. -/
def TurnOk (A : RegionId → Prop) (s : RuntimeState) (next : Option RegionId)
    (s' : RuntimeState) : Prop :=
  ∀ q, next = some q → A q ∧ turnsLeft s' < turnsLeft s

theorem advanceClosing_spec (hA : A r) (hregion : s.region r = some record)
    (hstate : record.state = .closing ∨ record.state = .draining) :
    Returns (AdvanceLabel A) s (TurnOk A s) (s.advanceClosing r record) := by
  unfold advanceClosing
  split_ifs with hidle hdrain
  · have hbegin : record.beginFinalize = ({ record with state := .finalizing }, true) := by
      rcases hstate with hstate | hstate <;>
        simp [RegionRecord.beginFinalize, RegionRecord.transition, hstate]
    have hupdate : (s.updateRegion r fun _ => { record with state := .finalizing }) =
        s.updateRegion r fun record => { record with state := .finalizing } :=
      s.updateRegion_congr hregion rfl
    simp only [hbegin, hupdate]
    refine .ok (.single (.finalize hregion hstate hidle.1 hidle.2) (.finalize hA)) ?_
    intro q hq
    have hne : record.state ≠ .finalizing := by
      rcases hstate with hstate | hstate <;> simp [hstate]
    exact ⟨Option.some.inj hq ▸ hA, turnsLeft_finalize hregion hne⟩
  · have hupdate : (s.updateRegion r fun record => record.beginDrain.1) =
        s.updateRegion r fun record => { record with state := .draining } :=
      s.updateRegion_congr hregion
        (by simp [RegionRecord.beginDrain, RegionRecord.transition, hdrain.2])
    rw [hupdate]
    exact .ok (.single (.drain hregion hdrain.2) (.drain hA)) nofun
  · exact .ok .refl nofun

theorem isQuiescent_of_canRegionCompleteClose (hregion : s.region r = some record)
    (hstate : record.state = .finalizing) (hcan : s.canRegionCompleteClose r = true) :
    record.isQuiescent = true := by
  simp only [canRegionCompleteClose, hregion, hstate, reduceCtorEq, if_false, ne_eq,
    not_true_eq_false] at hcan
  split_ifs at hcan with hfinalizers _ htasks hpending hchildren
  rw [Inv.isQuiescent_iff]
  exact ⟨by simpa using hchildren, by simpa using htasks, by omega, by simpa using hfinalizers⟩

theorem completeClose_spec (h : Inv s) (hA : A r) (hclosed : ParentClosed A s)
    (hregion : s.region r = some record) (hstate : record.state = .finalizing)
    (hquiet : record.isQuiescent = true) (hidle : s.activeAsyncFinalizers r = none) :
    Returns (AdvanceLabel A) s (TurnOk A s) (s.completeClose r record.parent) := by
  have hcomplete := Inv.completeClose_quiescent hquiet hstate
  unfold completeClose
  rw [hregion]
  dsimp only
  have hchange := Change.close hregion hstate hquiet hidle
  have hturns := turnsLeft_close record.completeClose.1.closeOutcome h hregion
  have hupdate : (s.updateRegion r fun _ => record.completeClose.1) =
      s.updateRegion r fun record => record.completeClose.1 :=
    s.updateRegion_congr hregion rfl
  rw [← hupdate] at hchange hturns
  rw [hcomplete] at hchange hturns ⊢
  refine .ok (.single hchange (.close hA)) fun q hq => ⟨?_, hturns⟩
  exact hclosed r q hA ⟨record.node, s.node_of_region hregion, hq⟩

theorem advanceFinalizing_spec (advance : RuntimeState → RegionId → RuntimeFlow Unit) (h : Inv s)
    (hA : A r) (hclosed : ParentClosed A s) (hregion : s.region r = some record)
    (hstate : record.state = .finalizing) :
    Returns (AdvanceLabel A) s (TurnOk A s) (s.advanceFinalizing advance r record.parent) := by
  unfold advanceFinalizing
  cases hactive : s.activeAsyncFinalizers r with
  | some t => exact .ok .refl nofun
  | none =>
    obtain ⟨s₀, hran, hend⟩ := runSyncFinalizersTracked_spec h ⟨record, hregion, hstate⟩ hactive
    have hvia : Via (AdvanceLabel A) s s₀ := hran.via.mono fun label hlabel =>
      hlabel ▸ .runSync hA
    have hinv := h.via hvia
    rcases hend with ⟨hloop, -⟩ | ⟨record₀, future, rest, id, ids, hrecord₀, hstack, hids, hloop⟩
    · rw [hloop]
      simp only [Option.isSome_none, Bool.false_eq_true, if_false, Flow.bind,
        handleFinalizingLeaks_eq advance hinv]
      obtain ⟨record₀, hrecord₀, finalizers, outcome, hsame⟩ := hran.records.forth hregion
      have hparent : record.parent = record₀.parent := by rw [hsame]
      have hstate₀ : record₀.state = .finalizing := by
        rw [hsame]
        exact hstate
      split
      · rename_i hcan
        have hquiet := isQuiescent_of_canRegionCompleteClose hrecord₀ hstate₀ hcan
        have hidle : s₀.activeAsyncFinalizers r = none := by
          rw [hran.rest]
          exact hactive
        rw [hparent]
        refine Returns.after hvia (Returns.mono
          (completeClose_spec hinv hA (advanced_via h hclosed hvia).1 hrecord₀ hstate₀ hquiet
            hidle) (fun _ hlabel => hlabel) fun next s' _ hturn q hq => ?_)
        rw [← hran.turnsLeft]
        exact hturn q hq
      · exact .ok hvia nofun
    · -- the asynchronous finalizer goes back on the stack
      rw [hloop]
      simp only [Option.isSome_none, Bool.false_eq_true, if_false, Flow.bind,
        s₀.reinsertFinalizer_dropTop hrecord₀ hstack hids]
      exact .ok hvia nofun

theorem advanceTurn_spec (advance : RuntimeState → RegionId → RuntimeFlow Unit) (h : Inv s)
    (hA : A r) (hclosed : ParentClosed A s) :
    Returns (AdvanceLabel A) s (TurnOk A s) (s.advanceTurn advance r) := by
  unfold advanceTurn
  cases hregion : s.region r with
  | none => exact .ok .refl nofun
  | some record =>
    cases hstate : record.state <;> simp only [hstate]
    case closing => exact advanceClosing_spec hA hregion (.inl hstate)
    case draining => exact advanceClosing_spec hA hregion (.inr hstate)
    case finalizing => exact advanceFinalizing_spec advance h hA hclosed hregion hstate
    case opened | closed => exact .ok .refl nofun

/-- The loop ends, since the turns run out before the fuel. -/
theorem advanceLoop_spec (fuel : Nat) (s : RuntimeState) (r : RegionId) (h : Inv s) (hA : A r)
    (hclosed : ParentClosed A s) (hfuel : turnsLeft s < fuel) :
    Returns (AdvanceLabel A) s (fun _ _ => True) (advanceLoop fuel s r) := by
  induction fuel generalizing s r with
  | zero => exact absurd hfuel (Nat.not_lt_zero _)
  | succ fuel ih =>
    refine (advanceTurn_spec _ h hA hclosed).bind fun next s' hvia hturn => ?_
    cases next with
    | none => exact .ok .refl trivial
    | some q =>
      obtain ⟨hq, hlt⟩ := hturn q rfl
      exact ih s' q (h.via hvia) hq (advanced_via h hclosed hvia).1 (by omega)

theorem advanceRegionState_spec (h : Inv s) (hA : A r) (hclosed : ParentClosed A s) :
    Returns (AdvanceLabel A) s (fun _ _ => True) (s.advanceRegionState r) :=
  advanceLoop_spec _ s r h hA hclosed (Nat.lt_succ_of_le (turnsLeft_le s))

end Advance

end Asupersync
