import Asupersync.Runtime.Operations

/-!
# The discipline of finalizers

Finalizers are numbered in the order of their registration, and the history records
which number ran when.  The ledger of a region has the numbers that have run, the
number of the running asynchronous finalizer and the numbers on the stack.

**Invariants.**
* `Numbered` holds in every run: no number is twice in a ledger, and the stack of
  numbers agrees with the stack of finalizers.
* `Ordered` holds as long as no finalizer is taken off a stack from outside: the ledger
  of a region is the list of its registered numbers in reverse.

**Results.**
* `finalizer_discipline`: every finalizer runs at most once, a region has at most one
  asynchronous finalizer outstanding, and the stacks agree; finalizers that are not
  taken off from outside run in reverse order of their registration, and before their
  region is recorded as closed.
* `finalizer_discipline_handed_out`: `run_sync_finalizers` hands an asynchronous
  finalizer to its caller and runs in any state of the region, so order and completeness
  can fail with it.
-/

namespace Asupersync

open Lib RuntimeState RuntimeTables FinalizerHistoryEvent List Option Function Arena RegionsRel

/-- Registered finalizers with their regions; the number of one is its position. -/
abbrev Registrations := List (RegionId × Finalizer)

namespace Registrations

/-- The number is that of a finalizer of the region. -/
def belongs (regs : Registrations) (r : RegionId) (id : Nat) : Bool :=
  decide ((regs[id]?).map Prod.fst = some r)

/-- The numbers registered for a region, in order. -/
def numbersOf (regs : Registrations) (r : RegionId) : List Nat :=
  (List.range regs.length).filter (regs.belongs r)

variable (regs : Registrations) (r : RegionId) {id : Nat}

theorem belongs_iff (id : Nat) :
    regs.belongs r id = true ↔ ∃ finalizer, regs[id]? = some (r, finalizer) := by
  unfold belongs
  rw [decide_eq_true_iff, map_eq_some_iff]
  constructor
  · rintro ⟨⟨q, finalizer⟩, hid, rfl⟩
    exact ⟨finalizer, hid⟩
  · rintro ⟨finalizer, hid⟩
    exact ⟨(r, finalizer), hid, rfl⟩

theorem belongs_unique {q : RegionId}
    (h : regs.belongs r id = true) (h' : regs.belongs q id = true) : r = q := by
  obtain ⟨finalizer, hid⟩ := (belongs_iff regs r id).mp h
  obtain ⟨finalizer', hid'⟩ := (belongs_iff regs q id).mp h'
  exact congrArg Prod.fst (some.inj (hid.symm.trans hid'))

theorem lt_of_belongs (h : regs.belongs r id = true) : id < regs.length := by
  obtain ⟨finalizer, hid⟩ := (belongs_iff regs r id).mp h
  exact (List.getElem?_eq_some_iff.mp hid).1

theorem belongs_append_of_lt (more : Registrations) (h : id < regs.length) :
    belongs (regs ++ more) r id = regs.belongs r id := by
  unfold belongs
  rw [getElem?_append_left h]

theorem numbersOf_snoc (q : RegionId) (finalizer : Finalizer) :
    numbersOf (regs ++ [(q, finalizer)]) r =
      regs.numbersOf r ++ if q = r then [regs.length] else [] := by
  unfold numbersOf
  rw [length_append, length_singleton, range_succ, filter_append]
  congr 1
  · refine filter_congr fun id hid => ?_
    exact belongs_append_of_lt regs r _ (mem_range.mp hid)
  · rw [filter_singleton]
    by_cases h : q = r <;> simp [belongs, h]

end Registrations

/-- The number an event records as run. -/
def FinalizerHistoryEvent.ran? : FinalizerHistoryEvent → Option Nat
  | .ran id _ => some id
  | .registered _ _ _ | .regionClosed _ _ => none

/-- The number and region an event records as registered. -/
def FinalizerHistoryEvent.registered? : FinalizerHistoryEvent → Option (Nat × RegionId)
  | .registered id r _ => some (id, r)
  | .ran _ _ | .regionClosed _ _ => none

/-- The numbers that have run, oldest first. -/
def ranIds (history : List FinalizerHistoryEvent) : List Nat := history.filterMap (·.ran?)

/-- The number of the running asynchronous finalizer of a region. -/
def RuntimeTables.activeIds (s : RuntimeTables) (r : RegionId) : List Nat :=
  match s.activeAsyncFinalizers r with
  | some t => (s.asyncFinalizerTasks t).toList
  | none => []

/-- The numbers of finalizers of a region that have run, oldest first. -/
def ranOf (regs : Registrations) (s : RuntimeState) (r : RegionId) : List Nat :=
  (ranIds s.finalizerHistory).filter (regs.belongs r)

theorem ranIds_snoc (history : List FinalizerHistoryEvent) (event : FinalizerHistoryEvent) :
    ranIds (history ++ [event]) = ranIds history ++ event.ran?.toList := by
  cases h : event.ran? <;> simp [ranIds, h]

/-- The numbers of a region: those that have run, the running one, those on the stack. -/
def ledger (regs : Registrations) (s : RuntimeState) (r : RegionId) : List Nat :=
  ranOf regs s r ++ s.activeIds r ++ s.finalizerIds r

/-- The stack of numbers and the stack of finalizers of a region agree position by
position. -/
def Matched (regs : Registrations) (s : RuntimeState) (r : RegionId) : Prop :=
  List.Forall₂ (fun id finalizer => regs[id]? = some (r, finalizer))
    (s.finalizerIds r) (s.finalizers r)

/-- No finalizer has run of a region that is not finalizing yet. -/
def Waiting (regs : Registrations) (s : RuntimeState) : Prop :=
  ∀ r record, s.region r = some record → record.state ≠ .finalizing → ranOf regs s r = []

/-- What holds in every run. -/
structure Numbered (regs : Registrations) (s : RuntimeState) : Prop where
  next : s.nextFinalizerId = regs.length
  known : ∀ entry ∈ regs, s.region entry.1 ≠ none ∨ s.regions.Stale entry.1.arenaIndex
  matched : ∀ r, Matched regs s r
  once : ∀ r, (ledger regs s r).Subperm (regs.numbersOf r)
  bounded : ∀ id ∈ ranIds s.finalizerHistory, id < regs.length
  registered : s.finalizerHistory.filterMap (·.registered?) =
    regs.zipIdx.map fun entry => (entry.2, entry.1.1)

/-- What holds as long as no finalizer is taken off a stack from outside. -/
structure Ordered (regs : Registrations) (s : RuntimeState) : Prop where
  order : ∀ r, ledger regs s r = (regs.numbersOf r).reverse
  waiting : Waiting regs s
  closed : ∀ before r time after,
    s.finalizerHistory = before ++ .regionClosed r time :: after →
      s.regions.Stale r.arenaIndex ∧ ∀ id ∈ regs.numbersOf r, id ∈ ranIds before

/-! ## Finalizers that move on -/

/-- An event that may follow a history. -/
def EventOk (regs : Registrations) (s s' : RuntimeState) : FinalizerHistoryEvent → Prop
  | .registered _ _ _ => False
  | .ran id _ => id < regs.length
  | .regionClosed r _ =>
    s'.regions.Stale r.arenaIndex ∧ s.activeIds r = [] ∧ s.finalizerIds r = []

/-- Nothing is registered, and no number comes up again. -/
structure FinalizersTaken (regs : Registrations) (s s' : RuntimeState) : Prop where
  next : s'.nextFinalizerId = s.nextFinalizerId
  present : ∀ r, s.region r ≠ none → s'.region r ≠ none ∨ s'.regions.Stale r.arenaIndex
  stale : ∀ i, s.regions.Stale i → s'.regions.Stale i
  ledger : ∀ r, (ledger regs s' r).Subperm (ledger regs s r)
  matched : ∀ r, Matched regs s' r
  history : s'.finalizerHistory = s.finalizerHistory ∨ ∃ event,
    s'.finalizerHistory = s.finalizerHistory ++ [event] ∧ EventOk regs s s' event

/-- Nothing is registered, and the numbers of every region keep their order. -/
structure FinalizersMoved (regs : Registrations) (s s' : RuntimeState) : Prop where
  next : s'.nextFinalizerId = s.nextFinalizerId
  present : ∀ r, s.region r ≠ none → s'.region r ≠ none ∨ s'.regions.Stale r.arenaIndex
  stale : ∀ i, s.regions.Stale i → s'.regions.Stale i
  ledger : ∀ r, ledger regs s' r = ledger regs s r
  matched : ∀ r, Matched regs s' r
  history : s'.finalizerHistory = s.finalizerHistory ∨ ∃ event,
    s'.finalizerHistory = s.finalizerHistory ++ [event] ∧ EventOk regs s s' event
  waiting : Waiting regs s → Waiting regs s'

section Moves

variable {regs : Registrations} {s s' : RuntimeState}

theorem FinalizersMoved.taken (h : FinalizersMoved regs s s') : FinalizersTaken regs s s' :=
  { h with ledger := fun r => h.ledger r ▸ Subperm.refl _ }

theorem Numbered.taken (h : Numbered regs s) (hmove : FinalizersTaken regs s s') :
    Numbered regs s' where
  next := hmove.next.trans h.next
  known entry hentry := (h.known entry hentry).elim (hmove.present _) fun hgone =>
    .inr (hmove.stale _ hgone)
  matched := hmove.matched
  once r := (hmove.ledger r).trans (h.once r)
  bounded := by
    rcases hmove.history with hsame | ⟨event, hadded, hok⟩
    · rw [hsame]
      exact h.bounded
    intro id hid
    rw [hadded, ranIds_snoc, mem_append] at hid
    rcases hid with hid | hid
    · exact h.bounded id hid
    · cases event with
      | ran id' time =>
        obtain rfl : id = id' := by simpa [ran?] using hid
        exact hok
      | registered => exact hok.elim
      | regionClosed => simp [ran?] at hid
  registered := by
    rcases hmove.history with hsame | ⟨event, hadded, hok⟩
    · rw [hsame]
      exact h.registered
    · rw [hadded, filterMap_append, h.registered]
      cases event with
      | registered => exact hok.elim
      | ran | regionClosed => simp [registered?]

variable {r : RegionId} {panics : Option PanicPayload}

/-- At the close of a region all its numbers have run. -/
theorem Ordered.all_ran (h : Ordered regs s) (hactive : s.activeIds r = []) (hids : s.finalizerIds r = []) :
    ∀ id ∈ regs.numbersOf r, id ∈ ranIds s.finalizerHistory := by
  intro id hid
  have horder := h.order r
  unfold ledger at horder
  rw [hactive, hids, append_nil, append_nil] at horder
  have hmem : id ∈ ranOf regs s r := by
    rw [horder]
    exact mem_reverse.mpr hid
  exact (mem_filter.mp hmem).1

theorem Ordered.moved (h : Ordered regs s) (hmove : FinalizersMoved regs s s') :
    Ordered regs s' where
  order r := (hmove.ledger r).trans (h.order r)
  waiting := hmove.waiting h.waiting
  closed := by
    intro before r time after hhistory
    have hold : ∀ rest, s.finalizerHistory = before ++ .regionClosed r time :: rest →
        s'.regions.Stale r.arenaIndex ∧ ∀ id ∈ regs.numbersOf r, id ∈ ranIds before :=
      fun rest hrest => ⟨hmove.stale _ (h.closed before r time rest hrest).1,
        (h.closed before r time rest hrest).2⟩
    rcases hmove.history with hsame | ⟨event, hadded, hok⟩
    · exact hold after (hsame.symm.trans hhistory)
    -- the close is the new event, or was there before
    rw [hadded] at hhistory
    rcases snoc_cases hhistory with ⟨rfl, rfl, -⟩ | ⟨rest, -, hrest⟩
    · obtain ⟨hgone, hactive, hids⟩ := hok
      exact ⟨hgone, h.all_ran hactive hids⟩
    · exact hold rest hrest

theorem ranOf_congr (h : s'.finalizerHistory = s.finalizerHistory) (q : RegionId) :
    ranOf regs s' q = ranOf regs s q := by
  unfold ranOf
  rw [h]

theorem ranOf_ran {id : Nat} {time : Time}
    (hhistory : s'.finalizerHistory = s.finalizerHistory ++ [.ran id time])
    (hid : regs.belongs r id = true) (q : RegionId) :
    ranOf regs s' q = ranOf regs s q ++ if q = r then [id] else [] := by
  unfold ranOf
  rw [hhistory, ranIds_snoc, filter_append]
  congr 1
  show filter (regs.belongs q) [id] = _
  rw [filter_singleton]
  split_ifs with hq
  · rw [hq, hid]
    rfl
  · cases hb : regs.belongs q id with
    | false => rfl
    | true => exact absurd (regs.belongs_unique q hb hid) hq

/-- The event of a run leaves the regions alone that wait. -/
theorem waiting_of_back
    (hback : ∀ q record', s'.region q = some record' → record'.state ≠ .finalizing →
      (∃ record, s.region q = some record ∧ record.state ≠ .finalizing) ∧
        ranOf regs s' q = ranOf regs s q) :
    Waiting regs s → Waiting regs s' := by
  intro h q record' hq hstate
  obtain ⟨⟨record, hrecord, hold⟩, hran⟩ := hback q record' hq hstate
  exact hran.trans (h q record hrecord hold)

section

variable (h : Numbered regs s)

include h

theorem Numbered.belongs_of_mem {id : Nat}
    (hid : id ∈ ledger regs s r) : regs.belongs r id = true :=
  (mem_filter.mp ((h.once r).subset hid)).2

theorem Numbered.lt_of_mem {id : Nat} (hid : id ∈ ledger regs s r) : id < regs.length :=
  regs.lt_of_belongs r (h.belongs_of_mem hid)

theorem Numbered.none_of_unknown (habsent : s.region r = none) (hfresh : ¬ s.regions.Stale r.arenaIndex) (id : Nat) :
    regs.belongs r id = false := by
  cases hb : regs.belongs r id with
  | false => rfl
  | true =>
    obtain ⟨finalizer, hget⟩ := (regs.belongs_iff r id).mp hb
    exact ((h.known _ (mem_of_getElem? hget)).elim (fun hlive => hlive habsent) hfresh).elim

/-- A change that touches no finalizer. -/
theorem moved_of_views (hids : ∀ q, s'.finalizerIds q = s.finalizerIds q)
    (hstack : ∀ q, s'.finalizers q = s.finalizers q)
    (hrest : s'.activeAsyncFinalizers = s.activeAsyncFinalizers ∧
      s'.asyncFinalizerTasks = s.asyncFinalizerTasks ∧
      s'.nextFinalizerId = s.nextFinalizerId ∧ s'.finalizerHistory = s.finalizerHistory)
    (hpresent : ∀ q, s.region q ≠ none → s'.region q ≠ none)
    (hstale : ∀ i, s.regions.Stale i → s'.regions.Stale i)
    (hwaiting : Waiting regs s → Waiting regs s') :
    FinalizersMoved regs s s' := by
  obtain ⟨hactive, htasks, hnext, hhistory⟩ := hrest
  constructor
  case next => exact hnext
  case present => exact fun q hq => .inl (hpresent q hq)
  case stale => exact hstale
  case ledger =>
    intro q
    unfold ledger activeIds
    rw [ranOf_congr hhistory, hids, hactive, htasks]
  case matched =>
    intro q
    unfold Matched
    rw [hids, hstack]
    exact h.matched q
  case history => exact .inl hhistory
  case waiting => exact hwaiting

theorem moved_of_rel (hrel : RegionsRel SameStack s s')
    (hstale : ∀ i, s.regions.Stale i → s'.regions.Stale i)
    (hids : s'.pendingFinalizerIds = s.pendingFinalizerIds)
    (hrest : s'.activeAsyncFinalizers = s.activeAsyncFinalizers ∧
      s'.asyncFinalizerTasks = s.asyncFinalizerTasks ∧
      s'.nextFinalizerId = s.nextFinalizerId ∧ s'.finalizerHistory = s.finalizerHistory) :
    FinalizersMoved regs s s' := by
  refine moved_of_views h (fun q => ?_) hrel.finalizers hrest (fun _ => hrel.present) hstale ?_
  · unfold finalizerIds
    rw [hids]
  · refine waiting_of_back fun q record' hq hstate => ⟨?_, ranOf_congr hrest.2.2.2 q⟩
    obtain ⟨record, hrecord, hP⟩ := hrel.back hq
    exact ⟨record, hrecord, fun hold => hstate (hP.finalizing hold)⟩

theorem moved_updateRegion {f : RegionRecord → RegionRecord} (hf : ∀ record, s.region r = some record → SameStack record (f record)) :
    FinalizersMoved regs s (s.updateRegion r f) :=
  moved_of_rel h (updateRegion SameStack.refl hf) (fun _ hi => modify_stale hi)
    rfl ⟨rfl, rfl, rfl, rfl⟩

/-- A region that is created has no finalizers, and never had any. -/
theorem moved_createRegion {parent : Option RegionId} (hnew : RegionCreated s r parent s') :
    FinalizersMoved regs s s' := by
  obtain ⟨regions, root, rfl⟩ := hnew.eq
  refine moved_of_views h (fun _ => rfl) (fun _ => Inv.finalizers_regionCreated hnew)
    ⟨rfl, rfl, rfl, rfl⟩
    (fun q hq => ?_) hnew.stale (fun hwaiting q record' hq hstate => ?_)
  · have hqr : q ≠ r := fun heq => hq (heq ▸ hnew.absent)
    exact (Inv.regionCreated_other hnew hqr).present hq
  by_cases hqr : q = r
  · rw [hqr]
    refine filter_eq_nil_iff.mpr fun id _ => ?_
    rw [h.none_of_unknown hnew.absent hnew.fresh id]
    exact Bool.false_ne_true
  · obtain ⟨record, children, hrecord, rfl⟩ := (Inv.regionCreated_other hnew hqr).back hq
    exact hwaiting q record hrecord hstate

end

/-- Both stacks of a region lose their top. -/
theorem matched_popped (h : ∀ q, Matched regs s q)
    (hids : ∀ q, s'.finalizerIds q = if q = r then (s.finalizerIds r).tail else s.finalizerIds q)
    (hstack : ∀ q, s'.finalizers q = if q = r then (s.finalizers r).tail else s.finalizers q) :
    ∀ q, Matched regs s' q := by
  intro q
  have hq := h q
  unfold Matched at hq ⊢
  rw [hids, hstack]
  split_ifs with hqr
  · rw [← hqr]
    generalize s.finalizerIds q = ids, s.finalizers q = stack at hq
    cases hq with
    | nil => exact .nil
    | cons _ hrest => exact hrest
  · exact hq

theorem activeIds_ran {id : Nat} (r q : RegionId) :
    (((s.dropTop r).recordSyncOutcome r panics).recordFinalizerRun id).activeIds q =
      s.activeIds q := by
  rw [rest_ran]
  rfl

variable {ids : List Nat} {record : RegionRecord}

/-- The finalizer on top of a stack runs and leaves both stacks. -/
theorem taken_ran {id : Nat} (panics : Option PanicPayload)
    (h : Numbered regs s) (hids : s.finalizerIds r = id :: ids) :
    FinalizersTaken regs s (((s.dropTop r).recordSyncOutcome r panics).recordFinalizerRun id) ∧
      ∀ q, ranOf regs (((s.dropTop r).recordSyncOutcome r panics).recordFinalizerRun id) q =
        ranOf regs s q ++ if q = r then [id] else [] := by
  have hmem : id ∈ ledger regs s r := by
    unfold ledger
    rw [hids]
    exact mem_append_right _ mem_cons_self
  have hrest := rest_ran s r id panics
  have hran := ranOf_ran (congrArg (·.finalizerHistory) hrest) (h.belongs_of_mem hmem)
  refine ⟨?_, hran⟩
  constructor
  case next => rw [hrest]
  case present => exact fun q hq => .inl ((records_ran s r id panics).present hq)
  case stale =>
    intro i hi
    cases panics with
    | none => exact modify_stale hi
    | some payload => exact modify_stale (modify_stale hi)
  case ledger =>
    intro q
    unfold ledger
    rw [hran, activeIds_ran, finalizerIds_ran]
    by_cases hq : q = r
    · -- it may overtake the running one
      rw [if_pos hq, if_pos hq, hq, hids]
      have hperm : (id :: (s.activeIds r ++ ids)).Perm (s.activeIds r ++ id :: ids) :=
        perm_middle.symm
      rw [append_assoc, append_assoc, append_assoc]
      exact (hperm.append_left (ranOf regs s r)).subperm
    · rw [if_neg hq, if_neg hq, append_nil]
  case matched =>
    exact matched_popped h.matched (finalizerIds_ran s r id panics) (finalizers_ran s r id panics)
  case history =>
    exact .inr ⟨.ran id s.now, congrArg (·.finalizerHistory) hrest, h.lt_of_mem hmem⟩

theorem activeIds_of_none (h : s.activeAsyncFinalizers r = none) : s.activeIds r = [] := by
  unfold activeIds
  rw [h]

theorem moved_runSync {closure id : Nat}
    {rest : List Finalizer} (h : Numbered regs s) (hregion : s.region r = some record)
    (hstate : record.state = .finalizing) (hidle : s.activeAsyncFinalizers r = none)
    (hstack : record.finalizers = .sync closure panics :: rest)
    (hids : s.finalizerIds r = id :: ids) :
    FinalizersMoved regs s
      (((s.dropTop r).recordSyncOutcome r panics).recordFinalizerRun id) := by
  obtain ⟨htaken, hran⟩ := taken_ran panics h hids
  refine { htaken with ledger := fun q => ?_, waiting := ?_ }
  · unfold ledger
    rw [hran, activeIds_ran, finalizerIds_ran]
    split_ifs with hq
    · rw [hq, activeIds_of_none hidle, hids]
      simp
    · rw [append_nil]
  · refine waiting_of_back fun q record' hq hstate' => ?_
    obtain ⟨old, hold, finalizers, outcome, rfl⟩ := (records_ran s r id panics).back hq
    have hqr : q ≠ r := by
      rintro rfl
      obtain rfl := some.inj (hold.symm.trans hregion)
      exact hstate' hstate
    refine ⟨⟨old, hold, hstate'⟩, ?_⟩
    rw [hran, if_neg hqr, append_nil]

variable {t : TaskId}

theorem activeIds_of_some (h : s.activeAsyncFinalizers r = some t) :
    s.activeIds r = (s.asyncFinalizerTasks t).toList := by
  unfold activeIds
  rw [h]

/-- The running finalizer of another region is run by another task. -/
theorem activeIds_other {q : RegionId} {active : Option TaskId} {number : Option Nat} (hinv : Inv s)
    (hactive : s'.activeAsyncFinalizers = update s.activeAsyncFinalizers r active)
    (htasks : s'.asyncFinalizerTasks = update s.asyncFinalizerTasks t number)
    (howner : s.owner t ≠ some q) (hq : q ≠ r) :
    s'.activeIds q = s.activeIds q := by
  have hsame : s'.activeAsyncFinalizers q = s.activeAsyncFinalizers q := by
    rw [hactive, update_of_ne hq]
  cases hold : s.activeAsyncFinalizers q with
  | none => rw [activeIds_of_none hold, activeIds_of_none (hsame.trans hold)]
  | some u =>
    obtain ⟨hown, -, -⟩ := hinv.stack.barrier q u hold
    have hut : u ≠ t := fun heq => howner (heq ▸ hown)
    rw [activeIds_of_some hold, activeIds_of_some (hsame.trans hold), htasks, update_of_ne hut]

theorem moved_startAsync {id : Nat} (hinv : Inv s)
    (h : Numbered regs s) (hidle : s.activeAsyncFinalizers r = none)
    (hids : s.finalizerIds r = id :: ids) (hspawn : TaskCreated (s.dropTop r) r true t s') :
    FinalizersMoved regs s
      { s' with
        asyncFinalizerTasks := update s'.asyncFinalizerTasks t (some id)
        activeAsyncFinalizers := update s'.activeAsyncFinalizers r (some t) } := by
  have hrel : RegionsRel (fun record record' => record'.state = record.state) s s' := by
    have hdrop : RegionsRel (fun record record' => record'.state = record.state) s (s.dropTop r) :=
      updateRegion (fun _ => rfl) fun _ _ => rfl
    refine hdrop.trans ((Inv.regionsRel_taskCreated hspawn).mono ?_) fun _ _ _ hab hbc =>
      hbc.trans hab
    rintro _ _ ⟨tasks, rfl⟩
    rfl
  have hstack' : ∀ q, s'.finalizers q =
      if q = r then (s.finalizers r).tail else s.finalizers q := by
    intro q
    have hsame : RegionsRel SameStack (s.dropTop r) s' :=
      (Inv.regionsRel_taskCreated hspawn).mono fun _ _ ⟨_, heq⟩ => heq ▸ ⟨rfl, fun hs => hs⟩
    rw [hsame.finalizers, finalizers_dropTop]
  obtain ⟨regions, tasks, rfl⟩ := hspawn.eq
  have hids' := s.finalizerIds_dropTop r
  constructor
  case next => rfl
  case present => exact fun q hq => .inl (hrel.present hq)
  case stale => exact fun i hi => hspawn.stale i (modify_stale hi)
  case ledger =>
    intro q
    show ranOf regs s q ++ _ ++ (s.dropTop r).finalizerIds q = _
    rw [hids' q, ledger]
    split_ifs with hq
    · rw [hq, activeIds_of_none hidle, hids]
      simp [activeIds]
    · have hnone : s.owner t = none := congrArg (Option.map _) hspawn.absent
      rw [activeIds_other (s := s) (r := r) (t := t) hinv rfl rfl
        (by rw [hnone]; exact (some_ne_none q).symm) hq]
  case matched => exact matched_popped h.matched hids' hstack'
  case history => exact .inl rfl
  case waiting =>
    refine waiting_of_back fun q record' hq hstate => ⟨?_, ranOf_congr rfl q⟩
    obtain ⟨old, hold, hsame⟩ := hrel.back hq
    exact ⟨old, hold, hsame ▸ hstate⟩

theorem moved_asyncDone {id : Nat} (hinv : Inv s) (h : Numbered regs s)
    (howner : s.owner t = some r) (hid : s.asyncFinalizerTasks t = some id)
    (hactive : s.activeAsyncFinalizers r = some t) :
    FinalizersMoved regs s
      (recordFinalizerRun
        { s with
          asyncFinalizerTasks := update s.asyncFinalizerTasks t none
          activeAsyncFinalizers := update s.activeAsyncFinalizers r none } id) := by
  have hrunning : s.activeIds r = [id] := by
    rw [activeIds_of_some hactive, hid]
    rfl
  have hmem : id ∈ ledger regs s r := by
    unfold ledger
    rw [hrunning]
    simp
  have hbelongs := h.belongs_of_mem hmem
  constructor
  case next => rfl
  case present => exact fun q hq => .inl hq
  case stale => exact fun i hi => hi
  case ledger =>
    intro q
    unfold ledger
    rw [ranOf_ran (s := s) rfl hbelongs]
    split_ifs with hq
    · rw [hq, hrunning]
      simp [activeIds, recordFinalizerRun]
      rfl
    · rw [append_nil, activeIds_other (s := s) (r := r) (t := t) hinv rfl rfl
        (by rw [howner]; exact fun heq => hq (some.inj heq).symm) hq]
      rfl
  case matched => exact h.matched
  case history => exact .inr ⟨.ran id s.now, rfl, h.lt_of_mem hmem⟩
  case waiting =>
    refine waiting_of_back fun q record' hq hstate => ⟨⟨record', hq, hstate⟩, ?_⟩
    have hqr : q ≠ r := by
      rintro rfl
      obtain ⟨-, ⟨record, hrecord, hfinalizing⟩, -⟩ := hinv.stack.barrier q t hactive
      cases hrecord.symm.trans hq
      exact hstate hfinalizing
    rw [ranOf_ran (s := s) rfl hbelongs, if_neg hqr, append_nil]

/-- A region closes with empty stacks. -/
theorem moved_close (outcome : Option TaskOutcome) (hinv : Inv s)
    (h : Numbered regs s) (hregion : s.region r = some record) (hstate : record.state = .finalizing)
    (hquiet : record.isQuiescent = true) (hidle : s.activeAsyncFinalizers r = none) :
    FinalizersMoved regs s
      ((s.updateRegion r fun record => record.completeClose.1).finishClose r record.parent
        outcome) := by
  obtain ⟨s', tables, heq, hremoved, hfinished⟩ := hinv.close_spec outcome hregion hstate hquiet
  rw [heq]
  obtain ⟨-, -, -, hfinalizers⟩ := (Inv.isQuiescent_iff record).mp hquiet
  have hempty : s.finalizers r = [] := by
    rw [finalizers_eq, hregion]
    exact hfinalizers
  have hnumbers : s.finalizerIds r = [] := by
    have hlength := hinv.stack.aligned r
    rw [hempty] at hlength
    exact length_eq_zero_iff.mp hlength
  clear heq
  obtain ⟨⟨⟩⟩ := s'
  obtain ⟨-, -, -, -, rfl, rfl, rfl, rfl, rfl, -, -⟩ := hfinished
  have hids : ∀ q, (update s.pendingFinalizerIds r none q).getD [] = s.finalizerIds q := by
    intro q
    by_cases hq : q = r
    · rw [hq, update_self]
      exact hnumbers.symm
    · rw [update_of_ne hq]
      rfl
  have hran : ranIds (s.finalizerHistory ++ [.regionClosed r s.now]) = ranIds s.finalizerHistory :=
    (ranIds_snoc _ _).trans (append_nil _)
  constructor
  case next => rfl
  case present =>
    intro q hq
    by_cases hqr : q = r
    · exact .inr (hqr ▸ hremoved.retired)
    · exact .inl ((Inv.regionRemoved_other hremoved hqr).present hq)
  case stale => exact hremoved.stale
  case ledger =>
    intro q
    exact congrArg₂ (fun ran => (ran.filter (regs.belongs q) ++ s.activeIds q ++ ·)) hran (hids q)
  case matched =>
    intro q
    show Forall₂ _ ((update s.pendingFinalizerIds r none q).getD []) _
    rw [hids, Inv.finalizers_relisted (fun _ => Inv.regionRemoved_other hremoved) hempty
      (Inv.finalizers_of_absent hremoved.gone)]
    exact h.matched q
  case history =>
    exact .inr ⟨.regionClosed r s.now, rfl, hremoved.retired, activeIds_of_none hidle, hnumbers⟩
  case waiting =>
    refine waiting_of_back fun q record' hq hstate' => ⟨?_, congrArg _ hran⟩
    obtain ⟨old, children, hold, rfl⟩ := Inv.regionRemoved_back hremoved hq
    exact ⟨old, hold, hstate'⟩

/-- Changes that neither register a finalizer nor take one off from outside. -/
def ChangeLabel.isInner : ChangeLabel → Bool
  | .register _ _ | .popFinalizer _ | .recordRun => false
  | _ => true

theorem moved_change {label : ChangeLabel} (hinv : Inv s) (h : Numbered regs s)
    (hchange : Change s label s') (hlabel : label.isInner = true) :
    FinalizersMoved regs s s' := by
  cases hchange with
  | createRegion hnew => exact moved_createRegion h hnew
  | createTask hnew =>
    refine moved_of_rel h ((Inv.regionsRel_taskCreated hnew).mono ?_) hnew.stale
      (by rw [hnew.rest]) (by rw [hnew.rest]; exact ⟨rfl, rfl, rfl, rfl⟩)
    rintro _ _ ⟨tasks, rfl⟩
    exact ⟨rfl, id⟩
  | createObligation =>
    exact moved_of_rel h (updateRegion SameStack.refl fun _ _ => ⟨rfl, id⟩)
      (fun _ hi => modify_stale hi) rfl ⟨rfl, rfl, rfl, rfl⟩
  | resolve =>
    refine moved_of_rel h (updateRegion SameStack.refl fun record _ => ?_)
      (fun _ hi => modify_stale hi) rfl ⟨rfl, rfl, rfl, rfl⟩
    unfold RegionRecord.resolveObligation
    split <;> exact ⟨rfl, id⟩
  | touchTask =>
    exact moved_of_rel h (.of_eq SameStack.refl fun _ => rfl) (fun _ hi => hi) rfl
      ⟨rfl, rfl, rfl, rfl⟩
  | touchRegion hf => exact moved_updateRegion h fun record _ => (hf record).kept.stack
  | beginClose => exact moved_updateRegion h fun record _ => (kept_beginClose record none).stack
  | cancelRegion => exact moved_updateRegion h fun record _ => (kept_cancelRegion _ record).stack
  | drain hregion hstate =>
    refine moved_updateRegion h fun record hrecord => ⟨rfl, fun hs => ?_⟩
    cases hrecord.symm.trans hregion
    exact absurd (hstate.symm.trans hs) (by decide)
  | finalize =>
    exact moved_of_rel h (updateRegion SameStack.refl fun _ _ => ⟨rfl, fun _ => rfl⟩)
      (fun _ hi => modify_stale hi) rfl ⟨rfl, rfl, rfl, rfl⟩
  | runSync hregion hstate hidle hstack hids =>
    exact moved_runSync h hregion hstate hidle hstack hids
  | startAsync hregion hstate hidle hstack hids hspawn =>
    exact moved_startAsync hinv h hidle hids hspawn
  | asyncDone howner hid hactive => exact moved_asyncDone hinv h howner hid hactive
  | @removeTask t r outcome howner =>
    obtain ⟨_, tasks, hrecycle, -⟩ := s.recycleTask_spec hinv.shape.tasks howner
    unfold removeCompletedTask
    rw [hrecycle]
    refine moved_of_rel h (updateRegion SameStack.refl fun record _ => ?_)
      (fun _ hi => modify_stale hi) rfl ⟨rfl, rfl, rfl, rfl⟩
    cases outcome <;> exact ⟨rfl, id⟩
  | close hregion hstate hquiet hidle =>
    exact moved_close _ hinv h hregion hstate hquiet hidle
  | register | popFinalizer | recordRun => exact absurd hlabel Bool.false_ne_true
  | settings hs =>
    rw [hs]
    exact moved_of_rel h (.of_eq SameStack.refl fun _ => rfl) (fun _ hi => hi) rfl
      ⟨rfl, rfl, rfl, rfl⟩
  | rearrange hcontents =>
    refine moved_of_rel h (.of_eq SameStack.refl hcontents.region) hcontents.stale ?_ ?_
    · rw [hcontents.rest]
    · rw [hcontents.rest]
      exact ⟨rfl, rfl, rfl, rfl⟩

end Moves

/-! ## Registration -/

section Registration

variable {regs : Registrations} {s : RuntimeState} {r : RegionId} {record : RegionRecord}

/-- The state after a registration. -/
abbrev registeredState (s : RuntimeState) (r : RegionId) (finalizer : Finalizer) : RuntimeState :=
  RuntimeState.recordFinalizerRegistration
    ({ s with nextFinalizerId := s.nextFinalizerId + 1 }.updateRegion r
      (·.addFinalizer finalizer)) s.nextFinalizerId r

theorem ranOf_register (h : Numbered regs s) (finalizer : Finalizer) (q : RegionId) :
    ranOf (regs ++ [(r, finalizer)]) (registeredState s r finalizer) q = ranOf regs s q := by
  show (ranIds (s.finalizerHistory ++ [.registered s.nextFinalizerId r s.now])).filter _ = _
  rw [ranIds_snoc]
  show (ranIds s.finalizerHistory ++ []).filter _ = _
  rw [append_nil]
  exact filter_congr fun id hid => regs.belongs_append_of_lt q _ (h.bounded id hid)

theorem ledger_register (h : Numbered regs s) (finalizer : Finalizer) (q : RegionId) :
    ledger (regs ++ [(r, finalizer)]) (registeredState s r finalizer) q =
      ranOf regs s q ++ s.activeIds q ++
        if q = r then regs.length :: s.finalizerIds r else s.finalizerIds q := by
  unfold ledger
  rw [ranOf_register h, ← h.next]
  congr 1
  exact finalizerIds_pushFinalizerId s r q s.nextFinalizerId

theorem Numbered.register (h : Numbered regs s) (hregion : s.region r = some record)
    (finalizer : Finalizer) :
    Numbered (regs ++ [(r, finalizer)]) (registeredState s r finalizer) := by
  have hrel : RegionsRel (fun _ _ => True) s (registeredState s r finalizer) :=
    updateRegion (fun _ => trivial) fun _ _ => trivial
  constructor
  case next =>
    rw [length_append, length_singleton, ← h.next]
    rfl
  case known =>
    intro entry hentry
    rcases mem_append.mp hentry with hold | hnew
    · exact (h.known entry hold).imp hrel.present modify_stale
    · rw [mem_singleton.mp hnew]
      exact .inl (hrel.present (hregion ▸ some_ne_none record))
  case matched =>
    intro q
    have hids : (registeredState s r finalizer).finalizerIds q = _ :=
      finalizerIds_pushFinalizerId s r q s.nextFinalizerId
    have hstack : (registeredState s r finalizer).finalizers q = _ :=
      finalizers_addFinalizer s finalizer hregion q
    have hold : List.Forall₂ (fun id f => (regs ++ [(r, finalizer)])[id]? = some (q, f))
        (s.finalizerIds q) (s.finalizers q) := by
      refine (h.matched q).imp fun id f hget => ?_
      rw [getElem?_append_left (List.getElem?_eq_some_iff.mp hget).1]
      exact hget
    unfold Matched
    rw [hids, hstack]
    split_ifs with hq
    · subst hq
      refine .cons ?_ hold
      rw [h.next]
      exact getElem?_concat_length
    · exact hold
  case once =>
    intro q
    rw [ledger_register h, regs.numbersOf_snoc]
    by_cases hq : q = r
    · subst hq
      rw [if_pos rfl, if_pos rfl]
      refine perm_middle.subperm_right.mpr ((perm_append_singleton _ _).symm.subperm_left.mp ?_)
      exact (subperm_cons _).mpr (h.once q)
    · rw [if_neg hq, if_neg (Ne.symm hq), append_nil]
      exact h.once q
  case bounded =>
    intro id hid
    have hran : ranIds (registeredState s r finalizer).finalizerHistory =
        ranIds s.finalizerHistory := by
      refine (ranIds_snoc _ _).trans ?_
      exact append_nil _
    rw [hran] at hid
    rw [length_append]
    exact Nat.lt_add_right 1 (h.bounded id hid)
  case registered =>
    show filterMap (·.registered?)
      (s.finalizerHistory ++ [FinalizerHistoryEvent.registered s.nextFinalizerId r s.now]) = _
    rw [filterMap_append, h.registered, zipIdx_append, map_append, h.next]
    simp [registered?]

/-- An open region has run nothing, so its new number is the first to run. -/
theorem Ordered.register (hinv : Inv s) (hn : Numbered regs s) (h : Ordered regs s)
    (hregion : s.region r = some record) (hopen : record.state = .opened) (finalizer : Finalizer) :
    Ordered (regs ++ [(r, finalizer)]) (registeredState s r finalizer) := by
  have hnot : record.state ≠ .finalizing := by
    rw [hopen]
    decide
  have hran : ranOf regs s r = [] := h.waiting r record hregion hnot
  have hactive : s.activeIds r = [] := by
    refine activeIds_of_none (eq_none_iff_forall_ne_some.mpr fun t ht => ?_)
    obtain ⟨-, ⟨record', hrecord', hstate⟩, -⟩ := hinv.stack.barrier r t ht
    cases hrecord'.symm.trans hregion
    exact hnot hstate
  constructor
  case order =>
    intro q
    rw [ledger_register hn, regs.numbersOf_snoc]
    have horder := h.order q
    unfold ledger at horder
    by_cases hq : q = r
    · subst hq
      rw [hran, hactive] at horder ⊢
      rw [if_pos rfl, if_pos rfl, reverse_append, ← horder]
      rfl
    · rw [if_neg hq, if_neg (Ne.symm hq), append_nil, horder]
  case waiting =>
    intro q record' hq hstate
    have hrel : RegionsRel (fun a b => b.state = a.state) s
        (s.updateRegion r (·.addFinalizer finalizer)) :=
      updateRegion (fun _ => rfl) fun _ _ => rfl
    obtain ⟨old, hold, hsame⟩ := hrel.back hq
    rw [ranOf_register hn]
    exact h.waiting q old hold (hsame ▸ hstate)
  case closed =>
    intro before q time after hhistory
    -- the new event is no close, so the close was there before
    replace hhistory : s.finalizerHistory ++ [.registered s.nextFinalizerId r s.now] =
      before ++ .regionClosed q time :: after := hhistory
    obtain ⟨-, hevent, -⟩ | ⟨rest, -, hrest⟩ := snoc_cases hhistory
    · cases hevent
    obtain ⟨hgone, hall⟩ := h.closed before q time rest hrest
    have hqr : r ≠ q := by
      rintro rfl
      exact absurd ((get_none_of_stale hgone).symm.trans hregion) (some_ne_none record).symm
    refine ⟨modify_stale hgone, ?_⟩
    rw [regs.numbersOf_snoc, if_neg hqr, append_nil]
    exact hall

end Registration

/-! ## Finalizers taken off from outside -/

section Outside

variable {regs : Registrations} {s : RuntimeState} {r : RegionId}

theorem Numbered.dropTop (h : Numbered regs s) (r : RegionId) : Numbered regs (s.dropTop r) := by
  refine h.taken ?_
  constructor
  case next => rfl
  case present =>
    intro q hq
    have hrel : RegionsRel (fun _ _ => True) s (s.dropTop r) :=
      updateRegion (fun _ => trivial) fun _ _ => trivial
    exact .inl (hrel.present hq)
  case stale => exact fun i hi => modify_stale hi
  case ledger =>
    intro q
    show (ranOf regs s q ++ s.activeIds q ++ (s.dropTop r).finalizerIds q).Subperm _
    rw [finalizerIds_dropTop]
    refine Sublist.subperm (Sublist.append_left ?_ _)
    split_ifs with hq
    · rw [hq]
      exact tail_sublist _
    · rfl
  case matched =>
    exact matched_popped h.matched (s.finalizerIds_dropTop r) (s.finalizers_dropTop r)
  case history => exact .inl rfl

end Outside

/-! ## Whole runs -/

/-- What an event registers. -/
def registration : RuntimeEvent → Registrations
  | ⟨.registerFinalizer r finalizer, .flag true⟩ => [(r, finalizer)]
  | _ => []

/-- The finalizers registered in a run, in order. -/
def registrations (history : List RuntimeEvent) : Registrations := history.flatMap registration

/-- The operation takes no finalizer off a stack from outside. -/
def RuntimeOp.isInner : RuntimeOp → Bool
  | .popRegionFinalizer _ | .runSyncFinalizers _ => false
  | _ => true

section Runs

variable {regs : Registrations} {s s' : RuntimeState}

theorem moved_via {K : ChangeLabel → Prop} (hinv : Inv s) (h : Numbered regs s)
    (hvia : Via K s s') (hK : ∀ label, K label → label.isInner = true) :
    Numbered regs s' ∧ (Ordered regs s → Ordered regs s') := by
  refine (hvia.invariant
    (I := fun u => Inv u ∧ Numbered regs u ∧ (Ordered regs s → Ordered regs u))
    ⟨hinv, h, id⟩ fun u label u' hlabel ⟨hu, hnu, hou⟩ hchange => ?_).2
  have hmoved := moved_change hu hnu hchange (hK label hlabel)
  exact ⟨hu.change hchange, hnu.taken hmoved.taken, fun ho => (hou ho).moved hmoved⟩

theorem PlainLabel.isInner {label : ChangeLabel} (h : PlainLabel label) : label.isInner = true := by
  cases label <;> first | rfl | exact absurd h Bool.false_ne_true

/-- One operation: it keeps the numbering, and the order unless it takes finalizers off. -/
theorem finalizers_step {event : RuntimeEvent} (hinv : Inv s) (h : Numbered regs s)
    (hstep : RuntimeStep s event s') :
    Numbered (regs ++ registration event) s' ∧
      (event.op.isInner = true → Ordered regs s →
        Ordered (regs ++ registration event) s') := by
  have hvia := step_via hinv hstep
  obtain ⟨op, reply⟩ := event
  have hplain : registration ⟨op, reply⟩ = [] → (∀ label, OpLabel op label → label.isInner = true) →
      Numbered (regs ++ registration ⟨op, reply⟩) s' ∧
        (op.isInner = true → Ordered regs s → Ordered (regs ++ registration ⟨op, reply⟩) s') := by
    intro hnone hK
    rw [hnone, append_nil]
    obtain ⟨hnumbered, hordered⟩ := moved_via hinv h hvia hK
    exact ⟨hnumbered, fun _ => hordered⟩
  cases op with
  | registerFinalizer r finalizer =>
    have hexec : s.exec (.registerFinalizer r finalizer) =
        replying .flag (s.registerFinalizer r finalizer) := rfl
    rcases registerFinalizer_cases (s := s) r finalizer with hend | hend | ⟨s₁, hend, hchange⟩ <;>
      rw [hend] at hexec
    · obtain ⟨rfl, rfl⟩ := hstep.eq_of_ok hexec
      exact (append_nil regs).symm ▸ ⟨h, fun _ ho => ho⟩
    · cases hstep with
      | returned hret | leaked hret => cases hexec.symm.trans hret
    · obtain ⟨rfl, rfl⟩ := hstep.eq_of_ok hexec
      cases hchange with
      | register hregion hopen =>
        exact ⟨h.register hregion finalizer, fun _ ho => ho.register hinv h hregion hopen finalizer⟩
  | runSyncFinalizers r =>
    obtain ⟨found, s₁, hend, -, hnumbered⟩ := runSyncFinalizers_spec (I := Numbered regs)
      (r := r) (fun u _ hu => hu.dropTop r) (fun u id ids panics _ hu hids => hu.taken (taken_ran panics hu hids).1)
      hinv h
    have hexec : s.exec (.runSyncFinalizers r) = .ok (.finalizer found) s₁ := by
      show replying _ (s.runSyncFinalizers r) = _
      rw [hend]
      rfl
    obtain ⟨-, rfl⟩ := hstep.eq_of_ok hexec
    exact ⟨(append_nil regs).symm ▸ hnumbered, fun hinner => absurd hinner Bool.false_ne_true⟩
  | popRegionFinalizer r =>
    refine ⟨?_, fun hinner => absurd hinner Bool.false_ne_true⟩
    have hexec : s.exec (.popRegionFinalizer r) =
        replying .finalizer (s.popRegionFinalizer r) := rfl
    rcases popRegionFinalizer_cases hinv r with hend | ⟨finalizer, hend, -⟩ <;> rw [hend] at hexec <;>
      obtain ⟨-, rfl⟩ := hstep.eq_of_ok hexec
    · exact (append_nil regs).symm ▸ h
    · exact (append_nil regs).symm ▸ h.dropTop r
  | cancelRequest r reason =>
    refine hplain rfl fun label hlabel => ?_
    rcases hlabel with hlabel | ⟨q, reason', rfl⟩
    · exact hlabel.isInner
    · rfl
  | taskCompleted t =>
    refine hplain rfl fun label hlabel => ?_
    rcases hlabel with hlabel | rfl
    · exact hlabel.isInner
    · rfl
  | _ => exact hplain rfl fun label hlabel => PlainLabel.isInner hlabel

theorem Numbered.new : Numbered [] .new where
  next := rfl
  known _ h := absurd h not_mem_nil
  matched _ := .nil
  once _ := nil_subperm
  bounded _ h := absurd h not_mem_nil
  registered := rfl

theorem Ordered.new : Ordered [] .new where
  order _ := rfl
  waiting _ _ _ _ := rfl
  closed before r time after h := absurd h (by simp [RuntimeState.new])

theorem finalizers_run {history : List RuntimeEvent} (hrun : runtimeSystem.Run .new history s) :
    Numbered (registrations history) s ∧
      ((∀ event ∈ history, event.op.isInner = true) → Ordered (registrations history) s) := by
  refine (hrun.history_induction (I := fun bs u => Inv u ∧ Numbered (registrations bs) u ∧
    ((∀ event ∈ bs, event.op.isInner = true) → Ordered (registrations bs) u))
    ⟨.new, .new, fun _ => .new⟩ fun bs u event u' _ ⟨hinv, hn, ho⟩ hstep => ?_).2
  have hsnoc : registrations (bs ++ [event]) = registrations bs ++ registration event := by
    simp [registrations]
  rw [hsnoc]
  obtain ⟨hnumbered, hordered⟩ := finalizers_step hinv hn hstep
  refine ⟨hinv.via (step_via hinv hstep), hnumbered, fun hinner => ?_⟩
  exact hordered (hinner event (by simp)) (ho fun e he => hinner e (mem_append_left _ he))

theorem Numbered.ledger_nodup (h : Numbered regs s) (r : RegionId) : (ledger regs s r).Nodup := by
  obtain ⟨l, hperm, hsub⟩ := h.once r
  exact hperm.nodup_iff.mp (hsub.nodup (nodup_range.filter _))

theorem Numbered.ranIds_nodup (h : Numbered regs s) : (ranIds s.finalizerHistory).Nodup := by
  refine nodup_iff_count_le_one.mpr fun id => ?_
  by_cases hmem : id ∈ ranIds s.finalizerHistory
  · obtain ⟨⟨r, finalizer⟩, hget⟩ : ∃ entry, regs[id]? = some entry :=
      ⟨_, getElem?_eq_getElem (h.bounded id hmem)⟩
    have hbelongs : regs.belongs r id = true := (regs.belongs_iff r id).mpr ⟨finalizer, hget⟩
    have hnodup : (ranOf regs s r).Nodup :=
      (nodup_append.mp (nodup_append.mp (h.ledger_nodup r)).1).1
    rw [← count_filter hbelongs]
    exact nodup_iff_count_le_one.mp hnodup id
  · rw [count_eq_zero_of_not_mem hmem]
    exact Nat.zero_le 1

/-- A finalizer whose task cannot be spawned goes back to where it was. -/
theorem reinsertFinalizer_refused {r : RegionId} {id : Nat} {finalizer : Finalizer}
    {s₁ s₂ : RuntimeState} (h : Inv s)
    (hpop : s.popTrackedFinalizer r = .ok (some (id, finalizer)) s₁)
    (hspawn : s₁.spawnFinalizerTask r id = .ok none s₂) (q : RegionId) :
    (s₂.reinsertFinalizer r id finalizer).finalizers q = s.finalizers q ∧
      (s₂.reinsertFinalizer r id finalizer).finalizerIds q = s.finalizerIds q := by
  rcases popTrackedFinalizer_cases h r with ⟨hend, -⟩ |
    ⟨record, finalizer', rest, id', ids, hrecord, hstack, hids, hend⟩
  · cases hend.symm.trans hpop
  cases hend.symm.trans hpop
  -- the refusal leaves everything in place but the slots of the task arena
  have hsame : SameContents (s.dropTop r) s₂ := by
    unfold spawnFinalizerTask at hspawn
    dsimp only at hspawn
    rcases createTaskInfrastructure_cases (h.dropTop r) r
      (finalizerBudget.withDeadline (min ((s.dropTop r).now +
        finalizerTimeBudgetNanos) u64Max)) true with
      hpanic | ⟨err, s', hcreated, hcontents, -⟩ | ⟨t, s', hcreated, -⟩
    · rw [hpanic] at hspawn
      cases hspawn
    all_goals
      rw [hcreated] at hspawn
      cases hspawn
    exact hcontents
  have hlive : (s.dropTop r).region r = some { record with finalizers := record.finalizers.tail } :=
    (s.region_updateRegion_self r _).trans (congrArg _ hrecord)
  have hcons : s.finalizers r = finalizer :: rest := by
    rw [finalizers_eq, hrecord, ← hstack]
    rfl
  have hviews : ∀ p, s₂.finalizers p = (s.dropTop r).finalizers p ∧
      s₂.finalizerIds p = (s.dropTop r).finalizerIds p := by
    intro p
    constructor
    · rw [finalizers_eq, finalizers_eq, hsame.region]
    · rw [hsame.rest]
      rfl
  constructor
  · refine (s₂.finalizers_addFinalizer finalizer ((hsame.region r).trans hlive) q).trans ?_
    rw [(hviews q).1, (hviews r).1, finalizers_dropTop, finalizers_dropTop, if_pos rfl, hcons]
    split_ifs with hq
    · rw [hq, hcons]
      rfl
    · rfl
  · refine (finalizerIds_pushFinalizerId _ r q id).trans ?_
    show (if q = r then id :: s₂.finalizerIds r else s₂.finalizerIds q) = _
    rw [(hviews q).2, (hviews r).2, finalizerIds_dropTop,
      finalizerIds_dropTop, if_pos rfl, s.finalizerIds_of_some hids]
    split_ifs with hq
    · rw [hq, s.finalizerIds_of_some hids]
      rfl
    · rfl

end Runs

/-- Every number of a region has run before the region was recorded as closed. -/
def RanBeforeClose (regs : Registrations) (s : RuntimeState) : Prop :=
  ∀ before r time after, s.finalizerHistory = before ++ .regionClosed r time :: after →
    ∀ id ∈ regs.numbersOf r, id ∈ ranIds before

structure FinalizersOk (history : List RuntimeEvent) (s : RuntimeState) : Prop where
  /-- No finalizer runs twice, and none that is running or waiting has run. -/
  once : (ranIds s.finalizerHistory).Nodup ∧ ∀ r, (ledger (registrations history) s r).Nodup
  /-- The history has the registrations with their numbers. -/
  registered : s.finalizerHistory.filterMap (·.registered?) =
    (registrations history).zipIdx.map fun entry => (entry.2, entry.1.1)
  /-- Both stacks of a region hold the same finalizers in the same order. -/
  matched : ∀ r, Matched (registrations history) s r
  /-- A region has at most one asynchronous finalizer outstanding. -/
  single : ∀ r t t', s.owner t = some r → s.owner t' = some r →
    s.asyncFinalizerTasks t ≠ none → s.asyncFinalizerTasks t' ≠ none → t = t'
  /-- A finalizer whose task cannot be spawned goes back to where it was. -/
  putBack : ∀ r id finalizer s₁ s₂, s.popTrackedFinalizer r = .ok (some (id, finalizer)) s₁ →
    s₁.spawnFinalizerTask r id = .ok none s₂ → ∀ q,
      (s₂.reinsertFinalizer r id finalizer).finalizers q = s.finalizers q ∧
        (s₂.reinsertFinalizer r id finalizer).finalizerIds q = s.finalizerIds q
  /-- Every operation ends, and not with the panics of the finalizer stacks. -/
  ends : ∀ op, (s.exec op).Ends (fun _ _ => True) fun cause _ =>
    cause ≠ .finalizerIdsMissing ∧ cause ≠ .finalizerIdsOutOfSync
  /-- Unless finalizers are taken off from outside, those that have run, the running one and
  those on the stack are the registered ones in reverse. -/
  order : (∀ event ∈ history, event.op.isInner = true) → ∀ r,
    ranOf (registrations history) s r ++ s.activeIds r ++ s.finalizerIds r =
      ((registrations history).numbersOf r).reverse
  closed : (∀ event ∈ history, event.op.isInner = true) →
    RanBeforeClose (registrations history) s

theorem finalizer_discipline {history : List RuntimeEvent} {s : RuntimeState}
    (hrun : runtimeSystem.Run .new history s) :
    FinalizersOk history s := by
  have hinv := inv_run hrun
  obtain ⟨hnumbered, hordered⟩ := finalizers_run hrun
  constructor
  case once => exact ⟨hnumbered.ranIds_nodup, hnumbered.ledger_nodup⟩
  case registered => exact hnumbered.registered
  case matched => exact hnumbered.matched
  case single =>
    intro r t t' ht ht' hasync hasync'
    obtain ⟨q, hq, hactive⟩ := hinv.stack.async t hasync
    obtain ⟨q', hq', hactive'⟩ := hinv.stack.async t' hasync'
    obtain rfl : q = r := some.inj (hq.symm.trans ht)
    obtain rfl : q' = q := some.inj (hq'.symm.trans ht')
    exact some.inj (hactive.symm.trans hactive')
  case putBack => exact fun r id finalizer s₁ s₂ => reinsertFinalizer_refused hinv
  case ends =>
    exact fun op => Flow.Ends.mono (exec_spec hinv op) (fun _ _ _ => trivial)
      fun _ _ hpanic => hpanic.cause
  case order => exact fun hinner => (hordered hinner).order
  case closed =>
    exact fun hinner before r time after hhistory =>
      ((hordered hinner).closed before r time after hhistory).2

/-- Three finalizers of a region, the second one asynchronous. -/
def finalizedScope : List RuntimeOp :=
  let root : RegionId := ⟨⟨0, 0⟩⟩
  [.createRootRegion .infinite, .registerFinalizer root (.sync 1 none),
    .registerFinalizer root (.async 2), .registerFinalizer root (.sync 3 (some ⟨"late"⟩)),
    .closeRegion root, .advanceRegionState root, .drainReadyAsyncFinalizers,
    .taskOp ⟨⟨0, 0⟩⟩ (.complete (.ok ())), .taskCompleted ⟨⟨0, 0⟩⟩]

theorem finalizer_discipline_finalized_scope :
    ranIds (perform finalizedScope .new).2.finalizerHistory = [2, 1, 0] ∧
      (perform finalizedScope .new).1.length = 9 ∧
      (∀ event ∈ (perform finalizedScope .new).1, event.op.isInner = true) ∧
      FinalizersOk (perform finalizedScope .new).1 (perform finalizedScope .new).2 :=
  ⟨by decide +kernel, by decide +kernel, by decide +kernel,
    finalizer_discipline (perform_run finalizedScope .new)⟩

/-- The operation is the public `pop_region_finalizer`. -/
def RuntimeOp.popsFinalizer : RuntimeOp → Bool
  | .popRegionFinalizer _ => true
  | _ => false

/-- The asynchronous finalizer is handed out, and the region closes without it. -/
def handedOut : List RuntimeOp :=
  let root : RegionId := ⟨⟨0, 0⟩⟩
  [.createRootRegion .infinite, .registerFinalizer root (.async 7), .runSyncFinalizers root,
    .closeRegion root, .advanceRegionState root]

/-- The first finalizer runs while the region is open, and the second is registered later. -/
def ranEarly : List RuntimeOp :=
  let root : RegionId := ⟨⟨0, 0⟩⟩
  [.createRootRegion .infinite, .registerFinalizer root (.sync 1 none), .runSyncFinalizers root,
    .registerFinalizer root (.sync 2 none), .closeRegion root, .advanceRegionState root]

theorem finalizer_discipline_handed_out :
    ¬ (∀ history s, runtimeSystem.Run .new history s →
        (∀ event ∈ history, event.op.popsFinalizer = false) →
          RanBeforeClose (registrations history) s) ∧
      ¬ (∀ history s, runtimeSystem.Run .new history s →
        (∀ event ∈ history, event.op.popsFinalizer = false) → ∀ r,
          ranOf (registrations history) s r <+: ((registrations history).numbersOf r).reverse) := by
  constructor
  · intro h
    have hran := h _ _ (perform_run handedOut .new) (by decide +kernel)
      [.registered 0 ⟨⟨0, 0⟩⟩ 0] ⟨⟨0, 0⟩⟩ 0 [] (by decide +kernel) 0 (by decide +kernel)
    exact absurd hran (by decide)
  · intro h
    have horder := h _ _ (perform_run ranEarly .new) (by decide +kernel) ⟨⟨0, 0⟩⟩
    exact absurd horder (by decide +kernel)

end Asupersync
