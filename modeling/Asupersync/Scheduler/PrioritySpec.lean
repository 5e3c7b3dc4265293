import Asupersync.Scheduler.Priority

/-!
# What the pops of the priority scheduler do

One lemma for each loop and each pop of the scheduler, in terms of the scheduled
set and of the entries of the lanes.

**Input.**  A scheduler whose scheduled set keeps its representation invariant.

**Results.**
* `LaneTook`, `Took`: a pop answers a scheduled task and takes it out of the set,
  or it answers nothing and the set stays; the entries it drops belong to tasks
  that are not scheduled afterwards.
* A pop that answers nothing has left no scheduled entry in the lanes it looks
  at, timed entries that are not yet due apart.
-/

namespace Asupersync

open Lib Lane LaneEntry List Option ScheduledSet

namespace Lane

variable {α : Type} [LaneEntry α]

/-- What a claiming loop does to one lane and to the scheduled set. -/
structure LaneTook (lane : List α) (scheduled : ScheduledSet) (r : Option α)
    (lane' : List α) (scheduled' : ScheduledSet) : Prop where
  valid : scheduled'.Valid
  sub : ∀ x ∈ lane', x ∈ lane
  keep : ∀ x ∈ lane, LaneEntry.task x ∈ scheduled'.elems → x ∈ lane'
  some_spec : ∀ entry, r = some entry →
    LaneEntry.task entry ∈ scheduled.elems ∧
      scheduled'.elems = scheduled.elems.erase (LaneEntry.task entry)
  none_spec : r = none → scheduled'.elems = scheduled.elems

namespace LaneTook

variable {lane lane' lane'' : List α} {scheduled scheduled' scheduled'' : ScheduledSet}
  {r : Option α}

theorem refl (h : scheduled.Valid) : LaneTook lane scheduled none lane scheduled where
  valid := h
  sub _ hx := hx
  keep _ hx _ := hx
  some_spec _ h := by cases h
  none_spec _ := rfl

/-- A turn without an answer, and the rest of the loop. -/
theorem trans (h₁ : LaneTook lane scheduled none lane' scheduled')
    (h₂ : LaneTook lane' scheduled' r lane'' scheduled'') :
    LaneTook lane scheduled r lane'' scheduled'' := by
  have heq := h₁.none_spec rfl
  have hsub : ∀ t ∈ scheduled''.elems, t ∈ scheduled'.elems := by
    intro t ht
    cases r with
    | none => rwa [h₂.none_spec rfl] at ht
    | some entry =>
      rw [(h₂.some_spec entry rfl).2] at ht
      exact Finset.mem_of_mem_erase ht
  constructor
  case valid => exact h₂.valid
  case sub => exact fun x hx => h₁.sub x (h₂.sub x hx)
  case keep => exact fun x hx ht => h₂.keep x (h₁.keep x hx (hsub _ ht)) ht
  case some_spec =>
    intro entry hr
    rw [← heq]
    exact h₂.some_spec entry hr
  case none_spec =>
    intro hr
    rw [← heq]
    exact h₂.none_spec hr

variable {entry : α}

/-- One entry is popped whose task is not scheduled afterwards. -/
theorem of_popped (hvalid : scheduled'.Valid) (hperm : lane.Perm (entry :: lane'))
    (hgone : task entry ∉ scheduled'.elems) (hsome : ∀ e, r = some e → task e ∈ scheduled.elems ∧
      scheduled'.elems = scheduled.elems.erase (task e))
    (hnone : r = none → scheduled'.elems = scheduled.elems) :
    LaneTook lane scheduled r lane' scheduled' := by
  refine ⟨hvalid, fun x hx => hperm.mem_iff.mpr (mem_cons_of_mem _ hx), ?_, hsome, hnone⟩
  intro x hx ht
  rcases mem_cons.mp (hperm.mem_iff.mp hx) with rfl | hx
  · exact absurd ht hgone
  · exact hx

/-- One entry is popped: its task is claimed, or the entry is thrown away. -/
theorem of_remove {claimed : Bool} (hvalid : scheduled.Valid) (hperm : lane.Perm (entry :: lane'))
    (hremove : scheduled.remove (task entry) = (scheduled', claimed)) :
    LaneTook lane scheduled (if claimed then some entry else none) lane' scheduled' := by
  obtain ⟨hv, helems, hans⟩ := remove_spec (task entry) hvalid
  rw [hremove] at hv helems hans
  have hgone : task entry ∉ scheduled'.elems := helems ▸ Finset.notMem_erase _ _
  cases claimed with
  | true =>
    refine of_popped hv hperm hgone (fun e he => ?_) nofun
    cases he
    exact ⟨of_decide_eq_true hans.symm, helems⟩
  | false =>
    refine of_popped hv hperm hgone nofun fun _ => ?_
    exact helems.trans (Finset.erase_eq_of_notMem (of_decide_eq_false hans.symm))

end LaneTook

/-- A way to take one entry out of a lane. -/
structure Pops (popOne : List α → Option (α × List α)) : Prop where
  perm : ∀ {l a l'}, popOne l = some (a, l') → l.Perm (a :: l')
  empty : ∀ {l}, popOne l = none → l = []

variable {popOne : List α → Option (α × List α)}

omit [LaneEntry α] in
theorem Pops.length_eq (hpops : Pops popOne) {lane rest : List α} {entry : α}
    (h : popOne lane = some (entry, rest)) : lane.length = rest.length + 1 :=
  (hpops.perm h).length_eq

/-- A claiming loop; one that finds nothing has emptied the lane. -/
theorem claimFirst_spec (hpops : Pops popOne) (fuel : Nat)
    (lane : List α) (scheduled : ScheduledSet) (hvalid : scheduled.Valid) :
    LaneTook lane scheduled (claimFirst popOne fuel lane scheduled).1
      (claimFirst popOne fuel lane scheduled).2.1 (claimFirst popOne fuel lane scheduled).2.2 ∧
      (lane.length ≤ fuel → (claimFirst popOne fuel lane scheduled).1 = none →
        (claimFirst popOne fuel lane scheduled).2.1 = []) := by
  induction fuel generalizing lane scheduled with
  | zero => exact ⟨.refl hvalid, fun hfuel _ => length_eq_zero_iff.mp (Nat.le_zero.mp hfuel)⟩
  | succ fuel ih =>
    unfold claimFirst
    match hpop : popOne lane with
    | none => exact ⟨.refl hvalid, fun _ _ => hpops.empty hpop⟩
    | some ⟨entry, rest⟩ =>
      simp only
      rcases hrem : scheduled.remove (task entry) with ⟨scheduled', claimed⟩
      have htook := LaneTook.of_remove hvalid (hpops.perm hpop) hrem
      cases claimed with
      | true => exact ⟨htook, nofun⟩
      | false =>
        obtain ⟨hrest, hempty⟩ := ih rest scheduled' htook.valid
        have hlen := hpops.length_eq hpop
        exact ⟨htook.trans hrest, fun hfuel => hempty (by omega)⟩

variable [DecidableEq α]

theorem pop_pops : Pops (pop : List α → Option (α × List α)) where
  perm h := MaxHeap.pop_perm le h
  empty h := (MaxHeap.pop_eq_none_iff le _).mp h

/-- The scratch vector grows by what leaves the lane. -/
theorem collectFrontier_spec (key room : Nat) (scratch lane : List α) :
    ∃ taken, scratch ++ taken = (collectFrontier key room scratch lane).1 ∧
      lane.Perm (taken ++ (collectFrontier key room scratch lane).2) := by
  induction room generalizing scratch lane with
  | zero => exact ⟨[], append_nil _, .refl _⟩
  | succ room ih =>
    unfold collectFrontier
    match hpop : pop lane with
    | none => exact ⟨[], append_nil _, .refl _⟩
    | some ⟨entry, rest⟩ =>
      simp only
      split
      · exact ⟨[], append_nil _, .refl _⟩
      · obtain ⟨taken, hscratch, hperm⟩ := ih (scratch ++ [entry]) rest
        rw [append_assoc] at hscratch
        exact ⟨entry :: taken, hscratch, (pop_pops.perm hpop).trans (hperm.cons entry)⟩

theorem popWithRng_pops (scratchCapacity : Nat) (rngHint : UInt64) :
    Pops (popWithRng scratchCapacity rngHint : List α → Option (α × List α)) := by
  constructor
  case perm =>
    intro l a l' h
    unfold popWithRng at h
    match hpop : pop l with
    | none => rw [hpop] at h; cases h
    | some ⟨first, rest⟩ =>
      have hfirst := pop_pops.perm hpop
      rw [hpop] at h
      simp only at h
      cases hpeek : peek rest with
      | none =>
        rw [hpeek] at h
        cases h
        exact hfirst
      | some next =>
        rw [hpeek] at h
        simp only at h
        split at h
        · cases h
          exact hfirst
        -- the hint picks one of the frontier, the others go back
        obtain ⟨taken, hscratch, hperm⟩ :=
          collectFrontier_spec (key first) (scratchCapacity - 1) [first] rest
        rw [← hscratch] at h
        cases h
        generalize hall : [first] ++ taken = scratch
        have hidx : tieBreakIndex rngHint scratch.length < scratch.length :=
          Nat.mod_lt _ (hall ▸ Nat.succ_pos _)
        have hget : scratch.getD (tieBreakIndex rngHint scratch.length) first =
            scratch[tieBreakIndex rngHint scratch.length] := by
          rw [getD_eq_getElem?_getD, getElem?_eq_getElem hidx, getD_some]
        rw [hget]
        refine hfirst.trans ((hperm.cons first).trans ?_)
        rw [← cons_append, ← singleton_append, hall]
        exact (getElem_cons_eraseIdx_perm hidx).symm.append_right _
  case empty =>
    intro l h
    unfold popWithRng at h
    match hpop : pop l with
    | none => exact pop_pops.empty hpop
    | some ⟨first, rest⟩ =>
      simp only [hpop] at h
      split at h
      · cases h
      · split at h <;> cases h

theorem pruneHead_spec (scheduled : ScheduledSet) (fuel : Nat) (lane : List α)
    (hvalid : scheduled.Valid) :
    LaneTook lane scheduled none (pruneHead scheduled fuel lane) scheduled ∧
      (pruneHead scheduled fuel lane).length ≤ lane.length := by
  induction fuel generalizing lane with
  | zero => exact ⟨.refl hvalid, le_refl _⟩
  | succ fuel ih =>
    unfold pruneHead
    match hpop : pop lane with
    | none => exact ⟨.refl hvalid, le_refl _⟩
    | some ⟨entry, rest⟩ =>
      simp only
      split_ifs with hin
      · exact ⟨.refl hvalid, le_refl _⟩
      · obtain ⟨htook, hlen⟩ := ih rest
        have hout : task entry ∉ scheduled.elems := by
          rwa [mem_elems]
        refine ⟨(LaneTook.of_popped hvalid (pop_pops.perm hpop) hout (by simp) fun _ => rfl).trans htook,
          ?_⟩
        rw [pop_pops.length_eq hpop]
        exact Nat.le_succ_of_le hlen

end Lane

section TimedOrder

/-- The entry on top of the timed lane has the earliest deadline. -/
theorem TimedEntry.peek_earliest {lane : List TimedEntry} {top : TimedEntry}
    (h : peek lane = some top) :
    ∀ entry ∈ lane, top.deadline ≤ entry.deadline :=
  MaxHeap.peek_key_le (fun _ _ => rfl) h

/-- A claiming loop over the timed lane; one that finds nothing has left no scheduled entry
that is due. -/
theorem Lane.claimDue_spec {popOne : List TimedEntry → Option (TimedEntry × List TimedEntry)}
    (hpops : Pops popOne) (now : Time) (fuel : Nat) (lane : List TimedEntry)
    (scheduled : ScheduledSet) (hvalid : scheduled.Valid) :
    LaneTook lane scheduled (claimDue popOne now fuel lane scheduled).1
      (claimDue popOne now fuel lane scheduled).2.1
      (claimDue popOne now fuel lane scheduled).2.2 ∧
      (lane.length < fuel → (claimDue popOne now fuel lane scheduled).1 = none →
        ∀ entry ∈ (claimDue popOne now fuel lane scheduled).2.1, now < entry.deadline) := by
  induction fuel generalizing lane scheduled with
  | zero => exact ⟨.refl hvalid, fun hfuel => absurd hfuel (Nat.not_lt_zero _)⟩
  | succ fuel ih =>
    unfold claimDue
    obtain ⟨hpruned, hlen⟩ := pruneHead_spec scheduled lane.length lane hvalid
    generalize pruneHead scheduled lane.length lane = lane' at hpruned hlen ⊢
    simp only
    cases hpeek : peek lane' with
    | none =>
      refine ⟨hpruned, fun _ _ entry hentry => ?_⟩
      rw [(MaxHeap.peek_eq_none_iff le lane').mp hpeek] at hentry
      cases hentry
    | some earliest =>
      simp only
      split_ifs with hdue
      swap
      · refine ⟨hpruned, fun _ _ entry hentry => ?_⟩
        exact lt_of_lt_of_le (Nat.lt_of_not_le hdue) (TimedEntry.peek_earliest hpeek entry hentry)
      match hpop : popOne lane' with
      | none =>
        rw [hpops.empty hpop] at hpeek
        cases hpeek
      | some ⟨entry, rest⟩ =>
        simp only
        rcases hrem : scheduled.remove (task entry) with ⟨scheduled', claimed⟩
        have htook := hpruned.trans (LaneTook.of_remove hvalid (hpops.perm hpop) hrem)
        cases claimed with
        | true => exact ⟨htook, nofun⟩
        | false =>
          obtain ⟨hrest, hlate⟩ := ih rest scheduled' htook.valid
          have hlen' := hpops.length_eq hpop
          exact ⟨htook.trans hrest, fun hfuel => hlate (by omega)⟩

end TimedOrder

namespace Scheduler

/-- The entries of a lane, each with its task and its priority or deadline. -/
def entries (s : Scheduler) : DispatchLane → List (TaskId × Nat)
  | .cancel => s.cancelLane.map fun e => (e.task, e.priority)
  | .timed => s.timedLane.map fun e => (e.task, e.deadline)
  | .ready => s.readyLane.map fun e => (e.task, e.priority)

/-- What a pop with the answer `r` does. -/
structure Took (s : Scheduler) (r : Option TaskId) (s' : Scheduler) : Prop where
  valid : s'.scheduled.Valid
  sub : ∀ lane, ∀ x ∈ s'.entries lane, x ∈ s.entries lane
  keep : ∀ lane, ∀ x ∈ s.entries lane, x.1 ∈ s'.scheduled.elems → x ∈ s'.entries lane
  some_spec : ∀ task, r = some task →
    task ∈ s.scheduled.elems ∧ s'.scheduled.elems = s.scheduled.elems.erase task
  none_spec : r = none → s'.scheduled.elems = s.scheduled.elems

namespace Took

variable {s s' s'' : Scheduler} {r : Option TaskId}

theorem refl (h : s.scheduled.Valid) : Took s none s where
  valid := h
  sub _ _ hx := hx
  keep _ _ hx _ := hx
  some_spec _ h := by cases h
  none_spec _ := rfl

theorem subset (h : Took s r s') : s'.scheduled.elems ⊆ s.scheduled.elems := by
  cases r with
  | none => rw [h.none_spec rfl]
  | some task =>
    rw [(h.some_spec task rfl).2]
    exact Finset.erase_subset _ _

theorem trans (h₁ : Took s none s') (h₂ : Took s' r s'') : Took s r s'' := by
  have heq := h₁.none_spec rfl
  constructor
  case valid => exact h₂.valid
  case sub => exact fun lane x hx => h₁.sub lane x (h₂.sub lane x hx)
  case keep =>
    intro lane x hx ht
    exact h₂.keep lane x (h₁.keep lane x hx (h₂.subset ht)) ht
  case some_spec =>
    intro task hr
    rw [← heq]
    exact h₂.some_spec task hr
  case none_spec =>
    intro hr
    rw [← heq]
    exact h₂.none_spec hr

/-- A loop over one lane, seen from the scheduler: the other lanes stay. -/
theorem of_lane {α : Type} [LaneEntry α] {lane lane' : List α} {r : Option α} (which : DispatchLane)
    (view : α → TaskId × Nat) (hview : ∀ e, (view e).1 = task e)
    (h : LaneTook lane s.scheduled r lane' s'.scheduled) (hs : s.entries which = lane.map view)
    (hs' : ∀ other, s'.entries other = if other = which then lane'.map view else s.entries other) :
    Took s (r.map task) s' := by
  constructor
  case valid => exact h.valid
  case sub =>
    intro other x hx
    rw [hs'] at hx
    split at hx
    next ho =>
      obtain ⟨e, he, rfl⟩ := mem_map.mp hx
      rw [ho, hs]
      exact mem_map_of_mem (h.sub e he)
    next => exact hx
  case keep =>
    intro other x hx ht
    rw [hs']
    split
    next ho =>
      rw [ho, hs] at hx
      obtain ⟨e, he, rfl⟩ := mem_map.mp hx
      rw [hview] at ht
      exact mem_map_of_mem (h.keep e he ht)
    next => exact hx
  case some_spec =>
    intro task hr
    obtain ⟨entry, he, rfl⟩ := map_eq_some_iff.mp hr
    exact h.some_spec entry he
  case none_spec => exact fun hr => h.none_spec (map_eq_none_iff.mp hr)

variable {scheduled : ScheduledSet} {r : Option SchedulerEntry} {lane : List SchedulerEntry}

theorem cancel (h : LaneTook s.cancelLane s.scheduled r lane scheduled) :
    Took s (r.map SchedulerEntry.task) { s with cancelLane := lane, scheduled := scheduled } :=
  of_lane .cancel (fun e => (e.task, e.priority)) (fun _ => rfl) h rfl
    (fun other => by cases other <;> rfl)

theorem timed {r : Option TimedEntry} {lane : List TimedEntry}
    (h : LaneTook s.timedLane s.scheduled r lane scheduled) :
    Took s (r.map TimedEntry.task) { s with timedLane := lane, scheduled := scheduled } :=
  of_lane .timed (fun e => (e.task, e.deadline)) (fun _ => rfl) h rfl
    (fun other => by cases other <;> rfl)

theorem ready (h : LaneTook s.readyLane s.scheduled r lane scheduled) :
    Took s (r.map SchedulerEntry.task) { s with readyLane := lane, scheduled := scheduled } :=
  of_lane .ready (fun e => (e.task, e.priority)) (fun _ => rfl) h rfl
    (fun other => by cases other <;> rfl)

end Took

/-- A pop over some lanes: what it does, and that an empty answer means that
these lanes have nothing left, timed entries after the time `now` apart. -/
structure PopSpec (looks : List DispatchLane) (now : Option Time)
    (s : Scheduler) (r : Option TaskId) (s' : Scheduler) : Prop where
  took : Took s r s'
  left : r = none → ∀ lane ∈ looks, ∀ x ∈ s'.entries lane,
    lane = .timed ∧ ∃ time, now = some time ∧ time < x.2

variable {s s' : Scheduler} {r : Option TaskId} {now : Option Time}

/-- A pop that ignores deadlines leaves less than one that does not. -/
theorem PopSpec.mono {looks : List DispatchLane} (h : PopSpec looks none s r s') :
    PopSpec looks now s r s' := by
  refine ⟨h.took, fun hr lane hlane x hx => ?_⟩
  obtain ⟨-, time, htime, -⟩ := h.left hr lane hlane x hx
  cases htime

/-- A claiming loop over one lane. -/
theorem PopSpec.of_claim {α : Type} [LaneEntry α] {popOne : List α → Option (α × List α)}
    {lane : List α} {which : DispatchLane} (hpops : Pops popOne)
    (hvalid : s.scheduled.Valid) (view : α → TaskId × Nat)
    (took : LaneTook lane s.scheduled (claimFirst popOne lane.length lane s.scheduled).1
      (claimFirst popOne lane.length lane s.scheduled).2.1
      (claimFirst popOne lane.length lane s.scheduled).2.2 →
        Took s ((claimFirst popOne lane.length lane s.scheduled).1.map task) s')
    (hlane : s'.entries which = (claimFirst popOne lane.length lane s.scheduled).2.1.map view) :
    PopSpec [which] none s ((claimFirst popOne lane.length lane s.scheduled).1.map task) s' := by
  obtain ⟨hclaim, hempty⟩ := claimFirst_spec hpops lane.length lane s.scheduled hvalid
  refine ⟨took hclaim, fun hr lane hmem x hx => ?_⟩
  rw [mem_singleton.mp hmem, hlane, hempty (le_refl _) (map_eq_none_iff.mp hr), map_nil] at hx
  cases hx

section

variable {popOne : List SchedulerEntry → Option (SchedulerEntry × List SchedulerEntry)}
  {popTimed : List TimedEntry → Option (TimedEntry × List TimedEntry)}

theorem claimCancel_spec (hpops : Pops popOne) (hvalid : s.scheduled.Valid) :
    PopSpec [.cancel] none s (s.claimCancel popOne).1 (s.claimCancel popOne).2 :=
  .of_claim hpops hvalid (fun e => (e.task, e.priority)) .cancel rfl

theorem claimTimed_spec (hpops : Pops popTimed) (hvalid : s.scheduled.Valid) :
    PopSpec [.timed] none s (s.claimTimed popTimed).1 (s.claimTimed popTimed).2 :=
  .of_claim hpops hvalid (fun e => (e.task, e.deadline)) .timed rfl

theorem claimReady_spec (hpops : Pops popOne) (hvalid : s.scheduled.Valid) :
    PopSpec [.ready] none s (s.claimReady popOne).1 (s.claimReady popOne).2 :=
  .of_claim hpops hvalid (fun e => (e.task, e.priority)) .ready rfl

theorem claimTimedDue_spec (hpops : Pops popTimed) (now : Time) (hvalid : s.scheduled.Valid) :
    PopSpec [.timed] (some now) s (s.claimTimedDue popTimed now).1
      (s.claimTimedDue popTimed now).2 := by
  obtain ⟨hclaim, hlate⟩ := claimDue_spec hpops now (s.timedLane.length + 1) s.timedLane _ hvalid
  refine ⟨.timed hclaim, fun hr lane hlane x hx => ?_⟩
  rw [mem_singleton] at hlane
  subst hlane
  obtain ⟨entry, hentry, rfl⟩ := mem_map.mp hx
  exact ⟨rfl, now, rfl, hlate (Nat.lt_succ_self _) (map_eq_none_iff.mp hr) entry hentry⟩

end

/-- A pop over some lanes, then one over other lanes. -/
theorem orPop_spec {β : Type} (answer : Option β → Option TaskId) {looks₁ looks₂ : List DispatchLane}
    {first : Option β × Scheduler} {second : Scheduler → Option β × Scheduler}
    (hnone : answer none = none) (hsome : ∀ b, answer (some b) ≠ none)
    (h₁ : PopSpec looks₁ now s (answer first.1) first.2)
    (h₂ : ∀ s₁, s₁.scheduled.Valid → PopSpec looks₂ now s₁ (answer (second s₁).1) (second s₁).2) :
    PopSpec (looks₁ ++ looks₂) now s (answer (orPop first second).1) (orPop first second).2 := by
  obtain ⟨r, s₁⟩ := first
  cases r with
  | some b => exact ⟨h₁.took, fun hr => absurd hr (hsome b)⟩
  | none =>
    rw [hnone] at h₁
    have h₂ := h₂ s₁ h₁.took.valid
    refine ⟨h₁.took.trans h₂.took, fun hr lane hlane x hx => ?_⟩
    rcases mem_append.mp hlane with hlane | hlane
    · exact h₁.left rfl lane hlane x (h₂.took.sub lane x hx)
    · exact h₂.left hr lane hlane x hx

theorem pop_spec (hvalid : s.scheduled.Valid) :
    PopSpec [.cancel, .timed, .ready] none s s.pop.1 s.pop.2 := by
  have h := orPop_spec id rfl nofun (claimCancel_spec pop_pops hvalid) fun s₁ hv₁ =>
    orPop_spec id rfl nofun (claimTimed_spec pop_pops hv₁) fun s₂ hv₂ =>
      claimReady_spec pop_pops hv₂
  exact h

theorem popAnyLaneWithHint_spec (rngHint : UInt64) (now : Time) (hvalid : s.scheduled.Valid) :
    PopSpec [.cancel, .timed, .ready] (some now) s
      ((s.popAnyLaneWithHint rngHint now).1.map Prod.snd)
      (s.popAnyLaneWithHint rngHint now).2 := by
  have htag : ∀ (tag : Nat) (r : Option TaskId × Scheduler),
      (tagged tag r).1.map Prod.snd = r.1 := by
    simp [tagged, Function.comp_def]
  change PopSpec ([.cancel] ++ ([.timed] ++ [.ready])) _ _ _ _
  refine orPop_spec (Option.map Prod.snd) rfl nofun ?_ fun s₁ hv₁ =>
    orPop_spec (Option.map Prod.snd) rfl nofun ?_ fun s₂ hv₂ => ?_
  · rw [htag]
    exact (claimCancel_spec (popWithRng_pops _ _) hvalid).mono
  · rw [htag]
    exact claimTimedDue_spec (popWithRng_pops _ _) now hv₁
  · rw [htag]
    exact (claimReady_spec (popWithRng_pops _ _) hv₂).mono

/-- The deadline test prunes the timed lane at most; when it fails, nothing in
the timed lane is due. -/
theorem timedDue_spec (now : Option Time) (hvalid : s.scheduled.Valid) :
    Took s none (s.timedDue now).2 ∧ (s.timedDue now).2.size ≤ s.size ∧
      ((s.timedDue now).1 = false → ∀ x ∈ (s.timedDue now).2.timedLane,
        ∃ time, now = some time ∧ time < x.deadline) := by
  cases now with
  | none => exact ⟨Took.refl hvalid, le_refl _, fun h => by cases h⟩
  | some now =>
    obtain ⟨hpruned, hlen⟩ := pruneHead_spec s.scheduled s.timedLane.length s.timedLane hvalid
    have htook : Took s none s.pruneTimedHead := Took.timed hpruned
    have hlen : s.pruneTimedHead.size ≤ s.size := by
      simp only [size, pruneTimedHead]
      omega
    unfold timedDue nextValidTimedEntry
    cases hpeek : peek s.pruneTimedHead.timedLane with
    | none =>
      have hnil := (MaxHeap.peek_eq_none_iff le s.pruneTimedHead.timedLane).mp hpeek
      refine ⟨htook, hlen, fun _ x hx => ?_⟩
      rw [hnil] at hx
      cases hx
    | some earliest =>
      refine ⟨htook, hlen, fun hlate x hx => ⟨now, rfl, ?_⟩⟩
      have hlate : ¬ earliest.deadline ≤ now := of_decide_eq_false hlate
      exact lt_of_lt_of_le (Nat.lt_of_not_le hlate) (TimedEntry.peek_earliest hpeek x hx)

/-- The lanes that the loop looks at. -/
def loopLanes (withCancel : Bool) : List DispatchLane :=
  if withCancel then [.cancel, .timed, .ready] else [.timed, .ready]

theorem popLoop_spec (withCancel : Bool) (now : Option Time) (rngHint : UInt64) (fuel : Nat)
    (s : Scheduler) (hfuel : s.size < fuel) (hvalid : s.scheduled.Valid) :
    PopSpec (loopLanes withCancel) now s
      ((popLoop withCancel now rngHint fuel s).1.map Prod.fst)
      (popLoop withCancel now rngHint fuel s).2 := by
  induction fuel generalizing s with
  | zero => exact absurd hfuel (Nat.not_lt_zero _)
  | succ fuel ih =>
    -- a turn without an answer, and the rest of the loop
    have again : ∀ s₁ : Scheduler, Took s none s₁ → s₁.size < s.size →
        PopSpec (loopLanes withCancel) now s
          ((popLoop withCancel now rngHint fuel s₁).1.map Prod.fst)
          (popLoop withCancel now rngHint fuel s₁).2 := by
      intro s₁ htook hsize
      have hih := ih s₁ (by omega) htook.valid
      exact ⟨htook.trans hih.took, hih.left⟩
    unfold popLoop
    cases hcancel : (if withCancel then
        popWithRng s.scratchCapacity rngHint s.cancelLane else none) with
    | some popped =>
      obtain ⟨entry, rest⟩ := popped
      obtain ⟨-, hpop⟩ := ite_none_right_eq_some.mp hcancel
      have hperm := (popWithRng_pops _ _).perm hpop
      have hlen := (popWithRng_pops _ _).length_eq hpop
      simp only
      rcases hrem : s.scheduled.remove entry.task with ⟨scheduled, claimed⟩
      have htook := Took.cancel (LaneTook.of_remove hvalid hperm hrem)
      cases claimed with
      | true => exact ⟨htook, nofun⟩
      | false =>
        refine again _ htook ?_
        simp only [size]
        omega
    | none =>
      obtain ⟨hdueTook, hdueSize, hdueLeft⟩ := timedDue_spec now hvalid
      have hcancelNil : .cancel ∈ loopLanes withCancel → s.cancelLane = [] := by
        cases withCancel with
        | true => exact fun _ => (popWithRng_pops _ _).empty hcancel
        | false => exact fun h => by simp [loopLanes] at h
      simp only
      rcases hdue : s.timedDue now with ⟨due, s₁⟩
      rw [hdue] at hdueTook hdueSize hdueLeft
      cases htimed : (if due then
          popWithRng s₁.scratchCapacity rngHint s₁.timedLane else none) with
      | some popped =>
        obtain ⟨entry, rest⟩ := popped
        obtain ⟨-, hpop⟩ := ite_none_right_eq_some.mp htimed
        have hperm := (popWithRng_pops _ _).perm hpop
        have hlen := (popWithRng_pops _ _).length_eq hpop
        simp only
        rcases hrem : s₁.scheduled.remove entry.task with ⟨scheduled, claimed⟩
        have htook := hdueTook.trans (Took.timed (LaneTook.of_remove hdueTook.valid hperm hrem))
        cases claimed with
        | true => exact ⟨htook, nofun⟩
        | false =>
          refine again _ htook ?_
          simp only [size] at hdueSize ⊢
          omega
      | none =>
        match hready : popWithRng s₁.scratchCapacity rngHint s₁.readyLane with
        | some ⟨entry, rest⟩ =>
          have hperm := (popWithRng_pops _ _).perm hready
          have hlen := (popWithRng_pops _ _).length_eq hready
          simp only
          rcases hrem : s₁.scheduled.remove entry.task with ⟨scheduled, claimed⟩
          have htook := hdueTook.trans (Took.ready (LaneTook.of_remove hdueTook.valid hperm hrem))
          cases claimed with
          | true => exact ⟨htook, nofun⟩
          | false =>
            refine again _ htook ?_
            simp only [size] at hdueSize ⊢
            omega
        | none =>
          refine ⟨hdueTook, fun _ lane hlane x hx => ?_⟩
          cases lane with
          | cancel =>
            have hx := hdueTook.sub .cancel x hx
            simp only [entries, hcancelNil hlane, map_nil] at hx
            cases hx
          | timed =>
            obtain ⟨entry, hentry, rfl⟩ := mem_map.mp hx
            cases due with
            | true =>
              rw [(popWithRng_pops _ _).empty htimed] at hentry
              cases hentry
            | false => exact ⟨rfl, hdueLeft rfl entry hentry⟩
          | ready =>
            simp only [entries, (popWithRng_pops _ _).empty hready, map_nil] at hx
            cases hx

/-- What handing out a list of tasks does. -/
structure TookMany (s : Scheduler) (tasks : List TaskId) (s' : Scheduler) : Prop where
  valid : s'.scheduled.Valid
  keep : ∀ lane, ∀ x ∈ s.entries lane, x.1 ∈ s'.scheduled.elems → x ∈ s'.entries lane
  nodup : tasks.Nodup
  mem : ∀ task ∈ tasks, task ∈ s.scheduled.elems
  elems : s'.scheduled.elems = s.scheduled.elems \ tasks.toFinset

namespace TookMany

variable {s s' s'' : Scheduler}

theorem of_took (h : Took s r s') : TookMany s r.toList s' := by
  cases r with
  | none =>
    refine ⟨h.valid, h.keep, nodup_nil, nofun, ?_⟩
    simp [h.none_spec rfl]
  | some task =>
    obtain ⟨hin, helems⟩ := h.some_spec task rfl
    refine ⟨h.valid, h.keep, nodup_singleton task, ?_, ?_⟩
    · intro t ht
      rw [toList_some, mem_singleton] at ht
      rwa [ht]
    · rw [helems]
      ext t
      simp [and_comm]

/-- One turn, and then the rest of the tasks. -/
theorem cons {tasks : List TaskId} (h₁ : Took s r s') (h₂ : TookMany s' tasks s'') :
    TookMany s (r.toList ++ tasks) s'' := by
  have hsub : ∀ t ∈ s''.scheduled.elems, t ∈ s'.scheduled.elems := by
    intro t ht
    rw [h₂.elems] at ht
    exact (Finset.mem_sdiff.mp ht).1
  have hfirst := of_took h₁
  constructor
  case valid => exact h₂.valid
  case keep =>
    intro lane x hx ht
    exact h₂.keep lane x (h₁.keep lane x hx (hsub _ ht)) ht
  case nodup =>
    refine nodup_append.mpr ⟨hfirst.nodup, h₂.nodup, ?_⟩
    rintro a ha _ hb rfl
    have hleft := h₂.mem a hb
    rw [hfirst.elems, Finset.mem_sdiff, List.mem_toFinset] at hleft
    exact hleft.2 ha
  case mem =>
    intro t ht
    rcases mem_append.mp ht with ht | ht
    · exact hfirst.mem t ht
    · exact h₁.subset (h₂.mem t ht)
  case elems =>
    rw [h₂.elems, hfirst.elems, toFinset_append, sdiff_sdiff_left]
    rfl

end TookMany

theorem stealLoop_took (stealCount fuel : Nat) (out : List (TaskId × Nat)) (s : Scheduler)
    (hvalid : s.scheduled.Valid) :
    ∃ stolen, (stealLoop stealCount fuel out s).1.map Prod.fst = out.map Prod.fst ++ stolen ∧
      TookMany s stolen (stealLoop stealCount fuel out s).2 := by
  have stop : ∃ stolen, out.map Prod.fst = out.map Prod.fst ++ stolen ∧ TookMany s stolen s :=
    ⟨[], (append_nil _).symm, TookMany.of_took (Took.refl hvalid)⟩
  induction fuel generalizing out s with
  | zero => exact stop
  | succ fuel ih =>
    unfold stealLoop
    split_ifs
    swap
    · exact stop
    match hpop : Lane.pop s.readyLane with
    | none => exact stop
    | some ⟨entry, rest⟩ =>
      have hperm := Lane.pop_pops.perm hpop
      simp only
      rcases hrem : s.scheduled.remove entry.task with ⟨scheduled, claimed⟩
      have htook := Took.ready (Lane.LaneTook.of_remove hvalid hperm hrem)
      have hrest : ∀ out : List (TaskId × Nat), _ := fun out => ih out
        { s with readyLane := rest, scheduled := scheduled } htook.valid
        ⟨[], (append_nil _).symm, TookMany.of_took (Took.refl htook.valid)⟩
      cases claimed with
      | true =>
        obtain ⟨stolen, hout, hmany⟩ := hrest (out ++ [(entry.task, entry.priority)])
        refine ⟨entry.task :: stolen, ?_, TookMany.cons htook hmany⟩
        rw [hout]
        simp
      | false =>
        obtain ⟨stolen, hout, hmany⟩ := hrest out
        exact ⟨stolen, hout, TookMany.cons htook hmany⟩

theorem stealReadyBatch_took (maxSteal : Nat) (hvalid : s.scheduled.Valid) :
    TookMany s ((s.stealReadyBatch maxSteal).1.map Prod.fst) (s.stealReadyBatch maxSteal).2 := by
  unfold stealReadyBatch
  split
  · exact TookMany.of_took (Took.refl hvalid)
  · obtain ⟨stolen, hout, hmany⟩ :=
      stealLoop_took (max (min (s.readyLane.length / 2) maxSteal) 1) s.readyLane.length [] s hvalid
    rw [hout]
    exact hmany

theorem remove_took (task : TaskId) (hvalid : s.scheduled.Valid) :
    Took s (if task ∈ s.scheduled.elems then some task else none) (s.remove task) := by
  obtain ⟨hv, helems, hans⟩ := remove_spec task hvalid
  unfold remove
  rcases hrem : s.scheduled.remove task with ⟨scheduled, removed⟩
  rw [hrem] at hv helems hans
  cases removed with
  | false =>
    have hout : task ∉ s.scheduled.elems := of_decide_eq_false hans.symm
    rw [if_neg hout]
    refine ⟨hv, fun _ _ hx => hx, fun _ _ hx _ => hx, fun _ h => (nomatch h), fun _ => ?_⟩
    exact helems.trans (Finset.erase_eq_of_notMem hout)
  | true =>
    have hin : task ∈ s.scheduled.elems := of_decide_eq_true hans.symm
    rw [if_pos hin]
    constructor
    case valid => exact hv
    case sub =>
      intro lane x hx
      cases lane <;>
        exact (Sublist.map _ filter_sublist).subset hx
    case keep =>
      intro lane x hx ht
      have hne : x.1 ≠ task := by
        rw [helems] at ht
        exact Finset.ne_of_mem_erase ht
      cases lane <;>
      · obtain ⟨entry, hentry, rfl⟩ := mem_map.mp hx
        exact mem_map_of_mem (mem_filter.mpr ⟨hentry, by simpa using hne⟩)
    case some_spec =>
      intro t ht
      cases ht
      exact ⟨hin, helems⟩
    case none_spec => intro h; cases h

/-- What scheduling a task does. -/
structure Added (s : Scheduler) (task : TaskId) (s' : Scheduler) : Prop where
  valid : s'.scheduled.Valid
  elems : s'.scheduled.elems = Insert.insert task s.scheduled.elems
  grow : ∀ lane, ∀ x ∈ s.entries lane, x ∈ s'.entries lane
  covers : task ∉ s.scheduled.elems → ∃ lane, ∃ x ∈ s'.entries lane, x.1 = task

/-- An entry is pushed for a task that the set then holds. -/
theorem Added.of_push {task : TaskId} (which : DispatchLane) (key : Nat)
    (hvalid : s.scheduled.Valid) (hscheduled : s'.scheduled = (s.scheduled.insert task).1)
    (hs' : ∀ lane, s'.entries lane =
      if lane = which then (task, key) :: s.entries lane else s.entries lane) :
    Added s task s' := by
  obtain ⟨hv, helems, -⟩ := insert_spec task hvalid
  rw [← hscheduled] at hv helems
  refine ⟨hv, helems, fun lane x hx => ?_, fun _ => ⟨which, (task, key), ?_, rfl⟩⟩
  · rw [hs']
    split
    · exact mem_cons_of_mem _ hx
    · exact hx
  · rw [hs', if_pos rfl]
    exact mem_cons_self

/-- The task is scheduled already. -/
theorem Added.of_present {task : TaskId} {scheduled : ScheduledSet} (hvalid : s.scheduled.Valid)
    (hins : s.scheduled.insert task = (scheduled, false)) :
    Added s task { s with scheduled := scheduled } := by
  obtain ⟨hv, helems, hans⟩ := insert_spec task hvalid
  rw [hins] at hv helems hans
  exact ⟨hv, helems, fun _ _ hx => hx, fun hout => absurd hout (of_decide_eq_false hans.symm)⟩

theorem schedule_added (task : TaskId) (priority : Nat) (hvalid : s.scheduled.Valid) :
    Added s task (s.schedule task priority) := by
  unfold schedule
  rcases hins : s.scheduled.insert task with ⟨scheduled, inserted⟩
  cases inserted with
  | true => exact .of_push .ready priority hvalid (by rw [hins]) fun lane => by cases lane <;> rfl
  | false => exact .of_present hvalid hins

theorem scheduleTimed_added (task : TaskId) (deadline : Time) (hvalid : s.scheduled.Valid) :
    Added s task (s.scheduleTimed task deadline) := by
  unfold scheduleTimed
  rcases hins : s.scheduled.insert task with ⟨scheduled, inserted⟩
  cases inserted with
  | true => exact .of_push .timed deadline hvalid (by rw [hins]) fun lane => by cases lane <;> rfl
  | false => exact .of_present hvalid hins

theorem moveToCancelLane_added (task : TaskId) (priority : Nat) (hvalid : s.scheduled.Valid) :
    Added s task (s.moveToCancelLane task priority) :=
  .of_push .cancel priority hvalid rfl fun lane => by cases lane <;> rfl

theorem scheduleCancel_added (task : TaskId) (priority : Nat) (hvalid : s.scheduled.Valid) :
    Added s task (s.scheduleCancel task priority) := by
  unfold scheduleCancel
  rcases hins : s.scheduled.insert task with ⟨scheduled, inserted⟩
  cases inserted with
  | true => exact .of_push .cancel priority hvalid (by rw [hins]) fun lane => by cases lane <;> rfl
  | false =>
    -- the second insertion changes nothing
    have hsame := Added.of_present hvalid hins
    have hadd := moveToCancelLane_added task priority hsame.valid
    refine ⟨hadd.valid, ?_, hadd.grow, fun hout => ?_⟩
    · rw [hadd.elems, hsame.elems, Finset.insert_idem]
    · obtain ⟨lane, x, hx, hid⟩ := hsame.covers hout
      exact ⟨lane, x, hadd.grow lane x hx, hid⟩

end Scheduler
end Asupersync
