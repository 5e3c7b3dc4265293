import Asupersync.Lib.WaitLine
import Asupersync.Sync.Semaphore

/-!
# Permits, order and wakeups of the semaphore

While the semaphore is open, no interleaving of its operations loses or invents a
permit, the queue is a well-formed linked list in the order of arrival, permits
only go to its front, and a front that could run has been woken.

The list behind the slab is tied to the futures by their handles: the handles of
the entries are the tickets of the waiting futures in the order of arrival
(`Inv.line`).  Every operation then is a change of that list.
-/

namespace Asupersync

open Lib LinkedSlab Function AcquireFuture AcquireCell Option List SemaphoreSystem Bool

/-- The handle of an entry of the queue. -/
def handleOf (e : Nat × Waiter) : WaiterHandle := { slot := e.1, id := e.2.id }

namespace SemaphoreState

variable {s : SemaphoreState} {es xs ys : List (Nat × Waiter)} {slot : Nat} {w : Waiter}
  {handle : WaiterHandle}

section Queue

variable (h : s.waiters.Represents es)

include h

theorem waiterByHandle_eq_some_iff :
    s.waiterByHandle handle = some w ↔ (handle.slot, w) ∈ es ∧ w.id = handle.id := by
  rw [waiterByHandle, bind_eq_bind, bind_eq_some_iff]
  constructor
  · rintro ⟨w', hget, hid⟩
    rw [h.get_eq_some_iff] at hget
    split at hid
    · rename_i heq
      cases hid
      exact ⟨hget, heq⟩
    · cases hid
  · rintro ⟨hmem, hid⟩
    exact ⟨w, h.get_of_mem hmem, if_pos hid⟩

/-- A handle is found exactly if it is that of an entry. -/
theorem waiterByHandle_isSome_iff :
    (s.waiterByHandle handle).isSome ↔ handle ∈ es.map handleOf := by
  rw [isSome_iff_exists, List.mem_map]
  constructor
  · rintro ⟨w, hw⟩
    obtain ⟨hmem, hid⟩ := (waiterByHandle_eq_some_iff h).mp hw
    exact ⟨_, hmem, by rw [handleOf, hid]⟩
  · rintro ⟨⟨slot, w⟩, hmem, rfl⟩
    exact ⟨w, (waiterByHandle_eq_some_iff h).mpr ⟨hmem, rfl⟩⟩

theorem isFrontWaiter_iff :
    s.isFrontWaiter handle = true ↔ ∃ w rest, es = (handle.slot, w) :: rest ∧ w.id = handle.id := by
  rw [isFrontWaiter, and_eq_true, beq_iff_eq, h.head]
  constructor
  · rintro ⟨hhead, hfound⟩
    obtain ⟨w, hw⟩ := isSome_iff_exists.mp hfound
    obtain ⟨hmem, hid⟩ := (waiterByHandle_eq_some_iff h).mp hw
    match es, hhead with
    | (slot, w') :: rest, hhead =>
      cases hhead
      -- slots are distinct, so the entry found is the first one
      have hget := h.get_of_mem hmem
      rw [h.get_of_mem mem_cons_self] at hget
      cases hget
      exact ⟨_, rest, rfl, hid⟩
  · rintro ⟨w, rest, rfl, hid⟩
    refine ⟨rfl, isSome_iff_exists.mpr ⟨w, ?_⟩⟩
    exact (waiterByHandle_eq_some_iff h).mpr ⟨mem_cons_self, hid⟩

theorem unlinkWaiter_of_notMem (hnot : handle ∉ es.map handleOf) : s.unlinkWaiter handle = s := by
  have hnone : s.waiterByHandle handle = none := by
    rw [← not_isSome_iff_eq_none, waiterByHandle_isSome_iff h]
    exact hnot
  rw [unlinkWaiter, hnone]

end Queue

theorem unlinkWaiter_spec (h : s.waiters.Represents (xs ++ (slot, w) :: ys)) :
    ∃ waiters, s.unlinkWaiter (handleOf (slot, w)) = { s with waiters := waiters } ∧
      waiters.Represents (xs ++ ys) := by
  have hfound : s.waiterByHandle (handleOf (slot, w)) = some w :=
    (waiterByHandle_eq_some_iff h).mpr ⟨mem_append_right xs mem_cons_self, rfl⟩
  have hlink := h.linked xs slot w ys rfl
  refine ⟨_, ?_, h.relink_remove⟩
  simp only [unlinkWaiter, hfound]
  rw [show (handleOf (slot, w)).slot = slot from rfl, hlink]

theorem popFrontWaiter_spec (h : s.waiters.Represents ((slot, w) :: ys)) :
    ∃ waiters, s.popFrontWaiter = { s with waiters := waiters } ∧ waiters.Represents ys := by
  obtain ⟨waiters, hunlink, hrest⟩ :=
    unlinkWaiter_spec (show s.waiters.Represents ([] ++ (slot, w) :: ys) from h)
  refine ⟨waiters, ?_, hrest⟩
  rw [popFrontWaiter, h.head]
  simp only [firstKey_cons, h.get_of_mem mem_cons_self]
  exact hunlink

/-- The wakers that are woken when the front of the queue is told of the permits. -/
def frontWakers (permits : Nat) : List (Nat × Waiter) → List Waker
  | [] => []
  | e :: _ => if e.2.count ≤ permits then [e.2.waker] else []

theorem runnable_toList (h : s.waiters.Represents es) (hsub : ys ⊆ es) :
    ((firstKey ys).bind s.waiterWakerIfRunnable).toList = frontWakers s.permits ys := by
  cases ys with
  | nil => rfl
  | cons e rest =>
    rw [firstKey_cons, bind_some, waiterWakerIfRunnable, h.get_of_mem (hsub mem_cons_self), frontWakers,
      bind_eq_bind, bind_some]
    split <;> rfl

theorem frontWaiterWakerIfRunnable_toList (h : s.waiters.Represents es) :
    s.frontWaiterWakerIfRunnable.toList = frontWakers s.permits es := by
  rw [frontWaiterWakerIfRunnable, h.head]
  exact runnable_toList h (Subset.refl es)

/-- A waiter that leaves the front wakes the one behind it if that one can run. -/
theorem removeWaiterAndTakeNextWaker_spec (h : s.waiters.Represents (xs ++ (slot, w) :: ys)) :
    ∃ waiters, waiters.Represents (xs ++ ys) ∧
      (s.removeWaiterAndTakeNextWaker (handleOf (slot, w))).1 = { s with waiters := waiters } ∧
      (xs = [] → (s.removeWaiterAndTakeNextWaker (handleOf (slot, w))).2.toList =
        frontWakers s.permits ys) := by
  obtain ⟨waiters, hunlink, hrest⟩ := unlinkWaiter_spec h
  refine ⟨waiters, hrest, ?_, ?_⟩
  · rw [removeWaiterAndTakeNextWaker]
    split <;> exact hunlink
  · rintro rfl
    have hfront : s.isFrontWaiter (handleOf (slot, w)) = true :=
      (isFrontWaiter_iff h).mpr ⟨w, ys, rfl, rfl⟩
    have hnext : s.nextSlot (handleOf (slot, w)) = firstKey ys := by
      rw [nextSlot, show (handleOf (slot, w)).slot = slot from rfl, h.linked [] slot w ys rfl]
      rfl
    rw [removeWaiterAndTakeNextWaker, if_pos hfront, hnext]
    exact runnable_toList h (subset_cons_self _ _)

section Frame

variable (s : SemaphoreState) (handle : WaiterHandle)

theorem unlinkWaiter_frame : ∃ waiters, s.unlinkWaiter handle = { s with waiters := waiters } := by
  rw [unlinkWaiter]
  split
  · exact ⟨_, rfl⟩
  · exact ⟨s.waiters, rfl⟩

theorem popFrontWaiter_frame : ∃ waiters, s.popFrontWaiter = { s with waiters := waiters } := by
  rw [popFrontWaiter]
  split
  · exact ⟨s.waiters, rfl⟩
  · split
    · exact ⟨s.waiters, rfl⟩
    · exact unlinkWaiter_frame s _

end Frame

/-- Permits are taken without waiting only from an open semaphore that nobody waits for. -/
theorem tryAcquire_ok {s' : SemaphoreState} {count : Nat} (h : s.tryAcquire count = .ok s') :
    count = 0 ∧ s' = s ∨ s.closed = false ∧ s.waiters.head = none ∧ count ≤ s.permits ∧
      s' = { s with permits := s.permits - count } := by
  rw [tryAcquire] at h
  split at h
  · rename_i hzero
    cases h
    exact .inl ⟨hzero, rfl⟩
  split at h
  · cases h
  · rename_i hopen
    split at h
    · cases h
    · rename_i hhead
      split at h
      · rename_i hcount
        cases h
        exact .inr ⟨by simpa using hopen, by simpa using hhead, hcount, rfl⟩
      · cases h

end SemaphoreState

namespace AcquireFuture

variable (future : AcquireFuture) (s : SemaphoreState) (waker : Waker)

theorem leave_frame : ∃ waiters, (future.leave s).1 = { s with waiters := waiters } := by
  rw [leave]
  split
  · rw [SemaphoreState.removeWaiterAndTakeNextWaker]
    split <;> exact s.unlinkWaiter_frame _
  · exact ⟨s.waiters, rfl⟩

theorem register_quiet : (future.register s waker).wake = none ∧
    (future.register s waker).answer = .pending ∧
    (future.register s waker).state.permits = s.permits ∧
    (future.register s waker).state.closed = s.closed := by
  rw [register]
  split <;> exact ⟨rfl, rfl, rfl, rfl⟩

theorem take_frame : ∃ waiters, (future.take s).state =
    { s with permits := s.permits - future.count, waiters := waiters } := by
  simp only [take]
  split
  · exact SemaphoreState.popFrontWaiter_frame _
  · exact ⟨s.waiters, rfl⟩

/-- A poll takes the permits it grants and no others, and it grants only to the next in
line of an open semaphore. -/
theorem poll_accounts (cancelled : Bool) :
    (future.poll s waker cancelled).state.closed = s.closed ∧
    ((∀ count, (future.poll s waker cancelled).answer ≠ .granted count) ∧
        (future.poll s waker cancelled).state.permits = s.permits ∨
      ∃ count, (future.poll s waker cancelled).answer = .granted count ∧
        (future.poll s waker cancelled).state.permits + count = s.permits ∧
        (count = 0 ∨ s.closed = false ∧ future.isNextInLine s = true)) := by
  rw [poll]
  split
  · exact ⟨rfl, .inl ⟨fun _ => nofun, rfl⟩⟩
  split
  · exact ⟨rfl, .inr ⟨0, rfl, rfl, .inl rfl⟩⟩
  split
  · obtain ⟨waiters, hleave⟩ := future.leave_frame s
    rw [hleave]
    exact ⟨rfl, .inl ⟨fun _ => nofun, rfl⟩⟩
  split
  · cases future.waiter with
    | none => exact ⟨rfl, .inl ⟨fun _ => nofun, rfl⟩⟩
    | some handle =>
      obtain ⟨waiters, hunlink⟩ := s.unlinkWaiter_frame handle
      simp only [hunlink]
      exact ⟨trivial, .inl ⟨fun _ => nofun, trivial⟩⟩
  rename_i hopen
  split
  · rename_i hready
    obtain ⟨hnext, hcount⟩ := and_eq_true_iff.mp hready
    obtain ⟨waiters, htake⟩ := future.take_frame s
    rw [htake]
    exact ⟨rfl, .inr ⟨future.count, rfl, Nat.sub_add_cancel (of_decide_eq_true hcount),
      Or.inr ⟨by simpa using hopen, hnext⟩⟩⟩
  · obtain ⟨-, hanswer, hpermits, hclosed⟩ := future.register_quiet s waker
    refine ⟨hclosed, .inl ⟨fun count => ?_, hpermits⟩⟩
    rw [hanswer]
    exact nofun

end AcquireFuture

open SemaphoreState

section Cells

variable {wakers : List Waker} {futures : List AcquireCell} {cell : AcquireCell} {f g : Nat}
  {es : List (Nat × Waiter)} {permits : Nat}

/-- The cell after some wakers have been woken. -/
def AcquireCell.wakeAll (wakers : List Waker) (cell : AcquireCell) : AcquireCell :=
  { cell with woken := cell.woken || wakers.any fun waker => cell.lastWaker = some waker }

theorem wakeFutures_eq (wakers : List Waker) (futures : List AcquireCell) :
    wakeFutures wakers futures = futures.map (wakeAll wakers) := by
  induction wakers generalizing futures with
  | nil =>
    refine (map_id'' (fun cell => ?_) futures).symm
    simp [wakeAll]
  | cons waker rest ih =>
    rw [wakeFutures, foldl_cons, ← wakeFutures, ih, List.map_map]
    refine map_congr_left fun cell _ => ?_
    rw [comp_apply, wake]
    split <;> rename_i hwaker <;> simp [wakeAll, hwaker]

/-- A cell agrees with the queue: count and waker of its entry are its own, and at the
front it has been woken if it can run. -/
def AcquireCell.Enters (es : List (Nat × Waiter)) (cell : AcquireCell) : Prop :=
  ∀ e ∈ es, cell.future.waiter = some (handleOf e) →
    cell.future.count = e.2.count ∧ cell.lastWaker = some e.2.waker

def AcquireCell.Told (permits : Nat) (es : List (Nat × Waiter)) (cell : AcquireCell) : Prop :=
  ∀ e rest, es = e :: rest → e.2.count ≤ permits → cell.future.waiter = some (handleOf e) →
    cell.woken = true

/-- Waking a front that can run tells it. -/
theorem AcquireCell.Enters.told (h : cell.Enters es) :
    (cell.wakeAll (frontWakers permits es)).Told permits es := by
  rintro e rest rfl hcount hwaiter
  obtain ⟨-, hwaker⟩ := h e mem_cons_self hwaiter
  have hwakers : frontWakers permits (e :: rest) = [e.2.waker] := if_pos hcount
  show (cell.woken || _) = true
  rw [hwakers]
  simp [hwaker]

theorem AcquireCell.Told.wakeAll
    (h : cell.Told permits es) (wakers : List Waker) : (cell.wakeAll wakers).Told permits es := by
  intro e rest hes hcount hwaiter
  show (cell.woken || _) = true
  rw [h e rest hes hcount hwaiter, Bool.true_or]

end Cells

namespace SemaphoreSystem

variable {s s' : SemaphoreSystem} {es xs ys : List (Nat × Waiter)} {e : Nat × Waiter} {f g : Nat}
  {cell cell' c : AcquireCell} {wakers : List Waker} {futures : List AcquireCell}
  {handle : WaiterHandle} {es' : List (Nat × Waiter)} {op : SemaphoreOp} {count : Nat}
  {waker : Waker}

/-- The queue, the futures and the order of arrival fit together. -/
structure Inv (s : SemaphoreSystem) (es : List (Nat × Waiter)) : Prop where
  queue : s.state.waiters.Represents es
  closed : s.state.closed = true → es = []
  order : s.arrivals.Nodup
  arrived : ∀ f ∈ s.arrivals, f < s.futures.length
  joined : ∀ (f : Nat) (cell : AcquireCell), s.futures[f]? = some cell →
    cell.future.waiter ≠ none → f ∈ s.arrivals
  left : ∀ (f : Nat) (cell : AcquireCell), s.futures[f]? = some cell → f ∈ s.arrivals →
    cell.future.waiter = none → cell.future.completed = true ∨ cell.live = false
  done : ∀ (f : Nat) (cell : AcquireCell), s.futures[f]? = some cell →
    cell.future.completed = true ∨ cell.live = false → cell.future.waiter = none
  sized : ∀ (f : Nat) (cell : AcquireCell), s.futures[f]? = some cell →
    cell.future.count = 0 → cell.future.waiter = none
  line : s.state.closed = false → es.map handleOf = s.arrivals.filterMap s.ticket
  enters : ∀ (f : Nat) (cell : AcquireCell), s.futures[f]? = some cell → cell.Enters es
  told : ∀ (f : Nat) (cell : AcquireCell), s.futures[f]? = some cell →
    cell.Told s.state.permits es

theorem nodup_handles (h : s.state.waiters.Represents es) : (es.map handleOf).Nodup := by
  refine List.Nodup.of_map WaiterHandle.slot ?_
  rw [List.map_map]
  exact h.nodup

theorem wake_cases (hg : (wakeFutures wakers futures)[g]? = some c) :
    ∃ c₀, futures[g]? = some c₀ ∧ c = c₀.wakeAll wakers := by
  rw [wakeFutures_eq, getElem?_map, map_eq_some_iff] at hg
  obtain ⟨c₀, hc₀, rfl⟩ := hg
  exact ⟨c₀, hc₀, rfl⟩

theorem ticket_of_cell (hcell : s.futures[f]? = some cell) : s.ticket f = cell.future.waiter := by
  rw [ticket, hcell]
  rfl

/-- A waiting future has an entry in the queue of an open semaphore. -/
theorem Inv.exists_entry (h : Inv s es) (hopen : s.state.closed = false)
    (hcell : s.futures[f]? = some cell) (hwaiter : cell.future.waiter = some handle) :
    ∃ xs e ys, es = xs ++ e :: ys ∧ handle = handleOf e := by
  have hmem : handle ∈ es.map handleOf := by
    rw [h.line hopen, mem_filterMap]
    refine ⟨f, h.joined f cell hcell ?_, (ticket_of_cell hcell).trans hwaiter⟩
    rw [hwaiter]
    exact some_ne_none handle
  obtain ⟨e, he, rfl⟩ := mem_map.mp hmem
  obtain ⟨xs, ys, hes⟩ := append_of_mem he
  exact ⟨xs, e, ys, hes, rfl⟩

/-- The change of one future after which the rest of the invariant is about the others. -/
structure Replaces (s s' : SemaphoreSystem) (f : Nat) (cell cell' : AcquireCell)
    (wakers : List Waker) : Prop where
  cell : s.futures[f]? = some cell
  futures : s'.futures = wakeFutures wakers (s.futures.set f cell')

namespace Replaces

variable (h : Replaces s s' f cell cell' wakers)

include h

theorem lt_length : f < s.futures.length := (List.getElem?_eq_some_iff.mp h.cell).1

theorem length : s'.futures.length = s.futures.length := by
  rw [h.futures, wakeFutures_eq, length_map, length_set]

theorem ticket : s'.ticket = update s.ticket f cell'.future.waiter := by
  funext g
  simp only [SemaphoreSystem.ticket, h.futures, wakeFutures_eq, getElem?_map, getElem?_set]
  rcases eq_or_ne f g with rfl | hne
  · simp [h.lt_length, wakeAll]
  · rw [if_neg hne, update_of_ne hne.symm, SemaphoreSystem.ticket]
    cases s.futures[g]? <;> rfl

/-- Every new cell is the changed one or an old one, with the wakers woken. -/
theorem cases {c : AcquireCell} (hg : s'.futures[g]? = some c) :
    g = f ∧ c = cell'.wakeAll wakers ∨
      g ≠ f ∧ ∃ c₀, s.futures[g]? = some c₀ ∧ c = c₀.wakeAll wakers := by
  rw [h.futures] at hg
  obtain ⟨c₀, hc₀, rfl⟩ := wake_cases hg
  rcases eq_or_ne f g with rfl | hne
  · rw [getElem?_set_self h.lt_length] at hc₀
    cases hc₀
    exact .inl ⟨rfl, rfl⟩
  · rw [getElem?_set_ne hne] at hc₀
    exact .inr ⟨hne.symm, c₀, hc₀, rfl⟩

end Replaces

/-- What the invariant says about one cell. -/
structure CellOk (s : SemaphoreSystem) (es : List (Nat × Waiter)) (f : Nat) (cell : AcquireCell) :
    Prop where
  joined : cell.future.waiter ≠ none → f ∈ s.arrivals
  left : f ∈ s.arrivals → cell.future.waiter = none →
    cell.future.completed = true ∨ cell.live = false
  done : cell.future.completed = true ∨ cell.live = false → cell.future.waiter = none
  sized : cell.future.count = 0 → cell.future.waiter = none
  enters : cell.Enters es
  told : cell.Told s.state.permits es

theorem Inv.cellOk (h : Inv s es) (hcell : s.futures[f]? = some cell) : CellOk s es f cell :=
  ⟨h.joined f cell hcell, h.left f cell hcell, h.done f cell hcell, h.sized f cell hcell,
    h.enters f cell hcell, h.told f cell hcell⟩

theorem Inv.of_cells (hqueue : s.state.waiters.Represents es)
    (hclosed : s.state.closed = true → es = []) (horder : s.arrivals.Nodup)
    (harrived : ∀ f ∈ s.arrivals, f < s.futures.length)
    (hline : s.state.closed = false → es.map handleOf = s.arrivals.filterMap s.ticket)
    (hcells : ∀ (f : Nat) (cell : AcquireCell), s.futures[f]? = some cell → CellOk s es f cell) :
    Inv s es :=
  ⟨hqueue, hclosed, horder, harrived, fun f c hf => (hcells f c hf).joined,
    fun f c hf => (hcells f c hf).left, fun f c hf => (hcells f c hf).done,
    fun f c hf => (hcells f c hf).sized, hline, fun f c hf => (hcells f c hf).enters,
    fun f c hf => (hcells f c hf).told⟩

/-- A future that takes no part sees only the new queue. -/
theorem CellOk.wakeAll (h : CellOk s es f cell)
    (hmem : f ∈ s'.arrivals ↔ f ∈ s.arrivals) (henters : cell.Enters es')
    (htold : (cell.wakeAll wakers).Told s'.state.permits es') :
    CellOk s' es' f (cell.wakeAll wakers) :=
  ⟨hmem.mpr ∘ h.joined, h.left ∘ hmem.mp, h.done, h.sized, henters, htold⟩

/-- A future that has ended is in nobody's way. -/
theorem CellOk.of_ended (hwaiter : cell.future.waiter = none)
    (hend : cell.future.completed = true ∨ cell.live = false) :
    CellOk s es f (cell.wakeAll wakers) := by
  refine ⟨absurd hwaiter, fun _ _ => hend, fun _ => hwaiter, fun _ => hwaiter, ?_, ?_⟩
  · intro e _ heq
    cases hwaiter.symm.trans heq
  · intro e rest _ _ heq
    cases hwaiter.symm.trans heq

/-- The invariant after the change of one future: what is left to show is about the queue,
the changed future, and what the others see of the new queue. -/
theorem Inv.replace (h : Inv s es)
    (hr : Replaces s s' f cell cell' wakers) (hqueue : s'.state.waiters.Represents es')
    (hclosed : s'.state.closed = true → es' = [])
    (harrivals : s'.arrivals = s.arrivals ∨ s'.arrivals = s.arrivals ++ [f] ∧ f ∉ s.arrivals)
    (hline : s'.state.closed = false → es'.map handleOf =
      s'.arrivals.filterMap (update s.ticket f cell'.future.waiter))
    (hself : CellOk s' es' f (cell'.wakeAll wakers))
    (hothers : ∀ (g : Nat) (c : AcquireCell), g ≠ f → s.futures[g]? = some c →
      c.Enters es' ∧ (c.wakeAll wakers).Told s'.state.permits es') : Inv s' es' := by
  obtain ⟨horder, hmem⟩ := WaitLine.arrive h.order harrivals
  refine .of_cells hqueue hclosed horder ?_ (fun hopen => ?_) ?_
  · intro g hg
    rw [hr.length]
    rcases eq_or_ne g f with rfl | hne
    · exact hr.lt_length
    · exact h.arrived g ((hmem g hne).mp hg)
  · rw [hr.ticket]
    exact hline hopen
  · intro g c hg
    rcases hr.cases hg with ⟨rfl, rfl⟩ | ⟨hne, c₀, hc₀, rfl⟩
    · exact hself
    · exact (h.cellOk hc₀).wakeAll (hmem g hne) (hothers g c₀ hne hc₀).1 (hothers g c₀ hne hc₀).2

/-- No two futures wait with one handle. -/
theorem Inv.holder_unique (h : Inv s es) (hopen : s.state.closed = false)
    (hf : s.futures[f]? = some cell) (hg : s.futures[g]? = some c)
    (hcell : cell.future.waiter = some handle) (hc : c.future.waiter = some handle) : f = g := by
  have hline : (s.arrivals.filterMap s.ticket).Nodup := by
    rw [← h.line hopen]
    exact nodup_handles h.queue
  refine WaitLine.holder_unique hline (h.joined f cell hf ?_) (h.joined g c hg ?_)
    ((ticket_of_cell hf).trans hcell) ((ticket_of_cell hg).trans hc)
  · simp [hcell]
  · simp [hc]

/-- A future without an entry in the queue that ends touches nobody else. -/
theorem Inv.settle (h : Inv s es) (hr : Replaces s s' f cell cell' [])
    (hstate : s'.state = s.state) (harrivals : s'.arrivals = s.arrivals)
    (hwaiter : s.state.closed = false → cell.future.waiter = none)
    (hwaiter' : cell'.future.waiter = none)
    (hend : cell'.future.completed = true ∨ cell'.live = false) : Inv s' es := by
  refine h.replace hr (hstate ▸ h.queue) (hstate ▸ h.closed) (.inl harrivals) ?_
    (.of_ended hwaiter' hend) ?_
  · intro hopen
    rw [hstate] at hopen
    rw [hwaiter', ← hwaiter hopen, ← ticket_of_cell hr.cell, update_eq_self, harrivals]
    exact h.line hopen
  · intro g c _ hg
    rw [hstate]
    exact ⟨h.enters g c hg, (h.told g c hg).wakeAll []⟩

/-- A waiting future leaves the queue.  Whoever comes to the front is told of the permits. -/
theorem Inv.leave (h : Inv s (xs ++ e :: ys)) (hr : Replaces s s' f cell cell' wakers)
    (hticket : cell.future.waiter = some (handleOf e))
    (hqueue : s'.state.waiters.Represents (xs ++ ys)) (hopen : s.state.closed = false)
    (hopen' : s'.state.closed = false) (harrivals : s'.arrivals = s.arrivals)
    (hwaiter' : cell'.future.waiter = none)
    (hend : cell'.future.completed = true ∨ cell'.live = false)
    (hwake : xs = [] ∧ wakers = frontWakers s'.state.permits ys ∨
      xs ≠ [] ∧ s'.state.permits = s.state.permits) : Inv s' (xs ++ ys) := by
  have hnodup := nodup_handles h.queue
  have hjoined : f ∈ s.arrivals := h.joined f cell hr.cell (by simp [hticket])
  refine h.replace hr hqueue (by simp [hopen']) (.inl harrivals) ?_
    (.of_ended hwaiter' hend) ?_
  · intro _
    have hline := h.line hopen
    have herase := WaitLine.line_leave h.order (hline ▸ hnodup) hjoined
      ((ticket_of_cell hr.cell).trans hticket)
    rw [harrivals, hwaiter', herase, ← hline, map_append, map_append, map_cons]
    rw [map_append, map_cons] at hnodup
    have hfirst : handleOf e ∉ xs.map handleOf := fun hmem =>
      disjoint_of_nodup_append hnodup hmem mem_cons_self
    rw [erase_append_right _ hfirst, erase_cons_head]
  intro g c _ hg
  have hsub : (xs ++ ys).Sublist (xs ++ e :: ys) :=
    (Sublist.refl xs).append (sublist_cons_self e ys)
  have henters : c.Enters (xs ++ ys) := fun e' he' => h.enters g c hg e' (hsub.subset he')
  refine ⟨henters, ?_⟩
  rcases hwake with ⟨rfl, rfl⟩ | ⟨hne, hpermits⟩
  · exact henters.told
  · -- the front stays where it was
    rw [hpermits]
    refine Told.wakeAll (fun e' rest hes hcount heq => ?_) wakers
    obtain ⟨x, xs, rfl⟩ := exists_cons_of_ne_nil hne
    obtain ⟨rfl, -⟩ := cons.inj hes
    exact h.told g c hg x (xs ++ e :: ys) rfl hcount heq

/-- The waker of the entry in a slot is replaced. -/
def withWaker (slot : Nat) (waker : Waker) (e : Nat × Waiter) : Nat × Waiter :=
  changeAt slot (fun w => { w with waker := waker }) e

theorem handleOf_withWaker (slot : Nat) (waker : Waker) (e : Nat × Waiter) :
    handleOf (withWaker slot waker e) = handleOf e := by
  rw [withWaker, changeAt]
  split <;> rfl

theorem count_withWaker (slot : Nat) (waker : Waker) (e : Nat × Waiter) :
    (withWaker slot waker e).2.count = e.2.count := by
  rw [withWaker, changeAt]
  split <;> rfl

section

variable (h : Inv s es)

include h

/-- A waiting future that is polled without success registers its new waker. -/
theorem Inv.refresh (hr : Replaces s s' f cell cell' [])
    (hopen : s.state.closed = false) (hopen' : s'.state.closed = false)
    (hpermits : s'.state.permits = s.state.permits) (harrivals : s'.arrivals = s.arrivals)
    (hmem : e ∈ es) (hticket : cell.future.waiter = some (handleOf e))
    (hqueue : s'.state.waiters.Represents (es.map (withWaker e.1 waker)))
    (hfuture : cell'.future = cell.future) (hlive : cell'.live = cell.live)
    (hwaker : cell'.lastWaker = some waker)
    (hblocked : ∀ rest, es = e :: rest → ¬ e.2.count ≤ s.state.permits) :
    Inv s' (es.map (withWaker e.1 waker)) := by
  have hjoined : f ∈ s.arrivals := h.joined f cell hr.cell (by simp [hticket])
  have hcell' : cell'.future.waiter = some (handleOf e) := hfuture ▸ hticket
  refine h.replace hr hqueue (by simp [hopen']) (.inl harrivals) ?_
    ⟨fun _ => harrivals ▸ hjoined, fun _ hnone => absurd (hnone.symm.trans hcell') (by simp),
      fun hend => hfuture ▸ h.done f cell hr.cell (hfuture ▸ hlive ▸ hend),
      fun hzero => hfuture ▸ h.sized f cell hr.cell (hfuture ▸ hzero), ?_, ?_⟩ ?_
  · intro _
    rw [hcell', ← hticket, ← ticket_of_cell hr.cell, update_eq_self, harrivals,
      ← h.line hopen, List.map_map]
    exact map_congr_left fun e' _ => handleOf_withWaker e.1 waker e'
  · -- the entry of the future is the one that was changed
    show cell'.Enters _
    intro e' he' heq
    obtain ⟨e₀, he₀, rfl⟩ := mem_map.mp he'
    rw [handleOf_withWaker, hcell', some.injEq] at heq
    have hslot : e₀.1 = e.1 := congrArg WaiterHandle.slot heq.symm
    have hcount := (h.enters f cell hr.cell e₀ he₀ (hticket.trans (congrArg some heq))).1
    rw [count_withWaker, hfuture, hwaker, withWaker, changeAt, if_pos hslot]
    exact ⟨hcount, rfl⟩
  · intro e' rest hes hcount heq
    obtain ⟨e₀, rest₀, rfl, rfl, -⟩ := map_eq_cons_iff.mp hes
    rw [count_withWaker, hpermits] at hcount
    replace heq : cell'.future.waiter = some (handleOf (withWaker e.1 waker e₀)) := heq
    rw [handleOf_withWaker, hcell', some.injEq] at heq
    -- slots are distinct, so the front is the entry of the future
    obtain rfl := inj_on_of_nodup_map (nodup_handles h.queue) mem_cons_self hmem heq.symm
    exact absurd hcount (hblocked rest₀ rfl)
  · intro g c hne hg
    constructor
    · intro e' he' heq
      obtain ⟨e₀, he₀, rfl⟩ := mem_map.mp he'
      rw [handleOf_withWaker] at heq
      by_cases hslot : e₀.1 = e.1
      · obtain rfl := inj_on_of_nodup_map h.queue.nodup he₀ hmem hslot
        exact absurd (h.holder_unique hopen hg hr.cell heq hticket) hne
      · rw [withWaker, changeAt, if_neg hslot]
        exact h.enters g c hg e₀ he₀ heq
    · rw [hpermits]
      refine Told.wakeAll (fun e' rest hes hcount heq => ?_) []
      obtain ⟨e₀, rest₀, rfl, rfl, -⟩ := map_eq_cons_iff.mp hes
      rw [count_withWaker] at hcount
      rw [handleOf_withWaker] at heq
      exact h.told g c hg e₀ rest₀ rfl hcount heq

/-- A newcomer joins at the end of the queue. -/
theorem Inv.join (hr : Replaces s s' f cell cell' [])
    (hopen : s.state.closed = false) (hopen' : s'.state.closed = false)
    (hpermits : s'.state.permits = s.state.permits) (harrivals : s'.arrivals = s.arrivals ++ [f])
    (hwaiter : cell.future.waiter = none) (hgoing : cell.future.completed = false)
    (hlive : cell.live = true) (hqueue : s'.state.waiters.Represents (es ++ [e]))
    (hticket : cell'.future.waiter = some (handleOf e))
    (hgoing' : cell'.future.completed = false) (hlive' : cell'.live = true)
    (hcount : cell'.future.count = e.2.count) (hsized : e.2.count ≠ 0)
    (hwaker : cell'.lastWaker = some e.2.waker)
    (hblocked : es = [] → ¬ e.2.count ≤ s.state.permits) : Inv s' (es ++ [e]) := by
  have hnew : f ∉ s.arrivals := by
    intro hmem
    have hend := h.left f cell hr.cell hmem hwaiter
    simp [hgoing, hlive] at hend
  have hfresh : ∀ e' ∈ es, e'.1 ≠ e.1 := by
    intro e' he' heq
    have hnodup := hqueue.nodup
    rw [map_append, nodup_append] at hnodup
    exact hnodup.2.2 e'.1 (mem_map_of_mem he') e.1 (by simp) heq
  -- the slot of the new entry is in nobody's handle
  have hother : ∀ (g : Nat) (c : AcquireCell), s.futures[g]? = some c →
      c.future.waiter ≠ some (handleOf e) := by
    intro g c hg heq
    obtain ⟨xs, e', ys, hes, hsame⟩ := h.exists_entry hopen hg heq
    refine hfresh e' ?_ (congrArg WaiterHandle.slot hsame).symm
    rw [hes]
    exact mem_append_right xs mem_cons_self
  refine h.replace hr hqueue (by simp [hopen'])
    (.inr ⟨harrivals, hnew⟩) ?_ ⟨fun _ => by simp [harrivals],
      fun _ hnone => absurd (hnone.symm.trans hticket) (by simp),
      fun hend => absurd hend (by simp [wakeAll, hgoing', hlive']),
      fun hzero => absurd (hcount.symm.trans hzero) hsized, ?_, ?_⟩ ?_
  · intro _
    rw [hticket, harrivals, WaitLine.line_join hnew, ← h.line hopen, map_append]
    rfl
  · intro e' he' heq
    rcases mem_append.mp he' with he' | he'
    · have hsame := some.inj (hticket.symm.trans heq)
      exact absurd (congrArg WaiterHandle.slot hsame).symm (hfresh e' he')
    · cases mem_singleton.mp he'
      exact ⟨hcount, hwaker⟩
  · intro e' rest hes hcount' heq
    have hsame := some.inj (hticket.symm.trans heq)
    cases es with
    | nil =>
      cases hes
      rw [hpermits] at hcount'
      exact absurd hcount' (hblocked rfl)
    | cons x xs =>
      obtain ⟨rfl, -⟩ := cons.inj hes
      exact absurd (congrArg WaiterHandle.slot hsame).symm (hfresh x mem_cons_self)
  · intro g c hne hg
    constructor
    · intro e' he' heq
      rcases mem_append.mp he' with he' | he'
      · exact h.enters g c hg e' he' heq
      · cases mem_singleton.mp he'
        exact absurd heq (hother g c hg)
    · rw [hpermits]
      refine Told.wakeAll (fun e' rest hes hcount' heq => ?_) []
      cases es with
      | nil =>
        cases hes
        exact absurd heq (hother g c hg)
      | cons x xs =>
        obtain ⟨rfl, -⟩ := cons.inj hes
        exact h.told g c hg x xs rfl hcount' heq

/-- The invariant after a change of the queue that no future took part in. -/
theorem Inv.wakes
    (hqueue : s'.state.waiters.Represents es') (hclosed : s'.state.closed = true → es' = [])
    (harrivals : s'.arrivals = s.arrivals) (hfutures : s'.futures = wakeFutures wakers s.futures)
    (hline : s'.state.closed = false → es'.map handleOf = s.arrivals.filterMap s.ticket)
    (hcells : ∀ (g : Nat) (c : AcquireCell), s.futures[g]? = some c →
      c.Enters es' ∧ (c.wakeAll wakers).Told s'.state.permits es') : Inv s' es' := by
  have hticket : s'.ticket = s.ticket := by
    funext g
    simp only [ticket, hfutures, wakeFutures_eq, getElem?_map]
    cases s.futures[g]? <;> rfl
  refine .of_cells hqueue hclosed (harrivals ▸ h.order) ?_ (fun hopen => ?_) ?_
  · intro g hg
    rw [hfutures, wakeFutures_eq, length_map]
    exact h.arrived g (harrivals ▸ hg)
  · rw [harrivals, hticket]
    exact hline hopen
  · intro g c hg
    rw [hfutures] at hg
    obtain ⟨c₀, hc₀, rfl⟩ := wake_cases hg
    exact (h.cellOk hc₀).wakeAll (by rw [harrivals]) (hcells g c₀ hc₀).1 (hcells g c₀ hc₀).2

/-- The permits change and the front is told. -/
theorem Inv.tell (hqueue : s'.state.waiters = s.state.waiters)
    (hclosed : s'.state.closed = s.state.closed) (harrivals : s'.arrivals = s.arrivals)
    (hfutures : s'.futures = wakeFutures (frontWakers s'.state.permits es) s.futures) :
    Inv s' es :=
  h.wakes (hqueue ▸ h.queue) (hclosed ▸ h.closed) harrivals hfutures
    (fun hopen => h.line (hclosed ▸ hopen))
    fun g c hg => ⟨h.enters g c hg, (h.enters g c hg).told⟩

theorem Inv.close : Inv s.close [] := by
  refine h.wakes Represents.empty (fun _ => rfl) rfl rfl ?_ ?_
  · intro hopen
    cases hopen
  · intro g c _
    exact ⟨nofun, fun e rest hes => by cases hes⟩

theorem Inv.release (count : Nat) : Inv (s.release count) es := by
  have hquiet : s.state.addPermits count = (s.state, none) → Inv (s.release count) es := by
    intro hsame
    simp only [SemaphoreSystem.release, hsame]
    exact { h with }
  rcases Nat.eq_zero_or_pos count with rfl | hpos
  · exact hquiet (if_pos rfl)
  cases hclosed : s.state.closed with
  | true =>
    refine hquiet ?_
    rw [SemaphoreState.addPermits, if_neg (Nat.ne_of_gt hpos), hclosed, if_pos rfl]
  | false =>
    have hadd : s.state.addPermits count =
        let state := { s.state with permits := min (s.state.permits + count) usizeMax }
        (state, state.frontWaiterWakerIfRunnable) := by
      rw [SemaphoreState.addPermits, if_neg (Nat.ne_of_gt hpos), if_neg (by simp [hclosed])]
    simp only [SemaphoreSystem.release, hadd]
    refine h.tell rfl rfl rfl ?_
    exact congrArg (wakeFutures · s.futures) (frontWaiterWakerIfRunnable_toList h.queue)

theorem Inv.acquire (count : Nat) :
    Inv { s with futures := s.futures ++
      [{ future := { count := count, waiter := none, completed := false }
         live := true, lastWaker := none, woken := false }] } es := by
  refine .of_cells h.queue h.closed h.order ?_ (fun hopen => ?_) ?_
  · intro g hg
    rw [length_append]
    exact Nat.lt_add_right _ (h.arrived g hg)
  · refine (h.line hopen).trans (filterMap_congr fun g hg => ?_)
    rw [ticket, ticket, getElem?_append_left (h.arrived g hg)]
  · intro g c hg
    rcases getElem?_concat_cases hg with hg | ⟨rfl, rfl⟩
    · obtain ⟨hjoined, hleft, hdone, hsized, henters, htold⟩ := h.cellOk hg
      exact ⟨hjoined, hleft, hdone, hsized, henters, htold⟩
    · exact ⟨absurd rfl, fun hmem => absurd (h.arrived _ hmem) (Nat.lt_irrefl _), fun _ => rfl,
        fun _ => rfl, nofun, nofun⟩

end

/-- Leaving a queue one is not in changes nothing. -/
theorem leave_of_notMem {state : SemaphoreState} {future : AcquireFuture}
    (hqueue : state.waiters.Represents es)
    (hnot : ∀ handle, future.waiter = some handle → handle ∉ es.map handleOf) :
    future.leave state = (state, none) := by
  rw [leave]
  cases hwaiter : future.waiter with
  | none => rfl
  | some handle =>
    have hgone := hnot handle hwaiter
    have hback : ¬ state.isFrontWaiter handle = true := by
      rw [isFrontWaiter_iff hqueue]
      rintro ⟨w, rest, rfl, hid⟩
      exact hgone (mem_map.mpr ⟨_, mem_cons_self, by rw [handleOf, hid]⟩)
    simp only [removeWaiterAndTakeNextWaker]
    rw [if_neg hback, unlinkWaiter_of_notMem hqueue hgone]

/-- A future that gives up leaves the queue, if it is in it. -/
theorem Inv.giveUp (h : Inv s es)
    (hr : Replaces s s' f cell cell' (cell.future.leave s.state).2.toList)
    (hstate : s'.state = (cell.future.leave s.state).1) (harrivals : s'.arrivals = s.arrivals)
    (hwaiter' : cell'.future.waiter = none)
    (hend : cell'.future.completed = true ∨ cell'.live = false) : ∃ es', Inv s' es' := by
  by_cases hin : s.state.closed = false ∧ cell.future.waiter ≠ none
  · obtain ⟨hopen, hwaiter⟩ := hin
    obtain ⟨handle, hhandle⟩ := ne_none_iff_exists'.mp hwaiter
    obtain ⟨xs, ⟨slot, w⟩, ys, rfl, rfl⟩ := h.exists_entry hopen hr.cell hhandle
    obtain ⟨waiters, hrest, hremove, hwake⟩ := removeWaiterAndTakeNextWaker_spec h.queue
    rw [AcquireFuture.leave, hhandle] at hr hstate
    replace hstate := hstate.trans hremove
    refine ⟨xs ++ ys, h.leave hr hhandle (hstate ▸ hrest) hopen (hstate ▸ hopen) harrivals hwaiter'
      hend ?_⟩
    rcases eq_or_ne xs [] with rfl | hne
    · exact .inl ⟨rfl, by rw [hstate, hwake rfl]⟩
    · exact .inr ⟨hne, by rw [hstate]⟩
  · have hleave : cell.future.leave s.state = (s.state, none) := by
      refine leave_of_notMem h.queue fun handle hhandle => ?_
      have hclosed : s.state.closed = true := by
        by_contra hopen
        exact hin ⟨eq_false_iff.mpr hopen, by simp [hhandle]⟩
      rw [h.closed hclosed]
      exact not_mem_nil
    rw [hleave] at hr hstate
    refine ⟨es, h.settle hr hstate harrivals (fun hopen => ?_) hwaiter' hend⟩
    by_contra hwaiter
    exact hin ⟨hopen, hwaiter⟩

theorem replaces_pollFuture (hcell : s.futures[f]? = some cell) (waker : Waker) (cancelled : Bool) :
    Replaces s (s.pollFuture f cell waker cancelled) f cell
      (cell.polled waker (cell.future.poll s.state waker cancelled))
      (cell.future.poll s.state waker cancelled).wake.toList :=
  ⟨hcell, rfl⟩

section

variable (waker : Waker) (result : AcquireFuture.Polled)

@[simp] theorem future_polled : (cell.polled waker result).future = result.future := by
  rw [polled]
  split <;> rfl

@[simp] theorem live_polled : (cell.polled waker result).live = cell.live := by
  rw [polled]
  split <;> rfl

theorem lastWaker_polled (hpending : result.answer = .pending) : (cell.polled waker result).lastWaker = some waker := by
  rw [polled, if_pos hpending]

end

/-- A poll that takes its permits. -/
theorem Inv.take (h : Inv s es)
    (hr : Replaces s s' f cell cell' (cell.future.take s.state).wake.toList)
    (hstate : s'.state = (cell.future.take s.state).state) (harrivals : s'.arrivals = s.arrivals)
    (hopen : s.state.closed = false) (hnext : cell.future.isNextInLine s.state = true)
    (hwaiter' : cell'.future.waiter = none) (hend : cell'.future.completed = true) :
    ∃ es', Inv s' es' := by
  rw [isNextInLine] at hnext
  cases hwaiter : cell.future.waiter with
  | none =>
    rw [hwaiter] at hnext
    obtain rfl := h.queue.head_eq_none_iff.mp (isNone_iff_eq_none.mp hnext)
    -- first the permits go down, then the future ends
    let mid : SemaphoreSystem :=
      { s with state := { s.state with permits := s.state.permits - cell.future.count } }
    have hmid : Inv mid [] := h.tell rfl rfl rfl rfl
    have htake : cell.future.take s.state =
        { state := mid.state, future := { cell.future with waiter := none, completed := true }
          answer := .granted cell.future.count, wake := mid.state.frontWaiterWakerIfRunnable } := by
      simp [AcquireFuture.take, hwaiter, mid]
    rw [htake] at hr hstate
    rw [frontWaiterWakerIfRunnable_toList hmid.queue] at hr
    exact ⟨[], hmid.settle ⟨hr.cell, hr.futures⟩ hstate harrivals (fun _ => hwaiter) hwaiter'
      (.inl hend)⟩
  | some handle =>
    rw [hwaiter] at hnext
    obtain ⟨w, ys, rfl, hid⟩ := (isFrontWaiter_iff h.queue).mp hnext
    let mid := { s.state with permits := s.state.permits - cell.future.count }
    obtain ⟨waiters, hpop, hrest⟩ :=
      popFrontWaiter_spec (s := mid) (show mid.waiters.Represents ((handle.slot, w) :: ys) from h.queue)
    have htake : cell.future.take s.state =
        { state := { mid with waiters := waiters }
          future := { cell.future with waiter := none, completed := true }
          answer := .granted cell.future.count
          wake := { mid with waiters := waiters }.frontWaiterWakerIfRunnable } := by
      simp [AcquireFuture.take, hwaiter, ← hpop, mid]
    rw [htake] at hr hstate
    have hhandle : cell.future.waiter = some (handleOf (handle.slot, w)) := by
      rw [hwaiter, handleOf, hid]
    refine ⟨ys, Inv.leave h hr hhandle (hstate ▸ hrest) hopen (hstate ▸ hopen) harrivals
      hwaiter' (.inl hend) (.inl ⟨rfl, ?_⟩)⟩
    rw [hstate]
    exact frontWaiterWakerIfRunnable_toList hrest

/-- A poll that has to wait. -/
theorem Inv.register (h : Inv s es)
    (hr : Replaces s s' f cell (cell.polled waker (cell.future.register s.state waker)) [])
    (hstate : s'.state = (cell.future.register s.state waker).state) (harrivals : s'.arrivals =
      if cell.future.waiter.isNone && (cell.future.register s.state waker).future.waiter.isSome
      then s.arrivals ++ [f] else s.arrivals) (hopen : s.state.closed = false)
    (hgoing : cell.future.completed = false) (hlive : cell.live = true)
    (hsized : cell.future.count ≠ 0)
    (hwait : cell.future.isNextInLine s.state = true → ¬ cell.future.count ≤ s.state.permits) :
    ∃ es', Inv s' es' := by
  cases hwaiter : cell.future.waiter with
  | none =>
    have hregister : cell.future.register s.state waker =
        { state := (s.state.enqueueWaiter cell.future.count waker).1
          future := { cell.future with
            waiter := some (s.state.enqueueWaiter cell.future.count waker).2 }
          answer := .pending
          wake := none } := by
      simp [AcquireFuture.register, hwaiter]
    rw [hregister] at hr hstate harrivals
    rw [hwaiter] at harrivals
    refine ⟨_, h.join hr hopen (hstate ▸ hopen) (congrArg (·.permits) hstate) harrivals hwaiter
      hgoing hlive (by rw [hstate]; exact h.queue.pushBack _) rfl hgoing hlive rfl hsized
      (lastWaker_polled waker _ rfl) ?_⟩
    rintro rfl
    refine hwait ?_
    rw [AcquireFuture.isNextInLine, hwaiter, h.queue.head]
    rfl
  | some handle =>
    obtain ⟨xs, ⟨slot, w⟩, ys, hes, rfl⟩ := h.exists_entry hopen hr.cell hwaiter
    have hmem : (slot, w) ∈ es := hes ▸ mem_append_right xs mem_cons_self
    have hfound : (s.state.waiterByHandle (handleOf (slot, w))).isSome = true :=
      (waiterByHandle_isSome_iff h.queue).mpr (mem_map_of_mem hmem)
    have hregister : cell.future.register s.state waker =
        { state := { s.state with
            waiters := s.state.waiters.modifyValue slot fun w => { w with waker := waker } }
          future := cell.future
          answer := .pending
          wake := none } := by
      simp [AcquireFuture.register, hwaiter, Option.filter, hfound]
      rfl
    rw [hregister] at hr hstate harrivals
    rw [hwaiter] at harrivals
    refine ⟨es.map (withWaker slot waker), h.refresh hr hopen (hstate ▸ hopen) (by rw [hstate]) harrivals hmem hwaiter
      (by rw [hstate]; exact h.queue.modifyValue slot fun w => { w with waker := waker }) (by simp)
      (by simp) (lastWaker_polled waker _ rfl) ?_⟩
    rintro rest rfl
    rw [← (h.enters f cell hr.cell _ hmem hwaiter).1]
    refine hwait ?_
    rw [AcquireFuture.isNextInLine, hwaiter]
    exact (isFrontWaiter_iff h.queue).mpr ⟨w, rest, rfl, rfl⟩

theorem Inv.pollFuture (h : Inv s es) (hcell : s.futures[f]? = some cell) (hlive : cell.live = true)
    (waker : Waker) (cancelled : Bool) :
    ∃ es', Inv (s.pollFuture f cell waker cancelled) es' := by
  have hr := replaces_pollFuture hcell waker cancelled
  have hstate : (s.pollFuture f cell waker cancelled).state =
    (cell.future.poll s.state waker cancelled).state := rfl
  have harrivals : (s.pollFuture f cell waker cancelled).arrivals = if cell.future.waiter.isNone &&
      (cell.future.poll s.state waker cancelled).future.waiter.isSome
    then s.arrivals ++ [f] else s.arrivals := rfl
  generalize s.pollFuture f cell waker cancelled = s' at hr hstate harrivals ⊢
  generalize hpoll : cell.future.poll s.state waker cancelled = result at hr hstate harrivals
  have hstays : result.future.waiter = none → s'.arrivals = s.arrivals := by
    intro hnone
    rw [harrivals, hnone, isSome_none, Bool.and_false]
    rfl
  -- the cases are those of the poll
  rw [poll] at hpoll
  split at hpoll
  · rename_i hdone
    subst hpoll
    have hwaiter := h.done f cell hcell (.inl hdone)
    exact ⟨es, h.settle hr hstate (hstays hwaiter) (fun _ => hwaiter) (by simp [hwaiter])
      (.inl (by simp [hdone]))⟩
  rename_i hgoing
  split at hpoll
  · rename_i hzero
    subst hpoll
    have hwaiter := h.sized f cell hcell hzero
    exact ⟨es, h.settle hr hstate (hstays hwaiter) (fun _ => hwaiter) (by simp [hwaiter])
      (.inl (by simp))⟩
  rename_i hsized
  split at hpoll
  · subst hpoll
    exact h.giveUp hr hstate (hstays rfl) (by simp) (.inl (by simp))
  split at hpoll
  · rename_i hclosed
    subst hpoll
    obtain rfl := h.closed hclosed
    refine ⟨[], h.settle hr ?_ (hstays rfl) (by simp [hclosed]) (by simp) (.inl (by simp))⟩
    rw [hstate]
    cases cell.future.waiter with
    | none => rfl
    | some handle => exact unlinkWaiter_of_notMem h.queue not_mem_nil
  rename_i hopen
  rw [not_eq_true] at hgoing hopen
  split at hpoll
  · rename_i hready
    subst hpoll
    exact h.take hr hstate (hstays rfl) hopen (and_eq_true_iff.mp hready).1
      (by rw [future_polled]; rfl) (by rw [future_polled]; rfl)
  · rename_i hwait
    subst hpoll
    rw [(cell.future.register_quiet s.state waker).1] at hr
    refine h.register hr hstate harrivals hopen hgoing hlive hsized fun hnext hcount => ?_
    exact hwait (by simp [hnext, hcount])

theorem Inv.dropFuture (h : Inv s es) (hcell : s.futures[f]? = some cell) :
    ∃ es', Inv (s.dropFuture f cell) es' := by
  have hr : Replaces s (s.dropFuture f cell) f cell
      { cell with future := { cell.future with waiter := none }, live := false }
      (cell.future.leave s.state).2.toList := ⟨hcell, rfl⟩
  exact h.giveUp hr rfl rfl rfl (.inr rfl)

theorem exec_tryAcquire (hexec : s.exec (.tryAcquire count) = some s') :
    s' = s ∨ ∃ state, s.state.tryAcquire count = .ok state ∧
      s' = { s with state := state, guards := s.guards ++ [count] } := by
  rw [exec] at hexec
  split at hexec
  · rename_i state htry
    exact .inr ⟨state, htry, (some.inj hexec).symm⟩
  · exact .inl (some.inj hexec).symm

/-- Every operation keeps queue and futures together. -/
theorem Inv.exec (h : Inv s es) (hexec : s.exec op = some s') : ∃ es', Inv s' es' := by
  cases op with
  | acquire count =>
    cases hexec
    exact ⟨es, h.acquire count⟩
  | poll f waker cancelled =>
    obtain ⟨cell, hcell, hlive, rfl⟩ := bind_ite_eq_some_iff.mp hexec
    exact h.pollFuture hcell hlive waker cancelled
  | dropFuture f =>
    obtain ⟨cell, hcell, -, rfl⟩ := bind_ite_eq_some_iff.mp hexec
    exact h.dropFuture hcell
  | tryAcquire count =>
    obtain rfl | ⟨state, htry, rfl⟩ := exec_tryAcquire hexec
    · exact ⟨es, h⟩
    obtain ⟨-, rfl⟩ | ⟨-, hnone, -, rfl⟩ := tryAcquire_ok htry
    · exact ⟨es, { h with }⟩
    · obtain rfl := h.queue.head_eq_none_iff.mp hnone
      exact ⟨[], h.tell rfl rfl rfl rfl⟩
  | dropGuard i =>
    obtain ⟨count, -, -, rfl⟩ := bind_ite_eq_some_iff.mp hexec
    have hguards : Inv { s with guards := s.guards.eraseIdx i } es := { h with }
    exact ⟨es, hguards.release count⟩
  | forgetGuard i =>
    obtain ⟨count, -, ⟨⟩⟩ := bind_eq_some_iff.mp hexec
    exact ⟨es, { h with }⟩
  | addPermits count =>
    obtain ⟨-, hadd⟩ := ite_none_right_eq_some.mp hexec
    cases hadd
    have hadded : Inv { s with added := s.added + count } es := { h with }
    exact ⟨es, hadded.release count⟩
  | close =>
    cases hexec
    exact ⟨[], h.close⟩

/-- The permits of an open semaphore that started with `permits` add up. -/
def Balanced (permits : Nat) (s : SemaphoreSystem) : Prop :=
  s.state.closed = false → s.state.permits + s.guards.sum + s.forgotten = permits + s.added

section Balance

variable {permits : Nat}

theorem sum_eraseIdx {guards : List Nat} {i count : Nat} (h : guards[i]? = some count) :
    (guards.eraseIdx i).sum + count = guards.sum := by
  obtain ⟨hlt, rfl⟩ := List.getElem?_eq_some_iff.mp h
  rw [Nat.add_comm]
  exact (getElem_cons_eraseIdx_perm hlt).sum_nat

theorem Balanced.pollFuture (h : Balanced permits s) (waker : Waker) (cancelled : Bool) :
    Balanced permits (s.pollFuture f cell waker cancelled) := by
  intro hopen
  obtain ⟨hclosed, hguards⟩ := cell.future.poll_accounts s.state waker cancelled
  have hsum := h (hclosed.symm.trans hopen)
  simp only [SemaphoreSystem.pollFuture]
  rcases hguards with ⟨hnot, hsame⟩ | ⟨count, hanswer, hless, -⟩
  · rw [hsame]
    split
    · rename_i count hanswer
      exact absurd hanswer (hnot count)
    · exact hsum
  · rw [hanswer]
    simp only [sum_append, sum_singleton]
    omega

theorem Balanced.release {count : Nat} (hfits : s.state.permits + count ≤ usizeMax)
    (h : s.state.closed = false →
      s.state.permits + count + s.guards.sum + s.forgotten = permits + s.added) :
    Balanced permits (s.release count) := by
  intro hopen
  simp only [SemaphoreSystem.release, addPermits] at hopen ⊢
  split
  · rename_i hzero
    rw [if_pos hzero] at hopen
    have hsum := h hopen
    simp only
    omega
  rename_i hpos
  rw [if_neg hpos] at hopen
  split
  · rename_i hclosed
    simp only [hclosed, if_true] at hopen
    cases hopen
  · rename_i hclosed
    have hsum := h (by simpa using hclosed)
    rw [Nat.min_eq_left hfits]
    exact hsum

/-- No operation loses or invents a permit of an open semaphore. -/
theorem Balanced.exec (h : Balanced permits s) (hexec : s.exec op = some s') :
    Balanced permits s' := by
  cases op with
  | acquire count =>
    cases hexec
    exact h
  | poll f waker cancelled =>
    obtain ⟨cell, -, -, rfl⟩ := bind_ite_eq_some_iff.mp hexec
    exact h.pollFuture waker cancelled
  | dropFuture f =>
    obtain ⟨cell, -, -, rfl⟩ := bind_ite_eq_some_iff.mp hexec
    intro hopen
    obtain ⟨waiters, hleave⟩ := cell.future.leave_frame s.state
    simp only [dropFuture, hleave] at hopen ⊢
    exact h hopen
  | tryAcquire count =>
    obtain rfl | ⟨state, htry, rfl⟩ := exec_tryAcquire hexec
    · exact h
    intro hopen
    simp only [sum_append, sum_singleton]
    obtain ⟨rfl, rfl⟩ | ⟨hclosed, -, hcount, rfl⟩ := tryAcquire_ok htry
    · have hsum := h hopen
      omega
    · have hsum := h hclosed
      simp only
      omega
  | dropGuard i =>
    obtain ⟨count, hguard, hfits, rfl⟩ := bind_ite_eq_some_iff.mp hexec
    refine Balanced.release (s := { s with guards := s.guards.eraseIdx i }) hfits fun hopen => ?_
    have hsum := h hopen
    have hrest := sum_eraseIdx hguard
    simp only
    omega
  | forgetGuard i =>
    obtain ⟨count, hguard, ⟨⟩⟩ := bind_eq_some_iff.mp hexec
    intro hopen
    have hsum := h hopen
    have hrest := sum_eraseIdx hguard
    simp only
    omega
  | addPermits count =>
    obtain ⟨hfits, hadd⟩ := ite_none_right_eq_some.mp hexec
    cases hadd
    refine Balanced.release (s := { s with added := s.added + count }) hfits fun hopen => ?_
    have hsum := h hopen
    simp only
    omega
  | close =>
    cases hexec
    intro hopen
    cases hopen

end Balance

theorem Inv.line_eq_nil (h : Inv s []) (hopen : s.state.closed = false) : s.line = [] :=
  WaitLine.filter_eq_nil_of_line (h.line hopen).symm

/-- The future that waits with the first entry is the first in line. -/
theorem Inv.head_line (h : Inv s (e :: ys)) (hopen : s.state.closed = false)
    (hcell : s.futures[f]? = some cell) (hticket : cell.future.waiter = some (handleOf e)) :
    s.line.head? = some f := by
  have hline := h.line hopen
  exact WaitLine.head_of_line (h.joined f cell hcell (by simp [hticket]))
    (hline ▸ nodup_handles h.queue) ((ticket_of_cell hcell).trans hticket) hline.symm

/-- Somebody waits with every entry, and the semaphore is open. -/
theorem Inv.exists_holder (h : Inv s es) (hmem : e ∈ es) : s.state.closed = false ∧
    ∃ (f : Nat) (cell : AcquireCell), s.futures[f]? = some cell ∧
      cell.future.waiter = some (handleOf e) := by
  have hopen : s.state.closed = false := by
    by_contra hclosed
    rw [h.closed (by simpa using hclosed)] at hmem
    exact absurd hmem not_mem_nil
  have hhandle : handleOf e ∈ s.arrivals.filterMap s.ticket :=
    h.line hopen ▸ mem_map_of_mem hmem
  obtain ⟨f, -, hticket⟩ := mem_filterMap.mp hhandle
  obtain ⟨cell, hcell, hwaiter⟩ := bind_eq_some_iff.mp hticket
  exact ⟨hopen, f, cell, hcell, hwaiter⟩

/-- An operation that hands out permits hands them to the first in line, or to a newcomer
when nobody waits. -/
theorem Inv.grant (h : Inv s es) (hexec : s.exec op = some s')
    (hcount : count ≠ 0) (hgrant : s'.guards = s.guards ++ [count]) :
    (∃ f waker cancelled, op = .poll f waker cancelled ∧
      (s.line.head? = some f ∨ s.line = [])) ∨ op = .tryAcquire count ∧ s.line = [] := by
  have hlength : s'.guards.length = s.guards.length + 1 := by rw [hgrant, length_append]; rfl
  cases op with
  | acquire _ =>
    cases hexec
    simp at hlength
  | poll f waker cancelled =>
    obtain ⟨cell, hcell, -, rfl⟩ := bind_ite_eq_some_iff.mp hexec
    refine .inl ⟨f, waker, cancelled, rfl, ?_⟩
    obtain ⟨-, ⟨hnot, -⟩ | ⟨granted, hanswer, -, hnext⟩⟩ :=
      cell.future.poll_accounts s.state waker cancelled
    · simp only [SemaphoreSystem.pollFuture] at hlength
      omega
    obtain rfl : granted = count := by
      simpa [SemaphoreSystem.pollFuture, hanswer] using hgrant
    obtain ⟨hopen, hnext⟩ := hnext.resolve_left hcount
    rw [isNextInLine] at hnext
    cases hwaiter : cell.future.waiter with
    | none =>
      rw [hwaiter] at hnext
      obtain rfl := h.queue.head_eq_none_iff.mp (isNone_iff_eq_none.mp hnext)
      exact .inr (h.line_eq_nil hopen)
    | some handle =>
      rw [hwaiter] at hnext
      obtain ⟨w, rest, rfl, hid⟩ := (isFrontWaiter_iff h.queue).mp hnext
      refine .inl (h.head_line hopen hcell ?_)
      rw [hwaiter, handleOf, hid]
  | dropFuture f =>
    obtain ⟨cell, -, -, rfl⟩ := bind_ite_eq_some_iff.mp hexec
    simp [SemaphoreSystem.dropFuture] at hlength
  | tryAcquire n =>
    obtain rfl | ⟨state, htry, rfl⟩ := exec_tryAcquire hexec
    · simp at hlength
    obtain rfl : n = count := by simpa using hgrant
    obtain ⟨hzero, -⟩ | ⟨hopen, hnone, -⟩ := tryAcquire_ok htry
    · exact absurd hzero hcount
    · obtain rfl := h.queue.head_eq_none_iff.mp hnone
      exact .inr ⟨rfl, h.line_eq_nil hopen⟩
  | dropGuard i =>
    obtain ⟨n, -, -, rfl⟩ := bind_ite_eq_some_iff.mp hexec
    have hless := s.guards.length_eraseIdx_le i
    simp only [SemaphoreSystem.release] at hlength
    omega
  | forgetGuard i =>
    obtain ⟨n, -, ⟨⟩⟩ := bind_eq_some_iff.mp hexec
    have hless := s.guards.length_eraseIdx_le i
    simp only at hlength
    omega
  | addPermits n =>
    obtain ⟨-, hadd⟩ := ite_none_right_eq_some.mp hexec
    cases hadd
    simp [SemaphoreSystem.release] at hlength
  | close =>
    cases hexec
    simp [SemaphoreSystem.close] at hlength

theorem Inv.new (permits : Nat) : Inv (.new permits) [] :=
  .of_cells Represents.empty (fun _ => rfl) nodup_nil nofun (fun _ => rfl) nofun

/-- What a semaphore that started with `permits` promises in a state. -/
structure Fair (permits : Nat) (s : SemaphoreSystem) : Prop where
  conserves : s.state.closed = false →
    s.state.permits + s.guards.sum + s.forgotten = permits + s.added
  /-- The slab is a linked list with the waiting futures in the order of their arrival, and
  a future at its front that could run has been woken with the waker it left there. -/
  queue : ∃ es, s.state.waiters.Represents es ∧ (s.state.closed = true → es = []) ∧
    (s.state.closed = false → es.map (some ∘ handleOf) = s.line.map s.ticket) ∧
    ∀ e, es.head? = some e → e.2.count ≤ s.state.permits →
      ∃ (f : Nat) (cell : AcquireCell), s.line.head? = some f ∧ s.futures[f]? = some cell ∧
        cell.future.count = e.2.count ∧ cell.lastWaker = some e.2.waker ∧ cell.woken = true
  grants : ∀ op s' count, count ≠ 0 → s.exec op = some s' → s'.guards = s.guards ++ [count] →
    (∃ f waker cancelled, op = .poll f waker cancelled ∧
      (s.line.head? = some f ∨ s.line = [])) ∨ op = .tryAcquire count ∧ s.line = []

theorem Inv.fair {permits : Nat} (h : Inv s es) (hbalance : Balanced permits s) :
    Fair permits s where
  conserves := hbalance
  queue := by
    refine ⟨es, h.queue, h.closed, fun hopen => ?_, fun e he hcount => ?_⟩
    · rw [SemaphoreSystem.line, WaitLine.map_ticket_waiting, ← h.line hopen, List.map_map]
    · obtain ⟨rest, rfl⟩ := head?_eq_some_iff.mp he
      obtain ⟨hopen, f, cell, hcell, hwaiter⟩ := h.exists_holder mem_cons_self
      obtain ⟨hsame, hwaker⟩ := h.enters f cell hcell e mem_cons_self hwaiter
      exact ⟨f, cell, h.head_line hopen hcell hwaiter, hcell, hsame, hwaker,
        h.told f cell hcell e rest rfl hcount hwaiter⟩
  grants op s' count hcount hexec hgrant := h.grant hexec hcount hgrant

end SemaphoreSystem

/-- No interleaving of the operations on a semaphore loses or invents a permit, breaks the
queue, lets anybody jump it, or leaves a front that could run without a wakeup. -/
theorem semaphore_is_fair (permits : Nat) {s : SemaphoreSystem}
    (hs : (semaphoreSystem permits).Reachable s) : SemaphoreSystem.Fair permits s := by
  obtain ⟨⟨es, h⟩, hbalance⟩ : (∃ es, s.Inv es) ∧ s.Balanced permits := by
    refine hs.invariant (I := fun s => (∃ es, s.Inv es) ∧ s.Balanced permits) ?_ ?_
    · rintro s rfl
      exact ⟨⟨[], .new permits⟩, fun _ => rfl⟩
    · rintro s op s' ⟨⟨es, h⟩, hbalance⟩ hexec
      exact ⟨h.exec hexec, hbalance.exec hexec⟩
  exact h.fair hbalance

/-- A future that asks for two permits of one waits, and is told when the second comes. -/
theorem semaphore_is_fair_woken_front : ∃ s : SemaphoreSystem, (semaphoreSystem 1).Reachable s ∧
    s.line = [0] ∧ s.state.permits = 2 ∧ SemaphoreSystem.Fair 1 s := by
  let ops : List SemaphoreOp := [.acquire 2, .poll 0 { task := 7 } false, .addPermits 1]
  obtain ⟨s, hrun, hline, hpermits⟩ : ∃ s, ops.foldlM SemaphoreSystem.exec (.new 1) = some s ∧
      s.line = [0] ∧ s.state.permits = 2 := ⟨_, rfl, rfl, rfl⟩
  have hs : (semaphoreSystem 1).Reachable s :=
    ⟨.new 1, ops, rfl, .of_foldlM (fun _ _ _ h => h) ops hrun⟩
  exact ⟨s, hs, hline, hpermits, semaphore_is_fair 1 hs⟩

end Asupersync
