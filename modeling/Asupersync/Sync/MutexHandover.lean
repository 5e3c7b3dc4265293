import Asupersync.Lib.WaitLine
import Asupersync.Sync.Mutex

/-!
# Exclusion, order and hand-over of the mutex

As long as a new waiter never gets the identity of one that is still waiting, at
most one guard exists, the lock goes to the waiting futures in the order in which
they queued, and a free mutex either is nobody's turn or has woken the future whose
turn it is.

The identities in use are those of the granted waiter and of the queue behind it;
they are the tickets of the waiting futures in the order of arrival (`Inv.line`).
Identities are counted up and wrap, and only those in the queue are skipped: after
`2 ^ 64` registrations a newcomer can get the identity of a granted waiter that has
not been polled yet, and with it the turn of that waiter.
-/

namespace Asupersync

open Lib Function LockFuture LockCell WaiterChain List Option

namespace MutexState

variable {s : MutexState} {ws : List (WaiterSlot Unit)} {id : Nat} {w : WaiterSlot Unit}

/-- The identities of those who wait, the granted one first. -/
def inUse (s : MutexState) (ws : List (WaiterSlot Unit)) : List Nat :=
  s.grantedWaiter.toList ++ ws.map (·.id)

theorem mem_inUse_of_turn (h : s.grantedWaiter = some id) : id ∈ s.inUse ws :=
  mem_append_left _ (mem_toList.mpr h)

/-- The state of a mutex with the waiters `ws`: a turn is granted only while the mutex is
free, and a free mutex with nobody's turn has no waiters. -/
structure Fits (s : MutexState) (ws : List (WaiterSlot Unit)) : Prop where
  queue : s.waiters.Holds ws
  held : s.locked = true → s.grantedWaiter = none
  idle : s.locked = false → s.grantedWaiter = none → ws = []
  nodup : (s.inUse ws).Nodup

/-- What a change of turns does to the queue: who has the turn now had it before, or is
woken from the queue. -/
structure Turns (s s' : MutexState) (ws ws' : List (WaiterSlot Unit)) (waker : Option Waker) :
    Prop where
  sublist : ws'.Sublist ws
  turn : ∀ id, s'.grantedWaiter = some id →
    s.grantedWaiter = some id ∨ ∃ w ∈ ws, w.id = id ∧ waker = some w.waker

/-- Granting the next turn of a free mutex moves the front of the queue to the turn. -/
theorem Fits.grantNextWaiter (hqueue : s.waiters.Holds ws) (hfree : s.locked = false) :
    ∃ ws', s.grantNextWaiter.1.Fits ws' ∧ s.grantNextWaiter.1.locked = false ∧
      s.grantNextWaiter.1.inUse ws' = ws.map (·.id) ∧
      Turns s s.grantNextWaiter.1 ws ws' s.grantNextWaiter.2 := by
  cases ws with
  | nil =>
    rw [MutexState.grantNextWaiter, hqueue.popFront_nil]
    refine ⟨[], ⟨hqueue, fun _ => rfl, fun _ _ => rfl, nodup_nil⟩, hfree, rfl, .slnil, ?_⟩
    exact fun id hid => by cases hid
  | cons w ws =>
    obtain ⟨waiters, hpop, hrest⟩ := hqueue.popFront
    rw [MutexState.grantNextWaiter, hpop]
    refine ⟨ws, ⟨hrest, fun hlocked => ?_, fun _ hnone => ?_, hqueue.nodup⟩, hfree, rfl,
      sublist_cons_self w ws, fun id hid => ?_⟩
    · cases hfree.symm.trans hlocked
    · cases hnone
    · cases hid
      exact .inr ⟨w, mem_cons_self, rfl, rfl⟩

theorem Fits.unlock (h : s.Fits ws) (hlocked : s.locked = true) :
    ∃ ws', s.unlock.1.Fits ws' ∧ s.unlock.1.locked = false ∧ s.unlock.1.inUse ws' = s.inUse ws ∧
      Turns s s.unlock.1 ws ws' s.unlock.2 := by
  obtain ⟨ws', hfits, hfree, huse, hturns⟩ :=
    Fits.grantNextWaiter (s := { s with locked := false }) h.queue rfl
  refine ⟨ws', hfits, hfree, huse.trans ?_, hturns.sublist, hturns.turn⟩
  rw [inUse, h.held hlocked]
  rfl

theorem Fits.tryLock {s' : MutexState} {poisoned : Bool} (h : s.Fits ws)
    (htry : s.tryLock poisoned = .ok s') :
    s.locked = false ∧ s.grantedWaiter = none ∧ ws = [] ∧ s' = { s with locked := true } := by
  rw [MutexState.tryLock] at htry
  split at htry
  · cases htry
  · split at htry
    · cases htry
    · rename_i hbusy
      cases htry
      simp only [Bool.or_eq_true, not_or, Bool.not_eq_true, isSome_eq_false_iff,
        isNone_iff_eq_none] at hbusy
      exact ⟨hbusy.1.1, hbusy.1.2, h.idle hbusy.1.1 hbusy.1.2, rfl⟩

/-- A waiter that gives up takes exactly its identity out of use. -/
theorem Fits.cleanupWaiter (h : s.Fits ws) (hid : id ∈ s.inUse ws) :
    ∃ ws', (s.cleanupWaiter id).1.Fits ws' ∧ (s.cleanupWaiter id).1.locked = s.locked ∧
      (s.cleanupWaiter id).1.inUse ws' = (s.inUse ws).erase id ∧
      Turns s (s.cleanupWaiter id).1 ws ws' (s.cleanupWaiter id).2 := by
  by_cases hturn : s.grantedWaiter = some id
  · -- the turn goes on
    have hfree : s.locked = false := by
      by_contra hlocked
      rw [h.held (by simpa using hlocked)] at hturn
      cases hturn
    rw [MutexState.cleanupWaiter, if_pos hturn, if_neg (by simp [hfree])]
    obtain ⟨ws', hfits, hlocked, huse, hturns⟩ :=
      Fits.grantNextWaiter (s := { s with grantedWaiter := none }) h.queue hfree
    refine ⟨ws', hfits, hlocked.trans hfree.symm, huse.trans ?_, hturns.sublist, fun id' hid' => ?_⟩
    · rw [inUse, hturn]
      simp
    · exact .inr ((hturns.turn id' hid').resolve_left nofun)
  -- the place in the queue is given up; nobody's turn changes
  have hmem : id ∈ ws.map (·.id) := by
    rcases mem_append.mp hid with hgranted | hmem
    · exact absurd (mem_toList.mp hgranted) hturn
    · exact hmem
  obtain ⟨w, hw, rfl⟩ := mem_map.mp hmem
  obtain ⟨xs, ys, rfl⟩ := append_of_mem hw
  obtain ⟨waiters, hremove, hrest⟩ := h.queue.remove
  have hbusy : (!s.locked && s.grantedWaiter.isNone) = false := by
    by_contra hidle
    simp only [Bool.not_eq_false, Bool.and_eq_true, Bool.not_eq_true', isNone_iff_eq_none] at hidle
    exact absurd (h.idle hidle.1 hidle.2) (by simp)
  have hcleanup : s.cleanupWaiter w.id = ({ s with waiters := waiters }, none) := by
    rw [MutexState.cleanupWaiter, if_neg hturn]
    simp only [hremove]
    rw [hbusy, Bool.false_and, if_neg Bool.false_ne_true]
  have huse : ({ s with waiters := waiters } : MutexState).inUse (xs ++ ys) =
      (s.inUse (xs ++ w :: ys)).erase w.id := by
    have hnot : w.id ∉ s.grantedWaiter.toList ++ xs.map (·.id) := by
      have hnodup := h.nodup
      rw [inUse, map_append, map_cons, ← append_assoc] at hnodup
      exact fun hmem => disjoint_of_nodup_append hnodup hmem mem_cons_self
    simp only [inUse]
    rw [map_append, map_append, map_cons, ← append_assoc, ← append_assoc,
      erase_append_right _ hnot, erase_cons_head]
  rw [hcleanup]
  refine ⟨xs ++ ys, ⟨hrest, h.held, fun hfree hnone => ?_, huse ▸ h.nodup.erase _⟩, rfl, huse,
    (Sublist.refl xs).append (sublist_cons_self w ys), fun id' hid' => .inl hid'⟩
  exact absurd (h.idle hfree hnone) (by simp)

end MutexState

theorem LockFuture.completed_register {future future' : LockFuture} {s s' : MutexState}
    {waker : Waker} (h : future.register s waker = some (s', future')) :
    future'.completed = future.completed := by
  unfold register at h
  split at h
  · split at h
    · cases h
      rfl
    · obtain ⟨_, -, ⟨⟩⟩ := bind_eq_some_iff.mp h
      rfl
  · obtain ⟨_, -, ⟨⟩⟩ := bind_eq_some_iff.mp h
    rfl

/-- A poll takes the lock of a free mutex when it is its turn, or nobody's and it never
queued. -/
theorem LockFuture.poll_granted {future : LockFuture} {s : MutexState} {poisoned : Bool}
    {waker : Waker} {cancelled : Bool} {elapsed slept : Option Nat} {result : Polled}
    (h : future.poll s poisoned waker cancelled elapsed slept = some result)
    (hgrant : result.answer = .granted) :
    s.locked = false ∧ s.grantedWaiter = future.waiterId := by
  rw [poll.eq_def] at h
  iterate 3
    split at h
    · cases h
      cases hgrant
  rw [pollLocked] at h
  split at h
  · cases h
    cases hgrant
  split at h
  · rename_i hturn
    simp only [Bool.and_eq_true, beq_iff_eq] at hturn
    split at h
    · rename_i hfree
      exact ⟨by simpa using hfree, hturn.2⟩
    · obtain ⟨⟨waiters, id⟩, -, heq⟩ := bind_eq_some_iff.mp h
      cases heq
      cases hgrant
  · split at h
    · rename_i hfree
      simp only [Bool.and_eq_true, Bool.not_eq_true', isNone_iff_eq_none] at hfree
      exact ⟨hfree.1.1, hfree.1.2.trans hfree.2.symm⟩
    · obtain ⟨⟨state, future'⟩, -, heq⟩ := bind_eq_some_iff.mp h
      cases slept <;> cases heq <;> cases hgrant

open MutexState

namespace LockCell

variable {cell : LockCell} {ws ws' : List (WaiterSlot Unit)} {waker : Option Waker}
  {st st' : MutexState}

/-- The waker in the queue is the one the future registered last. -/
def Enters (ws : List (WaiterSlot Unit)) (cell : LockCell) : Prop :=
  ∀ w ∈ ws, cell.future.waiterId = some w.id → cell.lastWaker = some w.waker

/-- The future whose turn it is has been woken. -/
def Told (turn : Option Nat) (cell : LockCell) : Prop :=
  ∀ id, turn = some id → cell.future.waiterId = some id →
    cell.lastWaker ≠ none ∧ cell.woken = true

/-- A future that waits is live, and is completed only while it is cleaned up. -/
def Closes (cell : LockCell) : Prop :=
  (cell.future.waiterId ≠ none →
    cell.live = true ∧ (cell.future.completed = true → cell.cleaning = true)) ∧
  (cell.cleaning = true → cell.future.completed = true)

theorem wake_none (cell : LockCell) : cell.wake none = cell := by
  simp [wake]

theorem Enters.of_sublist (h : cell.Enters ws) (hsub : ws'.Sublist ws) : cell.Enters ws' :=
  fun w hw => h w (hsub.subset hw)

theorem enters_of_none (hnone : cell.future.waiterId = none) : cell.Enters ws := by
  intro w _ heq
  cases hnone.symm.trans heq

theorem told_of_none {turn : Option Nat} (hnone : cell.future.waiterId = none) : cell.Told turn := by
  intro id _ heq
  cases hnone.symm.trans heq

/-- A change of turns wakes the future it gives the turn to. -/
theorem Told.turns (h : cell.Told st.grantedWaiter) (henters : cell.Enters ws)
    (hturns : Turns st st' ws ws' waker) : (cell.wake waker).Told st'.grantedWaiter := by
  intro id hid hticket
  rcases hturns.turn id hid with hold | ⟨w, hw, rfl, rfl⟩
  · obtain ⟨hwaker, hwoken⟩ := h id hold hticket
    refine ⟨hwaker, ?_⟩
    rw [wake, hwoken]
    rfl
  · have hwaker := henters w hw hticket
    exact ⟨by simp [wake, hwaker], by simp [wake, hwaker]⟩

end LockCell

namespace MutexSystem

variable {s s' : MutexSystem} {ws ws' : List (WaiterSlot Unit)} {f g : Nat}
  {cell cell' c : LockCell} {waker : Option Waker}

/-- Mutex, futures and the order of arrival fit together. -/
structure Inv (s : MutexSystem) (ws : List (WaiterSlot Unit)) : Prop where
  fits : s.state.Fits ws
  turns : s.guards = if s.state.locked then 1 else 0
  order : s.arrivals.Nodup
  arrived : ∀ f ∈ s.arrivals, s.futures f ≠ none
  joined : ∀ f cell, s.futures f = some cell → cell.future.waiterId ≠ none → f ∈ s.arrivals
  left : ∀ f cell, s.futures f = some cell → f ∈ s.arrivals → cell.future.waiterId = none →
    cell.future.completed = true ∨ cell.live = false
  live : ∀ f cell, s.futures f = some cell → cell.future.waiterId ≠ none →
    cell.live = true ∧ (cell.future.completed = true → cell.cleaning = true)
  closing : ∀ f cell, s.futures f = some cell → cell.cleaning = true → cell.future.completed = true
  line : s.state.inUse ws = s.arrivals.filterMap s.ticket
  enters : ∀ f cell, s.futures f = some cell → cell.Enters ws
  told : ∀ f cell, s.futures f = some cell → cell.Told s.state.grantedWaiter

/-- What `Inv` says of one future. -/
structure CellOk (s : MutexSystem) (ws : List (WaiterSlot Unit)) (f : Nat) (cell : LockCell) :
    Prop where
  joined : cell.future.waiterId ≠ none → f ∈ s.arrivals
  left : f ∈ s.arrivals → cell.future.waiterId = none →
    cell.future.completed = true ∨ cell.live = false
  closes : cell.Closes
  enters : cell.Enters ws
  told : cell.Told s.state.grantedWaiter

theorem Inv.cellOk (h : Inv s ws) (hcell : s.futures f = some cell) : CellOk s ws f cell :=
  ⟨h.joined f cell hcell, h.left f cell hcell, ⟨h.live f cell hcell, h.closing f cell hcell⟩,
    h.enters f cell hcell, h.told f cell hcell⟩

theorem Inv.of_cells (hfits : s.state.Fits ws) (hturns : s.guards = if s.state.locked then 1 else 0)
    (horder : s.arrivals.Nodup) (harrived : ∀ f ∈ s.arrivals, s.futures f ≠ none)
    (hline : s.state.inUse ws = s.arrivals.filterMap s.ticket)
    (hcells : ∀ f cell, s.futures f = some cell → CellOk s ws f cell) : Inv s ws where
  fits := hfits
  turns := hturns
  order := horder
  arrived := harrived
  joined f cell hcell := (hcells f cell hcell).joined
  left f cell hcell := (hcells f cell hcell).left
  live f cell hcell := (hcells f cell hcell).closes.1
  closing f cell hcell := (hcells f cell hcell).closes.2
  line := hline
  enters f cell hcell := (hcells f cell hcell).enters
  told f cell hcell := (hcells f cell hcell).told

theorem CellOk.of_none (hid : cell.future.waiterId = none)
    (hend : cell.future.completed = true ∨ cell.live = false)
    (hclosing : cell.cleaning = true → cell.future.completed = true) :
    CellOk s ws f (cell.wake waker) :=
  ⟨absurd hid, fun _ _ => hend, ⟨absurd hid, hclosing⟩, enters_of_none hid, told_of_none hid⟩

theorem ticket_of_cell (hcell : s.futures f = some cell) : s.ticket f = cell.future.waiterId := by
  rw [ticket, hcell]
  rfl

/-- One future has changed, and a waker was woken. -/
structure Replaces (s s' : MutexSystem) (f : Nat) (cell cell' : LockCell) (waker : Option Waker) :
    Prop where
  cell : s.futures f = some cell
  futures : s'.futures = fun g => (Function.update s.futures f (some cell') g).map (LockCell.wake waker)

section

variable (h : s'.futures = fun g => (Function.update s.futures f (some cell') g).map (LockCell.wake waker))

include h

theorem ticket_replaced : s'.ticket = Function.update s.ticket f cell'.future.waiterId := by
  funext g
  rw [ticket, h]
  rcases eq_or_ne g f with rfl | hne
  · simp only [update_self]
    rfl
  · simp only [update_of_ne hne, ticket]
    cases s.futures g <;> rfl

/-- A future of the new state is the changed one or an old one. -/
theorem replaced_cases (hg : s'.futures g = some c) :
    g = f ∧ c = cell'.wake waker ∨ g ≠ f ∧ ∃ c₀, s.futures g = some c₀ ∧ c = c₀.wake waker := by
  rw [h] at hg
  dsimp only at hg
  rcases eq_or_ne g f with rfl | hne
  · rw [update_self, map_some, some.injEq] at hg
    exact .inl ⟨rfl, hg.symm⟩
  · rw [update_of_ne hne, map_eq_some_iff] at hg
    obtain ⟨c₀, hc₀, rfl⟩ := hg
    exact .inr ⟨hne, c₀, hc₀, rfl⟩

end

section

variable (h : Inv s ws) {id : Nat}

include h

/-- The invariant after the change of one future: what is left to show is about the mutex,
the changed future, and what the others see. -/
theorem Inv.replace (hfutures : s'.futures =
      fun g => (Function.update s.futures f (some cell') g).map (LockCell.wake waker))
    (hfits : s'.state.Fits ws') (hturns : s'.guards = if s'.state.locked then 1 else 0)
    (harrivals : s'.arrivals = s.arrivals ∨ s'.arrivals = s.arrivals ++ [f] ∧ f ∉ s.arrivals)
    (hline : s'.state.inUse ws' =
      s'.arrivals.filterMap (Function.update s.ticket f cell'.future.waiterId))
    (hself : CellOk s' ws' f (cell'.wake waker)) (hothers : ∀ g c, g ≠ f → s.futures g = some c →
      c.Enters ws' ∧ (c.wake waker).Told s'.state.grantedWaiter) : Inv s' ws' := by
  obtain ⟨horder, hmem⟩ := WaitLine.arrive h.order harrivals
  refine .of_cells hfits hturns horder ?_ (ticket_replaced hfutures ▸ hline) ?_
  · intro g hg
    rw [hfutures]
    rcases eq_or_ne g f with rfl | hne
    · simp
    · simpa [update_of_ne hne] using h.arrived g ((hmem g hne).mp hg)
  · intro g c hg
    rcases replaced_cases hfutures hg with ⟨rfl, rfl⟩ | ⟨hne, c₀, hc₀, rfl⟩
    · exact hself
    · have hok := h.cellOk hc₀
      obtain ⟨henters, htold⟩ := hothers g c₀ hne hc₀
      exact ⟨(hmem g hne).mpr ∘ hok.joined, hok.left ∘ (hmem g hne).mp, hok.closes, henters, htold⟩

/-- The identity of a waiting future is in use. -/
theorem Inv.mem_inUse (hcell : s.futures f = some cell)
    (hid : cell.future.waiterId = some id) : id ∈ s.state.inUse ws := by
  rw [h.line, mem_filterMap]
  refine ⟨f, h.joined f cell hcell (by simp [hid]), (ticket_of_cell hcell).trans hid⟩

/-- No two futures wait with one identity. -/
theorem Inv.holder_unique (hf : s.futures f = some cell) (hg : s.futures g = some c)
    (hcell : cell.future.waiterId = some id) (hc : c.future.waiterId = some id) : f = g := by
  refine WaitLine.holder_unique (h.line ▸ h.fits.nodup)
    (h.joined f cell hf (by simp [hcell])) (h.joined g c hg (by simp [hc]))
    ((ticket_of_cell hf).trans hcell) ((ticket_of_cell hg).trans hc)

/-- A future that waits leaves the queue or gives up its turn. -/
theorem Inv.leave (hr : Replaces s s' f cell cell' waker)
    (hid : cell.future.waiterId = some id) (hfits : s'.state.Fits ws')
    (hturns : s'.guards = if s'.state.locked then 1 else 0)
    (huse : s'.state.inUse ws' = (s.state.inUse ws).erase id)
    (hchange : Turns s.state s'.state ws ws' waker) (harrivals : s'.arrivals = s.arrivals)
    (hid' : cell'.future.waiterId = none)
    (hend : cell'.future.completed = true ∨ cell'.live = false)
    (hclosing : cell'.cleaning = true → cell'.future.completed = true) : Inv s' ws' := by
  refine h.replace hr.futures hfits hturns (.inl harrivals) ?_ (.of_none hid' hend hclosing) ?_
  · rw [hid', huse, harrivals, h.line]
    refine (WaitLine.line_leave h.order (h.line ▸ h.fits.nodup) ?_ ?_).symm
    · exact h.joined f cell hr.cell (by simp [hid])
    · exact (ticket_of_cell hr.cell).trans hid
  · intro g c _ hg
    exact ⟨(h.enters g c hg).of_sublist hchange.sublist, (h.told g c hg).turns (h.enters g c hg) hchange⟩

section

variable (hr : Replaces s s' f cell cell' none)

include hr

/-- A future that keeps its ticket, or its having none, touches nobody else. -/
theorem Inv.settle (hstate : s'.state = s.state) (hguards : s'.guards = s.guards)
    (harrivals : s'.arrivals = s.arrivals) (hid : cell'.future.waiterId = cell.future.waiterId)
    (hwoken : cell'.woken = cell.woken) (hwaker : cell'.lastWaker = cell.lastWaker)
    (hend : cell'.future.waiterId = none → cell'.future.completed = true ∨ cell'.live = false)
    (hcloses : cell'.Closes) : Inv s' ws := by
  refine h.replace hr.futures (hstate ▸ h.fits) (by rw [hguards, hstate]; exact h.turns) (.inl harrivals)
    ?_ ⟨?_, fun _ => hend, hcloses, ?_, ?_⟩ ?_
  · rw [hid, ← ticket_of_cell hr.cell, update_eq_self, harrivals, hstate]
    exact h.line
  · intro hne
    rw [harrivals]
    exact h.joined f cell hr.cell (hid ▸ hne)
  · intro w hw heq
    rw [wake_none, hwaker]
    exact h.enters f cell hr.cell w hw (hid ▸ heq)
  · intro id hturn heq
    rw [wake_none, hwoken, hwaker]
    exact h.told f cell hr.cell id (hstate ▸ hturn) (hid ▸ heq)
  · intro g c _ hg
    rw [wake_none, hstate]
    exact ⟨h.enters g c hg, h.told g c hg⟩

variable {id : Nat} {new : Waker} {waiters : WaiterChain Unit}
  (hstate : s'.state = { s.state with waiters := waiters }) (hguards : s'.guards = s.guards)
  (hid' : cell'.future.waiterId = some id) (hwaker : cell'.lastWaker = some new)
  (hcloses : cell'.Closes)

include hstate hguards hid' hwaker hcloses

/-- A future in the queue registers a new waker. -/
theorem Inv.refresh (hid : cell.future.waiterId = some id) (hturn : s.state.grantedWaiter ≠ some id)
    (hqueue : waiters.Holds (ws.map (setWaker id new))) (harrivals : s'.arrivals = s.arrivals) :
    Inv s' (ws.map (setWaker id new)) := by
  have hids : (ws.map (setWaker id new)).map (·.id) = ws.map (·.id) := by
    rw [List.map_map]
    exact map_congr_left fun w _ => id_setWaker id new w
  have huse : s'.state.inUse (ws.map (setWaker id new)) = s.state.inUse ws := by
    rw [inUse, inUse, hids, hstate]
  have hfits : s'.state.Fits (ws.map (setWaker id new)) := by
    refine ⟨hstate ▸ hqueue, hstate ▸ h.fits.held, fun hfree hnone => ?_, huse ▸ h.fits.nodup⟩
    rw [hstate] at hfree hnone
    rw [h.fits.idle hfree hnone]
    rfl
  refine h.replace hr.futures hfits (by rw [hguards, hstate]; exact h.turns) (.inl harrivals) ?_
    ⟨?_, ?_, hcloses, ?_, ?_⟩ ?_
  · rw [hid', ← hid, ← ticket_of_cell hr.cell, update_eq_self, harrivals, huse]
    exact h.line
  · intro _
    rw [harrivals]
    exact h.joined f cell hr.cell (by simp [hid])
  · intro _ hnone
    cases hnone.symm.trans hid'
  · intro w hw heq
    obtain ⟨w₀, -, rfl⟩ := mem_map.mp hw
    rw [id_setWaker, wake_none, hid', some.injEq] at heq
    rw [setWaker, if_pos heq.symm]
    exact hwaker
  · intro id' hid'' heq
    rw [hstate] at hid''
    cases hid'.symm.trans heq
    exact absurd hid'' hturn
  intro g c hne hg
  refine ⟨fun w hw heq => ?_, ?_⟩
  · obtain ⟨w₀, hw₀, rfl⟩ := mem_map.mp hw
    rw [id_setWaker] at heq
    have hother : w₀.id ≠ id := by
      rintro rfl
      exact hne (h.holder_unique hg hr.cell heq hid)
    rw [setWaker, if_neg hother]
    exact h.enters g c hg w₀ hw₀ heq
  · rw [wake_none, hstate]
    exact h.told g c hg

/-- A newcomer joins at the end of the queue, with an identity nobody has. -/
theorem Inv.join (hfresh : ∀ g, s.ticket g ≠ some id)
    (hbusy : s.state.locked = true ∨ s.state.grantedWaiter ≠ none)
    (hid : cell.future.waiterId = none) (hgoing : cell.future.completed = false)
    (hcell : cell.live = true)
    (hqueue : waiters.Holds (ws ++ [{ id := id, waker := new, tag := () }]))
    (harrivals : s'.arrivals = s.arrivals ++ [f]) :
    Inv s' (ws ++ [{ id := id, waker := new, tag := () }]) := by
  have hnew : f ∉ s.arrivals := by
    intro hmem
    have hend := h.left f cell hr.cell hmem hid
    simp [hgoing, hcell] at hend
  have hunused : id ∉ s.state.inUse ws := by
    rw [h.line, mem_filterMap]
    rintro ⟨g, -, hg⟩
    exact hfresh g hg
  have huse : s'.state.inUse (ws ++ [{ id := id, waker := new, tag := () }]) =
      s.state.inUse ws ++ [id] := by
    rw [inUse, inUse, hstate, map_append, ← append_assoc]
    rfl
  have hfits : s'.state.Fits (ws ++ [{ id := id, waker := new, tag := () }]) := by
    refine ⟨hstate ▸ hqueue, hstate ▸ h.fits.held, fun hfree hnone => ?_, ?_⟩
    · rw [hstate] at hfree hnone
      rcases hbusy with hlocked | hturn
      · cases hfree.symm.trans hlocked
      · exact absurd hnone hturn
    · rw [huse]
      refine nodup_append.mpr ⟨h.fits.nodup, nodup_singleton id, fun a ha b hb => ?_⟩
      rw [mem_singleton.mp hb]
      rintro rfl
      exact hunused ha
  refine h.replace hr.futures hfits (by rw [hguards, hstate]; exact h.turns) (.inr ⟨harrivals, hnew⟩) ?_
    ⟨fun _ => by simp [harrivals], ?_, hcloses, ?_, ?_⟩ ?_
  · rw [hid', harrivals, WaitLine.line_join hnew, huse, h.line]
  · intro _ hnone
    cases hnone.symm.trans hid'
  · intro w hw heq
    rcases mem_append.mp hw with hold | hlast
    · cases hid'.symm.trans heq
      exact absurd (mem_append_right _ (mem_map_of_mem hold)) hunused
    · cases mem_singleton.mp hlast
      exact hwaker
  · intro id' hturn heq
    rw [hstate] at hturn
    cases hid'.symm.trans heq
    exact absurd (mem_inUse_of_turn hturn) hunused
  · intro g c _ hg
    refine ⟨fun w hw heq => ?_, ?_⟩
    · rcases mem_append.mp hw with hw | hw
      · exact h.enters g c hg w hw heq
      · cases mem_singleton.mp hw
        exact absurd ((ticket_of_cell hg).trans heq) (hfresh g)
    · rw [wake_none, hstate]
      exact h.told g c hg

end

/-- Wakes of a step in which no future takes part. -/
theorem Inv.wakes (hfits : s'.state.Fits ws')
    (hturns : s'.guards = if s'.state.locked then 1 else 0) (harrivals : s'.arrivals = s.arrivals)
    (hfutures : s'.futures = fun g => (s.futures g).map (wake waker))
    (huse : s'.state.inUse ws' = s.state.inUse ws)
    (hchange : Turns s.state s'.state ws ws' waker) : Inv s' ws' := by
  have hticket : s'.ticket = s.ticket := by
    funext g
    simp only [ticket, hfutures]
    cases s.futures g <;> rfl
  refine .of_cells hfits hturns (harrivals ▸ h.order) ?_ ?_ ?_
  · intro g hg
    rw [hfutures]
    simpa using h.arrived g (harrivals ▸ hg)
  · rw [huse, hticket, harrivals]
    exact h.line
  · intro g c hg
    rw [hfutures] at hg
    obtain ⟨c₀, hc₀, rfl⟩ := map_eq_some_iff.mp hg
    have hok := h.cellOk hc₀
    exact ⟨harrivals ▸ hok.joined, harrivals ▸ hok.left, hok.closes,
      hok.enters.of_sublist hchange.sublist, hok.told.turns hok.enters hchange⟩

/-- A new future is nobody who waits. -/
theorem Inv.lock (hnew : s.futures f = none) : Inv (s.update f .new none) ws := by
  have hnot : f ∉ s.arrivals := fun hmem => h.arrived f hmem hnew
  refine h.replace rfl h.fits h.turns (.inl rfl) ?_
    ⟨absurd rfl, (absurd · hnot), ⟨absurd rfl, nofun⟩, enters_of_none rfl, told_of_none rfl⟩ ?_
  · exact h.line.trans (WaitLine.line_update_of_notMem hnot _).symm
  · intro g c _ hg
    rw [wake_none]
    exact ⟨h.enters g c hg, h.told g c hg⟩

theorem Inv.unlock (hguard : 0 < s.guards) :
    ∃ ws', Inv { s with
      state := s.state.unlock.1
      guards := s.guards - 1
      futures := fun g => (s.futures g).map (wake s.state.unlock.2) } ws' := by
  have hlocked : s.state.locked = true := by
    by_contra hfree
    rw [h.turns, if_neg hfree] at hguard
    exact Nat.lt_irrefl 0 hguard
  obtain ⟨ws', hfits, hfree, huse, hchange⟩ := h.fits.unlock hlocked
  refine ⟨ws', h.wakes hfits ?_ rfl rfl huse hchange⟩
  rw [h.turns, hlocked, hfree]
  rfl

theorem Inv.tryLock {state : MutexState} (htry : s.state.tryLock s.poisoned = .ok state) :
    Inv { s with state := state, guards := s.guards + 1 } ws := by
  obtain ⟨hfree, hturn, rfl, rfl⟩ := h.fits.tryLock htry
  have hfits : ({ s.state with locked := true } : MutexState).Fits [] :=
    ⟨h.fits.queue, fun _ => hturn, nofun, h.fits.nodup⟩
  have hchange : Turns s.state { s.state with locked := true } [] [] none :=
    ⟨.slnil, fun id hid => .inl hid⟩
  refine h.wakes hfits ?_ rfl ?_ rfl hchange
  · simp [h.turns, hfree]
  · funext g
    cases s.futures g with
    | none => rfl
    | some c => exact congrArg some c.wake_none.symm

/-- A future gives up: it leaves the queue if it is in it. -/
theorem Inv.giveUp (hr : Replaces s s' f cell cell' (cell.future.cleanup s.state).2)
    (hstate : s'.state = (cell.future.cleanup s.state).1) (hguards : s'.guards = s.guards)
    (harrivals : s'.arrivals = s.arrivals) (hid' : cell'.future.waiterId = none)
    (hwoken : cell'.woken = cell.woken) (hwaker : cell'.lastWaker = cell.lastWaker)
    (hend : cell'.future.completed = true ∨ cell'.live = false)
    (hclosing : cell'.cleaning = true → cell'.future.completed = true) : ∃ ws', Inv s' ws' := by
  cases hid : cell.future.waiterId with
  | none =>
    rw [cleanup, hid] at hr hstate
    exact ⟨ws, h.settle hr hstate hguards harrivals (hid'.trans hid.symm) hwoken hwaker
      (fun _ => hend) ⟨absurd hid', hclosing⟩⟩
  | some id =>
    simp only [cleanup, hid] at hr hstate
    obtain ⟨ws', hfits, hlocked, huse, hchange⟩ := h.fits.cleanupWaiter (h.mem_inUse hr.cell hid)
    rw [← hstate] at hfits hlocked huse hchange
    refine ⟨ws', h.leave hr hid hfits ?_ huse hchange harrivals hid' hend hclosing⟩
    rw [hguards, hlocked]
    exact h.turns

end

/-- The operation puts a new waiter into the queue. -/
def Queues (s : MutexSystem) : MutexOp → Prop
  | .poll f _ cancelled elapsed _ =>
    cancelled = false ∧ elapsed = none ∧ s.poisoned = false ∧
      (∃ cell, s.futures f = some cell ∧ cell.future = { waiterId := none, completed := false }) ∧
      (s.state.locked = true ∨ s.state.grantedWaiter ≠ none)
  | _ => False

/-- The identity that is handed out next is that of no future that waits. -/
def FreshId (s : MutexSystem) : Prop :=
  ∀ id, s.state.waiters.freshId = some id → ∀ f, s.ticket f ≠ some id

theorem replaces_pollFuture (hcell : s.futures f = some cell) (waker : Waker)
    (result : Polled) : Replaces s (s.pollFuture f cell waker result) f cell
      (cell.polled waker result) result.wake :=
  ⟨hcell, rfl⟩

variable {result : LockFuture.Polled}

section

variable (h : Inv s ws) (hcell : s.futures f = some cell)

include h hcell

/-- A poll that ends without touching the queue. -/
theorem Inv.pollFuture_settle (waker : Waker) (hstate : result.state = s.state)
    (hid : result.future.waiterId = cell.future.waiterId) (hanswer : result.answer ≠ .granted)
    (hquiet : result.registered = false) (hwake : result.wake = none)
    (hend : result.future.waiterId = none → result.future.completed = true)
    (hcloses : (cell.polled waker result).Closes) : Inv (s.pollFuture f cell waker result) ws := by
  have hr := replaces_pollFuture hcell waker result
  rw [hwake] at hr
  refine h.settle hr hstate ?_ ?_ hid ?_ ?_ (fun hnone => .inl (hend hnone)) hcloses
  · simp [pollFuture, hanswer]
  · simp only [pollFuture, hid]
    cases cell.future.waiterId <;> rfl
  · simp [polled, hquiet]
  · simp [polled, hquiet]

/-- A poll that gives up. -/
theorem Inv.pollFuture_giveUp (waker : Waker)
    (error : LockError) : ∃ ws', Inv (s.pollFuture f cell waker
      { state := (cell.future.cleanup s.state).1
        future := { waiterId := none, completed := true }
        answer := .failed error
        registered := false
        wake := (cell.future.cleanup s.state).2 }) ws' := by
  refine h.giveUp (replaces_pollFuture hcell waker _) rfl rfl ?_ rfl ?_ rfl (.inl rfl) nofun
  · simp [pollFuture]
  · simp [polled]

/-- A poll that takes the lock. -/
theorem Inv.pollFuture_take (waker : Waker)
    (hfree : s.state.locked = false) (hturn : s.state.grantedWaiter = cell.future.waiterId) :
    Inv (s.pollFuture f cell waker (cell.future.take s.state)) ws := by
  have hr := replaces_pollFuture hcell waker (cell.future.take s.state)
  have hguards : (s.pollFuture f cell waker (cell.future.take s.state)).guards = 1 := by
    simp [pollFuture, LockFuture.take, h.turns, hfree]
  have harrivals : (s.pollFuture f cell waker (cell.future.take s.state)).arrivals = s.arrivals := by
    simp [pollFuture, LockFuture.take]
  have hfits : (cell.future.take s.state).state.Fits ws :=
    ⟨h.fits.queue, fun _ => rfl, nofun, h.fits.queue.nodup⟩
  have hchange : Turns s.state (cell.future.take s.state).state ws ws none := ⟨.refl ws, nofun⟩
  cases hid : cell.future.waiterId with
  | some id =>
    refine h.leave hr hid hfits hguards ?_ hchange harrivals rfl (.inl rfl) fun _ => rfl
    rw [inUse, inUse, hturn, hid]
    simp [pollFuture, LockFuture.take]
  | none =>
    -- nobody waits, so nobody is passed over
    refine h.replace hr.futures hfits hguards (.inl harrivals) ?_
      (.of_none rfl (.inl rfl) fun _ => rfl) ?_
    · have hsame : Function.update s.ticket f none = s.ticket := by
        rw [← hid, ← ticket_of_cell hcell, update_eq_self]
      have huse : s.state.inUse ws = ws.map (·.id) := by
        rw [inUse, hturn, hid]
        rfl
      rw [harrivals]
      exact huse.symm.trans (hsame.symm ▸ h.line)
    · intro g c _ hg
      exact ⟨h.enters g c hg, (h.told g c hg).turns (h.enters g c hg) hchange⟩

/-- A poll that has to wait; `slept` ends it right after. -/
theorem Inv.pollFuture_register (hlive : cell.live = true) (hgoing : cell.future.completed = false) (waker : Waker)
    {state : MutexState} {future : LockFuture} (hregister : cell.future.register s.state waker = some (state, future))
    (hturn : ∀ id, cell.future.waiterId = some id → s.state.grantedWaiter ≠ some id)
    (hbusy : cell.future.waiterId = none → s.state.locked = true ∨ s.state.grantedWaiter ≠ none)
    (hfresh : cell.future.waiterId = none → s.FreshId) (hstate : result.state = state)
    (hid : result.future.waiterId = future.waiterId) (hanswer : result.answer ≠ .granted)
    (hregistered : result.registered = true) (hwake : result.wake = none)
    (hclosing : (cell.polled waker result).cleaning = true → result.future.completed = true)
    (hcleaning : result.future.completed = true → ∃ error, result.answer = .cleaning error) :
    ∃ ws', Inv (s.pollFuture f cell waker result) ws' := by
  have hr := replaces_pollFuture hcell waker result
  rw [hwake] at hr
  have hguards : (s.pollFuture f cell waker result).guards = s.guards := by
    simp [pollFuture, hanswer]
  have hwaker : (cell.polled waker result).lastWaker = some waker := by
    simp [polled, hregistered]
  have hcloses : (cell.polled waker result).Closes := by
    refine ⟨fun _ => ⟨hlive, fun hdone => ?_⟩, hclosing⟩
    obtain ⟨error, herror⟩ := hcleaning hdone
    simp [polled, herror]
  cases hold : cell.future.waiterId with
  | none =>
    simp only [register, hold, bind_eq_bind, bind_eq_some_iff] at hregister
    obtain ⟨⟨waiters, id⟩, hpush, ⟨⟩⟩ := hregister
    obtain ⟨hid', hqueue⟩ := h.fits.queue.of_push hpush
    refine ⟨_, h.join hr hstate hguards hid hwaker hcloses (hfresh hold id hid') (hbusy hold) hold
      hgoing hlive hqueue ?_⟩
    simp [pollFuture, hold, hid]
  | some id =>
    have hne := hturn id hold
    have hmem : id ∈ ws.map (·.id) := by
      rcases mem_append.mp (h.mem_inUse hcell hold) with hgranted | hmem
      · exact absurd (mem_toList.mp hgranted) hne
      · exact hmem
    obtain ⟨waiters, hupdate, hqueue⟩ := h.fits.queue.updateWaker hmem waker
    simp only [register, hold, hupdate, some.injEq, Prod.mk.injEq] at hregister
    obtain ⟨rfl, rfl⟩ := hregister
    refine ⟨_, h.refresh hr hstate hguards (hid.trans hold) hwaker hcloses hold hne hqueue ?_⟩
    simp [pollFuture, hold]

end

variable {waker : Waker} {slept : Option Nat} {cancelled : Bool} {elapsed : Option Nat}
  {op : MutexOp}

section

variable (h : Inv s ws)

include h

theorem Inv.pollLocked (hcell : s.futures f = some cell) (hlive : cell.live = true)
    (hgoing : cell.future.completed = false)
    (hpoll : cell.future.pollLocked s.state s.poisoned waker slept = some result)
    (hfresh : s.poisoned = false → cell.future.waiterId = none →
      (s.state.locked = true ∨ s.state.grantedWaiter ≠ none) → s.FreshId) :
    ∃ ws', Inv (s.pollFuture f cell waker result) ws' := by
  rw [LockFuture.pollLocked] at hpoll
  split at hpoll
  · cases hpoll
    exact ⟨ws, h.pollFuture_settle hcell waker rfl rfl nofun rfl rfl (fun _ => rfl)
      ⟨fun _ => ⟨hlive, fun _ => rfl⟩, fun _ => rfl⟩⟩
  rename_i hpoisoned
  split at hpoll
  · -- its turn: the mutex is free, so nobody can have taken it in between
    rename_i hturn
    simp only [Bool.and_eq_true, beq_iff_eq, isSome_iff_ne_none] at hturn
    have hfree : s.state.locked = false := by
      by_contra hlocked
      rw [h.fits.held (by simpa using hlocked)] at hturn
      exact hturn.1 hturn.2.symm
    rw [hfree, Bool.not_false, if_pos rfl] at hpoll
    cases hpoll
    exact ⟨ws, h.pollFuture_take hcell waker hfree hturn.2⟩
  rename_i hturn
  have hturn' : ∀ id, cell.future.waiterId = some id → s.state.grantedWaiter ≠ some id := by
    intro id hid hgranted
    simp [hid, hgranted] at hturn
  split at hpoll
  · rename_i hfree
    simp only [Bool.and_eq_true, Bool.not_eq_true', isNone_iff_eq_none] at hfree
    cases hpoll
    exact ⟨ws, h.pollFuture_take hcell waker hfree.1.1 (hfree.1.2.trans hfree.2.symm)⟩
  rename_i hbusy
  have hbusy' : cell.future.waiterId = none →
      s.state.locked = true ∨ s.state.grantedWaiter ≠ none := by
    intro hnone
    by_contra hidle
    simp only [not_or, Bool.not_eq_true, not_not] at hidle
    simp [hnone, hidle.1, hidle.2] at hbusy
  simp only [bind_eq_bind, bind_eq_some_iff] at hpoll
  obtain ⟨⟨state, future⟩, hregister, hresult⟩ := hpoll
  have hcompleted : future.completed = false := by
    rw [← hgoing]
    exact LockFuture.completed_register hregister
  have hfresh' : cell.future.waiterId = none → s.FreshId :=
    fun hnone => hfresh (by simpa using hpoisoned) hnone (hbusy' hnone)
  cases slept with
  | none =>
    cases hresult
    refine h.pollFuture_register hcell hlive hgoing waker hregister hturn' hbusy' hfresh'
      rfl rfl nofun rfl rfl nofun fun hdone => ?_
    cases hcompleted.symm.trans hdone
  | some deadline =>
    cases hresult
    exact h.pollFuture_register hcell hlive hgoing waker hregister hturn' hbusy' hfresh'
      rfl rfl nofun rfl rfl (fun _ => rfl) fun _ => ⟨_, rfl⟩

theorem Inv.poll
    (hcell : s.futures f = some cell) (hlive : cell.live = true) (hclean : cell.cleaning = false)
    (hpoll : cell.future.poll s.state s.poisoned waker cancelled elapsed slept = some result)
    (hfresh : s.Queues (.poll f waker cancelled elapsed slept) → s.FreshId) :
    ∃ ws', Inv (s.pollFuture f cell waker result) ws' := by
  rw [poll.eq_def] at hpoll
  split at hpoll
  · rename_i hdone
    cases hpoll
    have hnone : cell.future.waiterId = none := by
      by_contra hne
      have hcleaning := (h.live f cell hcell hne).2 hdone
      cases hclean.symm.trans hcleaning
    exact ⟨ws, h.pollFuture_settle hcell waker rfl rfl nofun rfl rfl (fun _ => hdone)
      ⟨absurd hnone, nofun⟩⟩
  rename_i hgoing
  split at hpoll
  · cases hpoll
    exact h.pollFuture_giveUp hcell waker .cancelled
  rename_i hrunning
  rw [Bool.not_eq_true] at hgoing hrunning
  cases elapsed with
  | some deadline =>
    cases hpoll
    exact h.pollFuture_giveUp hcell waker (.timedOut deadline)
  | none =>
    refine h.pollLocked hcell hlive hgoing hpoll fun hpoisoned hnone hbusy => hfresh ?_
    refine ⟨hrunning, rfl, hpoisoned, ⟨cell, hcell, ?_⟩, hbusy⟩
    rw [← hnone, ← hgoing]

theorem Inv.leaveFuture {live : Bool} (hcell : s.futures f = some cell)
    (hend : cell.future.completed = true ∨ live = false) : ∃ ws', Inv (s.leave f cell live) ws' := by
  have hr : Replaces s (s.leave f cell live) f cell { cell with
      future := { cell.future with waiterId := none }, live := live, cleaning := false }
      (cell.future.cleanup s.state).2 := ⟨hcell, rfl⟩
  exact h.giveUp hr rfl rfl rfl rfl rfl rfl hend nofun

/-- Every section keeps mutex and futures together, if the identity it may hand out is
nobody's. -/
theorem Inv.exec (hfresh : s.Queues op → s.FreshId)
    (hexec : s.exec op = some s') : ∃ ws', Inv s' ws' := by
  cases op with
  | lock f =>
    rw [MutexSystem.exec] at hexec
    split at hexec
    · cases hexec
    · rename_i hnew
      cases hexec
      exact ⟨ws, h.lock hnew⟩
  | poll f waker cancelled elapsed slept =>
    obtain ⟨cell, hcell, hexec⟩ := bind_eq_some_iff.mp hexec
    obtain ⟨hready, hexec⟩ := ite_none_right_eq_some.mp hexec
    obtain ⟨result, hpoll, ⟨⟩⟩ := bind_eq_some_iff.mp hexec
    simp only [Bool.and_eq_true, Bool.not_eq_true'] at hready
    exact h.poll hcell hready.1 hready.2 hpoll hfresh
  | cleanup f =>
    obtain ⟨cell, hcell, hready, rfl⟩ := bind_ite_eq_some_iff.mp hexec
    simp only [Bool.and_eq_true] at hready
    exact h.leaveFuture hcell (.inl (h.closing f cell hcell hready.2))
  | dropFuture f =>
    obtain ⟨cell, hcell, -, rfl⟩ := bind_ite_eq_some_iff.mp hexec
    exact h.leaveFuture hcell (.inr rfl)
  | tryLock =>
    rw [MutexSystem.exec] at hexec
    split at hexec
    · rename_i htry
      cases hexec
      exact ⟨ws, h.tryLock htry⟩
    · cases hexec
      exact ⟨ws, h⟩
  | poison =>
    obtain ⟨-, hexec⟩ := ite_none_right_eq_some.mp hexec
    cases hexec
    exact ⟨ws, { h with }⟩
  | unlock =>
    obtain ⟨hguard, hexec⟩ := ite_none_right_eq_some.mp hexec
    cases hexec
    exact h.unlock hguard

/-- A section of a poll that grants the lock is one of the first in line, or of a newcomer
when nobody waits. -/
theorem Inv.grant_poll (hcell : s.futures f = some cell)
    (hpoll : cell.future.poll s.state s.poisoned waker cancelled elapsed slept = some result)
    (hgrant : result.answer = .granted) : s.line.head? = some f ∨ s.line = [] := by
  obtain ⟨hfree, hturn⟩ := poll_granted hpoll hgrant
  cases hid : cell.future.waiterId with
  | some id =>
    have hfirst : s.arrivals.filterMap s.ticket = id :: ws.map (·.id) := by
      rw [← h.line, inUse, hturn, hid]
      rfl
    exact .inl (WaitLine.head_of_line (h.joined f cell hcell (by simp [hid]))
      (h.line ▸ h.fits.nodup) ((ticket_of_cell hcell).trans hid) hfirst)
  | none =>
    refine .inr (WaitLine.filter_eq_nil_of_line ?_)
    rw [← h.line, inUse, hturn, hid, h.fits.idle hfree (hturn.trans hid)]
    rfl

/-- Whoever gets the lock is first in line, or comes when nobody waits. -/
theorem Inv.grant (hexec : s.exec op = some s') (hgrant : s'.guards = s.guards + 1) :
    (∃ f waker cancelled elapsed slept, op = .poll f waker cancelled elapsed slept ∧
      (s.line.head? = some f ∨ s.line = [])) ∨ op = .tryLock ∧ s.line = [] := by
  cases op with
  | lock f =>
    rw [MutexSystem.exec] at hexec
    split at hexec
    · cases hexec
    · cases hexec
      simp [update] at hgrant
  | poll f waker cancelled elapsed slept =>
    obtain ⟨cell, hcell, hexec⟩ := bind_eq_some_iff.mp hexec
    obtain ⟨-, hexec⟩ := ite_none_right_eq_some.mp hexec
    obtain ⟨result, hpoll, ⟨⟩⟩ := bind_eq_some_iff.mp hexec
    refine .inl ⟨f, waker, cancelled, elapsed, slept, rfl, h.grant_poll hcell hpoll ?_⟩
    by_contra hnot
    simp [pollFuture, hnot] at hgrant
  | cleanup f | dropFuture f =>
    obtain ⟨cell, -, -, rfl⟩ := bind_ite_eq_some_iff.mp hexec
    simp [MutexSystem.leave, update] at hgrant
  | tryLock =>
    rw [MutexSystem.exec] at hexec
    split at hexec
    · rename_i htry
      obtain ⟨-, hturn, rfl, -⟩ := h.fits.tryLock htry
      refine .inr ⟨rfl, WaitLine.filter_eq_nil_of_line ?_⟩
      rw [← h.line, inUse, hturn]
      rfl
    · cases hexec
      simp at hgrant
  | poison =>
    obtain ⟨-, hexec⟩ := ite_none_right_eq_some.mp hexec
    cases hexec
    simp at hgrant
  | unlock =>
    obtain ⟨-, hexec⟩ := ite_none_right_eq_some.mp hexec
    cases hexec
    simp only at hgrant
    omega

end

theorem Inv.new : Inv .new [] :=
  .of_cells ⟨.new, nofun, fun _ _ => rfl, nodup_nil⟩ rfl nodup_nil nofun rfl nofun

/-- What a mutex promises in a state. -/
structure Handover (s : MutexSystem) : Prop where
  exclusive : s.guards ≤ 1
  locked_iff : s.state.locked = true ↔ s.guards = 1
  held : s.state.locked = true → s.state.grantedWaiter = none
  /-- The lock goes to the first in line, or to a newcomer when nobody waits. -/
  order : ∀ op s', s.exec op = some s' → s'.guards = s.guards + 1 →
    (∃ f waker cancelled elapsed slept, op = .poll f waker cancelled elapsed slept ∧
      (s.line.head? = some f ∨ s.line = [])) ∨ op = .tryLock ∧ s.line = []
  /-- A free mutex has woken the future whose turn it is, or nobody waits in the queue. -/
  awake : s.state.locked = false →
    (∃ id f cell, s.state.grantedWaiter = some id ∧ s.futures f = some cell ∧
      cell.future.waiterId = some id ∧ cell.live = true ∧ cell.lastWaker ≠ none ∧
      cell.woken = true) ∨ s.state.waiters.isEmpty = true

/-- Whoever has the turn of a free mutex is a live future that has been woken. -/
theorem Inv.handover (h : Inv s ws) : Handover s where
  exclusive := by
    rw [h.turns]
    split <;> omega
  locked_iff := by
    rw [h.turns]
    cases s.state.locked <;> simp
  held := h.fits.held
  order op s' hexec hgrant := h.grant hexec hgrant
  awake := by
    intro hfree
    cases hturn : s.state.grantedWaiter with
    | none =>
      refine .inr (h.fits.queue.isEmpty_iff.mpr (h.fits.idle hfree hturn))
    | some id =>
      have hmem : id ∈ s.arrivals.filterMap s.ticket := h.line ▸ mem_inUse_of_turn hturn
      obtain ⟨f, -, hticket⟩ := mem_filterMap.mp hmem
      obtain ⟨cell, hcell, hid⟩ := bind_eq_some_iff.mp hticket
      obtain ⟨hlive, -⟩ := h.live f cell hcell (by simp [hid])
      obtain ⟨hwaker, hwoken⟩ := h.told f cell hcell id hturn hid
      exact .inl ⟨id, f, cell, rfl, hcell, hid, hlive, hwaker, hwoken⟩

end MutexSystem

/-- The runs in which every new waiter gets an identity that no waiting future has. -/
def freshMutexSystem : TransitionSystem MutexSystem MutexOp where
  init := mutexSystem.init
  step s op s' := mutexSystem.step s op s' ∧ (s.Queues op → s.FreshId)

namespace MutexSystem

variable {s : MutexSystem} {k : Nat}

/-- A free mutex whose turn is that of future 0, which has identity 0 and is not polled,
after `k` others have queued and left. -/
structure Overdue (k : Nat) (s : MutexSystem) : Prop where
  free : s.state.locked = false
  turn : s.state.grantedWaiter = some 0
  queue : s.state.waiters.Holds []
  nextId : s.state.waiters.nextId = (k + 1) % 2 ^ 64
  healthy : s.poisoned = false
  guards : s.guards = 0
  waits : s.ticket 0 = some 0
  unused : ∀ j, k < j → s.futures j = none
  first : ∃ rest, s.arrivals = 0 :: rest

theorem futures_update (s : MutexSystem) (f : Nat) (cell : LockCell) :
    (s.update f cell none).futures = Function.update s.futures f (some cell) := by
  have hwake : wake none = id := funext wake_none
  simp only [update, hwake, Option.map_id, id_eq]

/-- The next newcomer queues, with the identity the count has come to. -/
theorem Overdue.newcomer (h : Overdue k s) (waker : Waker) :
    ∃ s', mutexSystem.Run s [.lock (k + 1), .poll (k + 1) waker false none none] s' ∧
      s'.state.locked = false ∧ s'.state.grantedWaiter = some 0 ∧
      s'.state.waiters.Holds [{ id := (k + 1) % 2 ^ 64, waker := waker, tag := () }] ∧
      s'.state.waiters.nextId = (k + 2) % 2 ^ 64 ∧ s'.poisoned = false ∧ s'.guards = 0 ∧
      s'.ticket 0 = some 0 ∧ (∀ j, k + 1 < j → s'.futures j = none) ∧
      (∃ rest, s'.arrivals = 0 :: rest) ∧ s'.futures (k + 1) = some
        { future := { waiterId := some ((k + 1) % 2 ^ 64), completed := false }
          live := true, cleaning := false, lastWaker := some waker, woken := false } := by
  have hid : s.state.waiters.freshId = some ((k + 1) % 2 ^ 64) :=
    h.nextId ▸ h.queue.freshId_of_empty
  obtain ⟨waiters, hpush, hqueue⟩ := h.queue.pushBack waker () hid
  have hnext : waiters.nextId = ((k + 1) % 2 ^ 64 + 1) % 2 ^ 64 := by
    obtain ⟨fresh, -, ⟨⟩⟩ := bind_eq_some_iff.mp hpush
    rfl
  have hlock : s.exec (.lock (k + 1)) = some (s.update (k + 1) .new none) := by
    rw [exec, h.unused (k + 1) (Nat.lt_succ_self k)]
  let result : Polled :=
    { state := { s.state with waiters := waiters }
      future := { waiterId := some ((k + 1) % 2 ^ 64), completed := false }
      answer := .pending, registered := true, wake := none }
  have hpoll : LockCell.new.future.poll s.state s.poisoned waker false none none = some result := by
    simp [poll, pollLocked, register, LockCell.new, h.healthy, h.free, h.turn, hpush, result]
  have hsecond : (s.update (k + 1) .new none).exec (.poll (k + 1) waker false none none) =
      some ((s.update (k + 1) .new none).pollFuture (k + 1) .new waker result) := by
    rw [exec, futures_update, update_self]
    show ((LockCell.new.future.poll s.state s.poisoned waker false none none).bind fun result =>
      some ((s.update (k + 1) .new none).pollFuture (k + 1) .new waker result)) = _
    rw [hpoll]
    rfl
  have hfutures : ((s.update (k + 1) .new none).pollFuture (k + 1) .new waker result).futures =
      Function.update s.futures (k + 1) (some (LockCell.new.polled waker result)) := by
    refine (futures_update (s.update (k + 1) .new none) (k + 1) _).trans ?_
    rw [futures_update, update_idem]
  refine ⟨_, TransitionSystem.Run.nil.snoc hlock |>.snoc hsecond, h.free, h.turn, hqueue, ?_,
    h.healthy, h.guards, ?_, ?_, ?_, ?_⟩
  · refine hnext.trans ?_
    omega
  · rw [ticket, hfutures, update_of_ne (Nat.succ_ne_zero k).symm]
    exact h.waits
  · intro j hj
    rw [hfutures, update_of_ne (Nat.ne_of_gt hj)]
    exact h.unused j (Nat.lt_of_succ_lt hj)
  · obtain ⟨rest, hrest⟩ := h.first
    refine ⟨rest ++ [k + 1], ?_⟩
    show s.arrivals ++ [k + 1] = _
    rw [hrest]
    rfl
  · rw [hfutures, update_self]
    rfl

/-- The newcomer gives up; the mutex is as before, but for the count. -/
theorem Overdue.cycle (h : Overdue k s) (hk : k + 1 < 2 ^ 64) (waker : Waker) :
    ∃ s' ops, mutexSystem.Run s ops s' ∧ Overdue (k + 1) s' := by
  obtain ⟨s', hrun, hfree, hturn, hqueue, hnext, hhealthy, hguards, hwaits, hunused, hfirst, hcell⟩ :=
    h.newcomer waker
  rw [Nat.mod_eq_of_lt hk] at hqueue hcell
  replace hqueue : s'.state.waiters.Holds ([] ++ { id := k + 1, waker := waker, tag := () } :: []) :=
    hqueue
  obtain ⟨waiters, hremove, hempty⟩ := hqueue.remove
  have hcleanup : s'.state.cleanupWaiter (k + 1) = ({ s'.state with waiters := waiters }, none) := by
    simp [cleanupWaiter, hturn, hremove]
  let cell : LockCell :=
    { future := { waiterId := some (k + 1), completed := false }
      live := true, cleaning := false, lastWaker := some waker, woken := false }
  have hleave : s'.leave (k + 1) cell false = { s'.update (k + 1) { cell with
      future := { waiterId := none, completed := false }, live := false } none with
      state := { s'.state with waiters := waiters } } := by
    simp only [leave, cleanup, cell, hcleanup]
  have hdrop : s'.exec (.dropFuture (k + 1)) = some (s'.leave (k + 1) cell false) := by
    rw [exec, hcell]
    rfl
  rw [hleave] at hdrop
  refine ⟨_, _, hrun.snoc hdrop, hfree, hturn, hempty, (nextId_remove hremove).trans hnext,
    hhealthy, hguards, ?_, fun j hj => ?_, hfirst⟩
  · rw [ticket, futures_update, update_of_ne (Nat.succ_ne_zero k).symm]
    exact hwaits
  · rw [futures_update, update_of_ne (Nat.ne_of_gt hj)]
    exact hunused j hj

/-- The first future queues behind a guard and is not polled once it has the turn. -/
theorem overdue_zero : ∃ s, mutexSystem.Reachable s ∧ Overdue 0 s := by
  let ops : List MutexOp := [.tryLock, .lock 0, .poll 0 { task := 0 } false none none, .unlock]
  obtain ⟨s, hrun, hover⟩ : ∃ s, ops.foldlM exec .new = some s ∧ Overdue 0 s := by
    refine ⟨_, rfl, ⟨rfl, rfl, ?_, rfl, rfl, rfl, rfl, ?_, ⟨[], rfl⟩⟩⟩
    · obtain ⟨pushed, hpush, hone⟩ :=
        WaiterChain.Holds.new.pushBack { task := 0 } () (rfl : WaiterChain.new.freshId = some 0)
      cases hpush
      obtain ⟨popped, hpop, hempty⟩ := hone.popFront
      cases hpop
      exact hempty
    · intro j hj
      simp [pollFuture, update, new, update_of_ne (Nat.ne_of_gt hj)]
  exact ⟨s, ⟨.new, ops, rfl, .of_foldlM (fun _ _ _ h => h) ops hrun⟩, hover⟩

theorem overdue (hk : k < 2 ^ 64) : ∃ s, mutexSystem.Reachable s ∧ Overdue k s := by
  induction k with
  | zero => exact overdue_zero
  | succ k ih =>
    obtain ⟨s, ⟨start, ops, hstart, hrun⟩, h⟩ := ih (Nat.lt_of_succ_lt hk)
    obtain ⟨s', ops', hrun', h'⟩ := h.cycle hk { task := 1 }
    exact ⟨s', ⟨start, ops ++ ops', hstart, hrun.append hrun'⟩, h'⟩

end MutexSystem

end Asupersync
