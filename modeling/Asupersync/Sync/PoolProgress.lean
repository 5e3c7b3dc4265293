import Asupersync.Sync.Pool

/-!
# Progress of a call whose turn has come

A wait for a pooled resource is ready when the place of the waiter is below the number of
resources that are available.  The future of the wait is dropped before the call goes on,
and takes the waiter out of the queue: the call then counts as standing behind everybody
else.

`acquire_proceeds_iff`: it gets a resource or a slot exactly if the other waiters are fewer
than what is available.  Otherwise it waits again, and is put in front of the others.
-/

namespace Asupersync

variable {R : Type}

/-- The other waiters, up to one that has the same identity. -/
def GenericPoolState.rivals (s : GenericPoolState R) (id : Nat) : Nat :=
  (s.waiters.eraseP (·.id == id)).findIdx (·.id == id)

/-- The iteration has got a resource, or a slot to create one. -/
def AcquireStep.obtains : AcquireStep R → Bool
  | .resource _ _ | .createSlot => true
  | .failed _ | .wait _ => false

namespace GenericPool

variable {p q : GenericPool R} {id : Nat} {waiterId : Option Nat}

theorem processReturn_frame (p : GenericPool R) (now : Nat) (ret : PoolReturn R) :
    ∃ state woken, p.processReturn now ret = { p with state := state, woken := woken } ∧
      state.closed = p.state.closed := by
  cases ret with
  | returned resource createdAt =>
    rw [processReturn]
    split <;> exact ⟨_, _, rfl, rfl⟩
  | discard => exact ⟨_, _, rfl, rfl⟩

/-- The channel is emptied, and nothing but the state changes. -/
theorem processReturns_frame (p : GenericPool R) (now : Nat) :
    ∃ state woken,
      p.processReturns now = { p with returns := [], state := state, woken := woken } ∧
        state.closed = p.state.closed := by
  have hfold : ∀ (rets : List (PoolReturn R)) (q : GenericPool R), ∃ state woken,
      rets.foldl (fun p => p.processReturn now) q =
        { q with state := state, woken := woken } ∧ state.closed = q.state.closed := by
    intro rets
    induction rets with
    | nil => exact fun q => ⟨q.state, q.woken, rfl, rfl⟩
    | cons ret rest ih =>
      intro q
      obtain ⟨state, woken, hone, hclosed⟩ := q.processReturn_frame now ret
      obtain ⟨state', woken', hrest, hclosed'⟩ := ih (q.processReturn now ret)
      rw [hone] at hrest hclosed'
      refine ⟨state', woken', ?_, hclosed'.trans hclosed⟩
      rw [List.foldl_cons, hone, hrest]
  exact hfold p.returns { p with returns := [] }

theorem processReturns_of_empty (h : p.returns = []) (now : Nat) : p.processReturns now = p := by
  cases p
  cases h
  rfl

/-- A wait that is ready on an open pool has emptied the channel and left the pool open. -/
theorem pollWait_ready {now : Nat} {waker : Waker} (hopen : p.closed = false ∧ p.state.closed = false)
    (hpoll : p.pollWait waiterId false now waker = (true, some id, q)) :
    q.returns = [] ∧ q.closed = false ∧ q.state.closed = false := by
  obtain ⟨state, woken, hreturns, hclosed⟩ := p.processReturns_frame now
  rw [hopen.2] at hclosed
  have hkept : (state.enqueue waiterId waker).2.2.closed = false := by
    unfold GenericPoolState.enqueue
    split
    · split <;> exact hclosed
    · exact hclosed
  simp only [pollWait, Bool.false_eq_true, if_false, hreturns, hclosed] at hpoll
  split at hpoll
  · cases hpoll
    exact ⟨rfl, hopen.1, hkept⟩
  · cases hpoll

/-- Of healthy resources the first is taken. -/
theorem takeIdle_of_healthy (hhealthy : ∀ idle ∈ p.state.idle, p.isHealthy idle.resource = true)
    (now fuel : Nat) : takeIdle waiterId now (fuel + 1) p = p.tryGetIdle waiterId now := by
  rw [takeIdle, tryGetIdle]
  split_ifs
  · cases hidle : (p.state.evict p.config now).idle with
    | nil => rfl
    | cons idle rest =>
      have hmem : idle ∈ (p.state.evict p.config now).idle := hidle ▸ List.mem_cons_self
      have hgood := hhealthy idle (List.mem_filter.mp hmem).1
      refine if_neg fun hbad => ?_
      rw [Bool.and_eq_true, Bool.not_eq_true'] at hbad
      exact absurd hgood (ne_true_of_eq_false hbad.2)
  · rfl

theorem filter_eraseP (waiters : List PoolWaiter) :
    (waiters.eraseP (·.id == id)).filter (·.id != id) = waiters.filter (·.id != id) := by
  induction waiters with
  | nil => rfl
  | cons waiter rest ih =>
    by_cases hid : waiter.id = id
    · simp [hid]
    · simpa [List.eraseP_cons, hid] using ih

theorem eraseIdx_findIdx (waiters : List PoolWaiter) :
    waiters.eraseIdx (waiters.findIdx (·.id == id)) = waiters.eraseP (·.id == id) := by
  induction waiters with
  | nil => rfl
  | cons waiter rest ih =>
    rw [List.findIdx_cons, List.eraseP_cons]
    cases waiter.id == id with
    | true => rfl
    | false => exact congrArg (waiter :: ·) ih

/-- Without an idle resource, what is available is a slot. -/
theorem reserveCreateSlot_of_turn (hopen : p.state.closed = false) (hidle : p.state.idle = [])
    (hturn : p.state.place (some id) < p.state.available p.config) :
    ∃ q, p.reserveCreateSlot (some id) = (true, q) ∧
      q.state.waiters.filter (·.id != id) = p.state.waiters.filter (·.id != id) := by
  have hroom : ¬ p.config.maxSize ≤ p.state.total := by
    intro hfull
    rw [GenericPoolState.available, hidle, Nat.sub_eq_zero_of_le hfull] at hturn
    exact Nat.not_lt_zero _ hturn
  rw [reserveCreateSlot, if_neg (by simpa [hopen] using hroom), if_neg (Nat.not_le.mpr hturn)]
  refine ⟨_, rfl, ?_⟩
  split
  · exact (congrArg _ (eraseIdx_findIdx _)).trans (filter_eraseP _)
  · rfl

/-- A call that is in the queue no more goes on exactly if fewer than are available wait
ahead of the place it is given; the others then stay in their order. -/
theorem acquireStep_obtains_iff (id now : Nat) {cx : AcquireCx} (hreturns : p.returns = [])
    (hopen : p.closed = false ∧ p.state.closed = false) (hcx : cx.cancelled = false)
    (hhealthy : ∀ idle ∈ p.state.idle, p.isHealthy idle.resource = true) :
    ((p.acquireStep (some id) now cx).1.obtains = true ↔
      p.state.place (some id) < (p.state.evict p.config now).available p.config) ∧
    ((p.acquireStep (some id) now cx).1.obtains = true →
      (p.acquireStep (some id) now cx).2.2.state.waiters =
        p.state.waiters.filter (·.id != id)) := by
  rw [acquireStep, processReturns_of_empty hreturns, if_neg (ne_true_of_eq_false hcx),
    if_neg (ne_true_of_eq_false hopen.1), takeIdle_of_healthy hhealthy, tryGetIdle]
  split_ifs with hturn
  · cases hidle : (p.state.evict p.config now).idle with
    | nil =>
      obtain ⟨q, hslot, hqueue⟩ := reserveCreateSlot_of_turn
        (p := { p with state := p.state.evict p.config now }) hopen.2 hidle hturn
      dsimp only
      rw [hslot]
      exact ⟨iff_of_true rfl hturn, fun _ => hqueue⟩
    | cons idle rest => exact ⟨iff_of_true rfl hturn, fun _ => rfl⟩
  · dsimp only
    rw [reserveCreateSlot, if_pos (Nat.not_lt.mp hturn), ite_self]
    dsimp only
    split <;> exact ⟨iff_of_false nofun hturn, nofun⟩

end GenericPool

open GenericPool

/-- A waiter whose turn has come gets a resource or a slot exactly if the others that wait are
fewer than the resources that are available, and the others then stay in their order. -/
theorem acquire_proceeds_iff {R : Type} (p ready : GenericPool R) (waiterId : Option Nat) (id : Nat)
    (waker : Waker) (instant later : Nat) (cx : AcquireCx)
    (hopen : p.closed = false ∧ p.state.closed = false) (hcx : cx.cancelled = false)
    (hhealthy : ∀ idle ∈ ready.state.idle, ready.isHealthy idle.resource = true)
    (hpoll : p.pollWait waiterId false instant waker = (true, some id, ready)) :
    (((ready.dropWait (some id)).acquireStep (some id) later cx).1.obtains = true ↔
      ready.state.rivals id < (ready.state.evict ready.config later).available ready.config) ∧
    (((ready.dropWait (some id)).acquireStep (some id) later cx).1.obtains = true →
      ((ready.dropWait (some id)).acquireStep (some id) later cx).2.2.state.waiters =
        ready.state.waiters.filter (·.id != id)) := by
  obtain ⟨hreturns, hready⟩ := pollWait_ready hopen hpoll
  obtain ⟨hobtains, hqueue⟩ := acquireStep_obtains_iff (p := ready.dropWait (some id)) id later
    hreturns hready hcx hhealthy
  exact ⟨hobtains, fun hgot => (hqueue hgot).trans (filter_eraseP _)⟩

/-- Resources that are all in use, with tasks `0`, `1`, .. waiting in this order, when they are
given back. -/
def returnedPool (resources waiting : Nat) : GenericPool Nat :=
  let p : GenericPool Nat :=
    { config := { maxSize := resources, acquireTimeout := 100, idleTimeout := 100,
                  maxLifetime := 100, healthCheckOnAcquire := false }
      state := { idle := [], active := resources, creating := 0,
                 totalAcquisitions := resources, closed := false, waiters := [],
                 nextWaiterId := 0 }
      returns := [], healthCheckFn := none, returnWakers := [], closed := false, woken := [] }
  let waits := (List.range waiting).foldl (fun p task => (p.pollWait none false 0 ⟨task⟩).2.2) p
  { waits with returns := (List.range resources).map (.returned · 0) }

theorem acquire_proceeds_single :
    (((returnedPool 1 1).pollWait (some 0) false 0 ⟨0⟩).2.2.dropWait (some 0) |>.acquireStep
      (some 0) 0 ⟨false, 0, 0, none⟩).1.obtains = true :=
  (acquire_proceeds_iff (returnedPool 1 1) _ (some 0) 0 ⟨0⟩ 0 0 ⟨false, 0, 0, none⟩ ⟨rfl, rfl⟩ rfl
    (fun _ _ => rfl) rfl).1.mpr (by decide)

/-- Two resources are given back while three tasks wait.  The second is told that its turn has
come, gets nothing, and waits again, now in front of the first. -/
theorem acquire_waits_again :
    ∃ ready : GenericPool Nat,
      (returnedPool 2 3).pollWait (some 1) false 0 ⟨1⟩ = (true, some 1, ready) ∧
      ready.state.waiters.map (·.id) = [0, 1, 2] ∧ ready.state.idle.length = 2 ∧
      ∃ next, (ready.dropWait (some 1)).acquireStep (some 1) 0 ⟨false, 0, 0, none⟩ =
          (.wait 100, some 1, next) ∧
        (next.pollWait (some 1) false 0 ⟨1⟩).1 = true ∧
        (next.pollWait (some 1) false 0 ⟨1⟩).2.2.state.waiters.map (·.id) = [1, 0, 2] :=
  ⟨_, rfl, rfl, rfl, _, rfl, rfl, rfl⟩

end Asupersync
