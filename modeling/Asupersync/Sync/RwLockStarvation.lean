import Asupersync.Sync.RwLockProgress

/-!
# Readers that wait for a read-write lock

The lock counts the writers it hands itself to while readers wait, and forces a turn
of a reader after sixteen of them.  A writer that leaves looks at the count.  The last
reader that leaves hands the lock to a writer without looking at it: after a downgrade
that lets no reader in, the seventeenth writer comes in before the reader that waits.
In every run in which the last reader leaves only when no forced turn is due, at most
sixteen writers are handed the lock between two turns of waiting readers.
-/

namespace Asupersync

open Lib RwLockState Option

namespace RwLockState

variable {s : RwLockState} {id : Nat}

/-- The counter of a section that lets no reader in follows the writers it lets in, and a
writer comes in only below the limit. -/
def Counts (s s' : RwLockState) (handed : Bool × Nat) : Prop :=
  handed.2 = 0 → s'.consecutiveWritersServed = s.consecutiveWritersServed + handed.1.toNat ∧
    (handed.1 = true → s.consecutiveWritersServed < maxConsecutiveWritersBeforeReaderBatch)

theorem Counts.of_same {s' : RwLockState} {readers : Nat}
    (h : s'.consecutiveWritersServed = s.consecutiveWritersServed) : Counts s s' (false, readers) :=
  fun _ => ⟨h, nofun⟩

section Queued

variable (hqueued : s.readerWaiters.isEmpty = false)

include hqueued

theorem few_of_not_force (hforce : s.forceReaderBatch = false) :
    s.consecutiveWritersServed < maxConsecutiveWritersBeforeReaderBatch := by
  simpa [forceReaderBatch, hqueued] using hforce

theorem grantWriter_counts
    (hfew : s.consecutiveWritersServed < maxConsecutiveWritersBeforeReaderBatch) :
    Counts s s.grantWriter.1 (s.grantWriter.2.isSome, 0) := by
  unfold grantWriter
  split
  · exact .of_same rfl
  · refine fun _ => ⟨?_, fun _ => hfew⟩
    have hbound : s.consecutiveWritersServed + 1 ≤ usizeMax := hfew.trans (by decide)
    simp [hqueued, Nat.min_eq_left hbound]

theorem releaseReader_counts (hfair : s.readers ≤ 1 → s.forceReaderBatch = false) :
    Counts s s.releaseReader.1 (s.releaseReader.2.isSome, 0) := by
  unfold releaseReader
  dsimp only
  split
  · rename_i hlast
    have hfew := few_of_not_force hqueued (hfair (Nat.sub_eq_zero_iff_le.mp hlast.1))
    exact grantWriter_counts (s := { s with readers := s.readers - 1 }) hqueued hfew
  · exact .of_same rfl

theorem abandonReadWaiter_counts
    (hfair : s.readerWaiters.remove id = none → s.readers ≤ 1 → s.forceReaderBatch = false) :
    Counts s (s.abandonReadWaiter id).1 ((s.abandonReadWaiter id).2.isSome, 0) := by
  unfold abandonReadWaiter
  split
  · exact .of_same rfl
  · rename_i hnone
    exact releaseReader_counts hqueued (hfair hnone)

theorem nextTurn_counts (hfront : s.readerWaiters.popFront ≠ none) :
    Counts s s.nextTurn.1 (s.nextTurn.2.1.isSome, s.nextTurn.2.2.length) := by
  unfold nextTurn
  split
  · rename_i hwriter
    have hforce : s.forceReaderBatch = false := by simpa using (Bool.and_eq_true_iff.mp hwriter).1
    exact grantWriter_counts hqueued (few_of_not_force hqueued hforce)
  split
  · -- a forced turn lets a reader in
    unfold takeForcedReaderTurn
    split
    · exact nofun
    · rename_i hnone
      exact absurd hnone hfront
  · intro hnobody
    have hempty := List.length_eq_zero_iff.mp hnobody
    refine ⟨?_, nofun⟩
    simp only at hempty
    simp [hempty]

theorem abandonWriteWaiter_counts (hfront : s.readerWaiters.popFront ≠ none)
    (waiterId : Option Nat) :
    Counts s (s.abandonWriteWaiter waiterId false).1
      ((s.abandonWriteWaiter waiterId false).2.1.isSome,
        (s.abandonWriteWaiter waiterId false).2.2.length) := by
  have hsettle : ∀ state : RwLockState,
      (state.admitAll false).1.consecutiveWritersServed = state.consecutiveWritersServed := by
    intro state
    unfold admitAll
    split <;> rfl
  unfold abandonWriteWaiter
  split
  · split
    · exact .of_same (hsettle _)
    · exact nextTurn_counts (s := { s with
        writerWaiters := s.writerWaiters - 1, writerActive := false }) hqueued hfront
  · exact .of_same (hsettle _)

end Queued

theorem downgrade_counts (s : RwLockState) : Counts s s.downgrade.1 (false, s.downgrade.2.length) := by
  intro hnobody
  have hempty := List.length_eq_zero_iff.mp hnobody
  refine ⟨?_, nofun⟩
  simp only [downgrade] at hempty ⊢
  simp [hempty]

end RwLockState

/-- Whether giving up a place hands the lock to a queued writer, and to how many queued
readers. -/
def RwFuture.handed (future : RwFuture) (s : RwLockState) (poisoned : Bool) : Bool × Nat :=
  match future.kind, future.waiterId with
  | .read, none => (false, 0)
  | .read, some id => ((s.abandonReadWaiter id).2.isSome, 0)
  | .write, waiterId =>
    if future.counted then
      let (_, writer, readers) := s.abandonWriteWaiter waiterId poisoned
      (writer.isSome, readers.length)
    else (false, 0)

/-- Whether giving up a place is the last reader leaving. -/
def RwFuture.lastReaderLeaves (future : RwFuture) (s : RwLockState) : Bool :=
  future.kind = .read && future.waiterId.any (fun id => (s.readerWaiters.remove id).isNone) &&
    decide (s.readers ≤ 1)

namespace RwFuture

variable {future : RwFuture} {s : RwLockState}

theorem abandon_counts (hqueued : s.readerWaiters.isEmpty = false)
    (hfront : s.readerWaiters.popFront ≠ none)
    (hfair : (!(future.lastReaderLeaves s && s.forceReaderBatch)) = true) :
    Counts s (future.abandon s false).1 (future.handed s false) := by
  obtain ⟨kind, waiterId, counted, completed⟩ := future
  cases kind with
  | read =>
    cases waiterId with
    | none => exact .of_same rfl
    | some id =>
      refine abandonReadWaiter_counts hqueued fun hnone hlast => ?_
      simpa [lastReaderLeaves, hnone, hlast] using hfair
  | write =>
    cases counted with
    | true => exact abandonWriteWaiter_counts hqueued hfront waiterId
    | false => exact .of_same rfl

/-- A poll that gives nothing up leaves the counter alone. -/
theorem streak_poll {owner : Nat} {poisoned outdated : Bool} {waker : Waker} {result : Polled}
    (hpoll : future.poll s owner poisoned outdated waker false = some result) :
    result.state.consecutiveWritersServed = s.consecutiveWritersServed := by
  unfold poll at hpoll
  split at hpoll
  · cases hpoll
    rfl
  rw [if_neg Bool.false_ne_true] at hpoll
  split at hpoll
  · cases hpoll
    rfl
  split at hpoll
  · unfold pollRead at hpoll
    split at hpoll
    · split at hpoll <;> cases hpoll <;> rfl
    · split at hpoll
      · cases hpoll
        rfl
      · obtain ⟨⟨readers, id⟩, -, ⟨⟩⟩ := bind_eq_some_iff.mp hpoll
        rfl
  · unfold pollWrite at hpoll
    split at hpoll
    · split at hpoll
      · cases hpoll
        rfl
      · cases hpoll
        split <;> rfl
    · split at hpoll
      · cases hpoll
        rfl
      · obtain ⟨⟨writers, id⟩, -, ⟨⟩⟩ := bind_eq_some_iff.mp hpoll
        rfl

end RwFuture

namespace RwLockSystem

/-- The future that gives up its place in a step. -/
def abandoning (s : RwLockSystem) : RwLockOp → Option RwFuture
  | .poll f _ true _ => (s.futures[f]?.map (·.future)).filter (!·.completed)
  | .cleanup f _ | .dropFuture f _ => s.futures[f]?.map (·.future)
  | _ => none

/-- Whether a step hands the lock to a queued writer, and to how many queued readers. -/
def handed (s : RwLockSystem) (op : RwLockOp) : Bool × Nat :=
  match op with
  | .dropRead => (s.state.releaseReader.2.isSome, 0)
  | .dropWrite =>
    let (_, writer, readers) := s.state.releaseWriter s.poisoned
    (writer.isSome, readers.length)
  | .downgrade => (false, s.state.downgrade.2.length)
  | op => (s.abandoning op).elim (false, 0) (·.handed s.state false)

def lastReaderLeaves (s : RwLockSystem) (op : RwLockOp) : Bool :=
  match op with
  | .dropRead => decide (s.state.readers ≤ 1)
  | op => (s.abandoning op).any (·.lastReaderLeaves s.state)

/-- The writers that are handed the lock in a run from `s` in which it is not poisoned, a
reader stays queued and no queued reader is let in; `none` for other runs.  `allowed` may
rule out further steps. -/
def writersHanded (allowed : RwLockSystem → RwLockOp → Bool) (s : RwLockSystem) :
    List RwLockOp → Option Nat
  | [] => some 0
  | op :: ops => do
    let s' ← s.exec op
    if s.poisoned || s.state.readerWaiters.isEmpty || (s.handed op).2 != 0 || !allowed s op then none
    else
      let n ← s'.writersHanded allowed ops
      some (n + (s.handed op).1.toNat)

section Steps

variable {s s' : RwLockSystem} {op : RwLockOp}

/-- Steps in which the last reader leaves only when no forced turn is due. -/
def lookedAfter (s : RwLockSystem) (op : RwLockOp) : Bool :=
  !(s.lastReaderLeaves op && s.state.forceReaderBatch)

theorem handed_counts (hexec : s.exec op = some s') (hhealthy : s.poisoned = false)
    (hqueued : s.state.readerWaiters.isEmpty = false)
    (hfront : s.state.readerWaiters.popFront ≠ none) (hfair : s.lookedAfter op = true) :
    Counts s.state s'.state (s.handed op) := by
  cases op with
  | create kind =>
    cases hexec
    exact .of_same rfl
  | poison =>
    obtain ⟨-, hexec⟩ := ite_none_right_eq_some.mp hexec
    cases hexec
    exact .of_same rfl
  | poll f waker cancelled outdated =>
    obtain ⟨cell, hcell, hexec⟩ := bind_eq_some_iff.mp hexec
    obtain ⟨hmay, hexec⟩ := ite_none_right_eq_some.mp hexec
    obtain ⟨result, hpoll, ⟨⟩⟩ := bind_eq_some_iff.mp hexec
    rw [(pollFuture_frame ..).1]
    cases cancelled with
    | false => exact .of_same (RwFuture.streak_poll hpoll)
    | true =>
      have hcurrent : outdated = false := by simpa [hhealthy] using (Bool.and_eq_true_iff.mp hmay).2
      subst hcurrent
      cases hdone : cell.future.completed with
      | true =>
        rw [RwFuture.poll, hdone, if_pos rfl] at hpoll
        cases hpoll
        simp only [handed, abandoning, hcell, map_some, Option.filter, hdone]
        exact .of_same rfl
      | false =>
        rw [RwFuture.poll, hdone, if_neg Bool.false_ne_true, if_pos rfl] at hpoll
        cases hpoll
        simp only [handed, abandoning, hcell, map_some, Option.filter, hdone]
        refine RwFuture.abandon_counts hqueued hfront ?_
        simpa [lookedAfter, lastReaderLeaves, abandoning, hcell, hdone] using hfair
  | cleanup f outdated | dropFuture f outdated =>
    obtain ⟨cell, hcell, hmay, rfl⟩ := bind_ite_eq_some_iff.mp hexec
    have hcurrent : outdated = false := by simpa [hhealthy] using (Bool.and_eq_true_iff.mp hmay).2
    subst hcurrent
    simp only [handed, abandoning, hcell, map_some]
    refine RwFuture.abandon_counts hqueued hfront ?_
    simpa [lookedAfter, lastReaderLeaves, abandoning, hcell] using hfair
  | tryRead | tryWrite =>
    first
      | rw [exec, tryAcquireRead, if_neg (ne_true_of_eq_false hhealthy)] at hexec
      | rw [exec, tryAcquireWrite, if_neg (ne_true_of_eq_false hhealthy)] at hexec
    split at hexec
    · rename_i htry
      split at htry <;> cases htry
      cases hexec
      exact .of_same rfl
    · cases hexec
      exact .of_same rfl
  | dropRead =>
    obtain ⟨-, hexec⟩ := ite_none_right_eq_some.mp hexec
    cases hexec
    refine releaseReader_counts hqueued fun hlast => ?_
    simpa [lookedAfter, lastReaderLeaves, hlast] using hfair
  | dropWrite =>
    obtain ⟨-, hexec⟩ := ite_none_right_eq_some.mp hexec
    cases hexec
    simp only [handed, releaseWriter, hhealthy]
    exact nextTurn_counts (s := { s.state with writerActive := false }) hqueued hfront
  | downgrade =>
    obtain ⟨-, hexec⟩ := ite_none_right_eq_some.mp hexec
    cases hexec
    exact downgrade_counts s.state

end Steps

theorem writersHanded_le {ops : List RwLockOp} {s : RwLockSystem} {n : Nat}
    (hs : rwLockSystem.Reachable s) (hrun : s.writersHanded lookedAfter ops = some n) :
    n = 0 ∨ s.state.consecutiveWritersServed + n ≤ maxConsecutiveWritersBeforeReaderBatch := by
  induction ops generalizing s n with
  | nil =>
    cases hrun
    exact .inl rfl
  | cons op ops ih =>
    obtain ⟨s', hexec, hrun⟩ := bind_eq_some_iff.mp hrun
    obtain ⟨hsteps, hrun⟩ := ite_none_left_eq_some.mp hrun
    obtain ⟨m, hrest, ⟨⟩⟩ := bind_eq_some_iff.mp hrun
    simp only [Bool.or_eq_true, not_or, Bool.not_eq_true, Bool.not_eq_false', bne_eq_false_iff_eq]
      at hsteps
    obtain ⟨⟨⟨hhealthy, hqueued⟩, hnobody⟩, hfair⟩ := hsteps
    have hfront : s.state.readerWaiters.popFront ≠ none := by
      obtain ⟨rs, ws, h⟩ := Inv.of_reachable hs
      have hholds := h.ledger.fits.readers
      cases rs with
      | nil => cases hqueued.symm.trans (hholds.isEmpty_iff.mpr rfl)
      | cons w rs =>
        obtain ⟨c, hpop, -⟩ := hholds.popFront
        rw [hpop]
        exact nofun
    obtain ⟨hstreak, hbelow⟩ := handed_counts hexec hhealthy hqueued hfront hfair hnobody
    have hs' : rwLockSystem.Reachable s' := by
      obtain ⟨s₀, past, hinit, hpast⟩ := hs
      exact ⟨s₀, past ++ [op], hinit, hpast.snoc hexec⟩
    have hrest := ih hs' hrest
    cases hwriter : (s.handed op).1 with
    | false =>
      rw [hwriter] at hstreak
      rwa [hstreak] at hrest
    | true =>
      have hbelow := hbelow hwriter
      rw [hwriter, Bool.toNat_true] at hstreak
      rw [Bool.toNat_true]
      omega

end RwLockSystem

/-- At most sixteen writers are handed a lock that is not poisoned while a reader stays queued
and none is let in, when the last reader leaves only with no forced turn due. -/
theorem rwlock_bounds_starvation {ops : List RwLockOp} {s : RwLockSystem} {n : Nat}
    (hs : rwLockSystem.Reachable s) (hrun : s.writersHanded RwLockSystem.lookedAfter ops = some n) :
    n ≤ maxConsecutiveWritersBeforeReaderBatch := by
  have hbound := RwLockSystem.writersHanded_le hs hrun
  omega

/-- A writer with `n` more behind it, and then a reader. -/
def writersThenReader (n : Nat) : List RwLockOp :=
  [.tryWrite] ++
    (List.range n).flatMap (fun i => [.create .write, .poll i { task := i } false false]) ++
    [.create .read, .poll n { task := n } false false]

/-- The writers leave one after the other, each through a downgrade. -/
def downgrades (n : Nat) : List RwLockOp :=
  (List.range n).flatMap fun i => [.downgrade, .dropRead, .poll i { task := i } false false]

/-- Two writers come in before the reader that waits. -/
theorem rwlock_bounds_starvation_two : ∃ s : RwLockSystem, rwLockSystem.Reachable s ∧
    s.writersHanded RwLockSystem.lookedAfter (downgrades 2) = some 2 ∧
    2 ≤ maxConsecutiveWritersBeforeReaderBatch := by
  obtain ⟨s, hrun, hhanded⟩ : ∃ s, (writersThenReader 2).foldlM RwLockSystem.exec .new = some s ∧
      s.writersHanded RwLockSystem.lookedAfter (downgrades 2) = some 2 := ⟨_, rfl, rfl⟩
  have hs : rwLockSystem.Reachable s :=
    ⟨.new, _, rfl, .of_foldlM (fun _ _ _ h => h) _ hrun⟩
  exact ⟨s, hs, hhanded, rwlock_bounds_starvation hs hhanded⟩

set_option maxRecDepth 4000 in
/-- Seventeen writers that downgrade come in before the reader that waits. -/
theorem rwlock_starves_reader : ∃ (s : RwLockSystem) (ops : List RwLockOp),
    rwLockSystem.Reachable s ∧ s.writersHanded (fun _ _ => true) ops =
      some (maxConsecutiveWritersBeforeReaderBatch + 1) := by
  obtain ⟨s, hrun, hhanded⟩ : ∃ s, (writersThenReader 17).foldlM RwLockSystem.exec .new = some s ∧
      s.writersHanded (fun _ _ => true) (downgrades 17) = some 17 := ⟨_, rfl, rfl⟩
  exact ⟨s, downgrades 17, ⟨.new, _, rfl, .of_foldlM (fun _ _ _ h => h) _ hrun⟩, hhanded⟩

end Asupersync
