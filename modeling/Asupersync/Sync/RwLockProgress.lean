import Asupersync.Sync.RwLockAccounting

/-!
# Waiters of the read-write lock that are left behind

A read-write lock that nobody is in should have empty queues, and readers should wait only
for a writer.  After sixteen writers in a row the lock forces a turn of one reader, also
when no writer waits any more; a second reader in the queue then waits for nobody, and is
never woken.  In every run in which no writer leaves the lock in that situation, nobody is
left behind.
-/

namespace Asupersync

open Lib

namespace RwLockSystem

/-- Nobody waits for nobody. -/
structure LeavesNobody (s : RwLockSystem) : Prop where
  idle : s.readGuards + (s.granted .read).card = 0 → s.writeGuards + (s.granted .write).card = 0 →
    s.state.readerWaiters.isEmpty = true ∧ s.state.writerQueue.isEmpty = true
  readers : s.state.writerActive = false → s.granted .write = ∅ →
    s.state.writerQueue.isEmpty = true → s.state.readerWaiters.isEmpty = true

theorem Inv.leavesNobody {s : RwLockSystem} {rs ws : List (WaiterSlot RwTag)} (h : Inv s rs ws)
    (hserved : s.state.Served rs ws) : LeavesNobody s := by
  have haccounts := h.accounts
  refine ⟨fun hreaders hwriters => ?_, fun hidle _ hws => ?_⟩
  · have hidle : s.state.writerActive = false := by
      rw [← Bool.not_eq_true, haccounts.active, hwriters]
      exact Nat.zero_ne_one
    obtain ⟨hrs, hws⟩ := hserved.idle (haccounts.readers.trans hreaders) hidle
    exact ⟨h.ledger.fits.readers.isEmpty_iff.mpr hrs, h.ledger.fits.writers.isEmpty_iff.mpr hws⟩
  · exact h.ledger.fits.readers.isEmpty_iff.mpr
      (hserved.readers hidle (h.ledger.fits.writers.isEmpty_iff.mp hws))

end RwLockSystem

/-- The runs in which no writer leaves a lock whose next turn is a forced one, with two
readers and no writer in the queues. -/
def calmRwLockSystem : TransitionSystem RwLockSystem RwLockOp where
  init := rwLockSystem.init
  step s op s' := rwLockSystem.step s op s' ∧ ¬ (s.WriterLeaves op ∧ s.Stranding)

/-- A lock that is not poisoned leaves nobody behind in such a run. -/
theorem rwlock_leaves_nobody {s : RwLockSystem} (hs : calmRwLockSystem.Reachable s)
    (hhealthy : s.poisoned = false) : s.LeavesNobody := by
  obtain ⟨rs, ws, h, hserved⟩ : ∃ rs ws, s.Inv rs ws ∧ (s.poisoned = false → s.state.Served rs ws) := by
    refine hs.invariant (I := fun s => ∃ rs ws, RwLockSystem.Inv s rs ws ∧
      (s.poisoned = false → s.state.Served rs ws)) ?_ ?_
    · rintro s rfl
      exact ⟨[], [], .new, fun _ => ⟨fun _ _ => ⟨rfl, rfl⟩, fun _ _ => rfl⟩⟩
    · rintro s op s' ⟨rs, ws, h, hserved⟩ ⟨hexec, hcalm⟩
      obtain ⟨rs', ws', hkept⟩ := h.exec hexec
      refine ⟨rs', ws', hkept.inv, fun hhealthy => hkept.served hhealthy (hserved ?_) hcalm⟩
      exact RwLockSystem.healthy_of_exec hexec hhealthy
  exact h.leavesNobody (hserved hhealthy)

/-- Two readers queue behind a writer, and all of them come in. -/
theorem rwlock_leaves_nobody_two_readers : ∃ s : RwLockSystem, calmRwLockSystem.Reachable s ∧
    s.poisoned = false ∧ s.state.readers = 2 ∧ s.LeavesNobody := by
  obtain ⟨s, hrun, hhealthy, hreaders⟩ : ∃ s,
      [.tryWrite, .create .read, .poll 0 { task := 0 } false false, .create .read,
        .poll 1 { task := 1 } false false, .dropWrite].foldlM (fun s op =>
        if s.state.forceReaderBatch then none else s.exec op) RwLockSystem.new = some s ∧
      s.poisoned = false ∧ s.state.readers = 2 := ⟨_, rfl, rfl, rfl⟩
  have hs : calmRwLockSystem.Reachable s := by
    refine ⟨.new, _, rfl, .of_foldlM (fun s op s' h => ?_) _ hrun⟩
    obtain ⟨hcalm, hexec⟩ := Option.ite_none_left_eq_some.mp h
    exact ⟨hexec, fun h => hcalm h.2.1⟩
  exact ⟨s, hs, hhealthy, hreaders, rwlock_leaves_nobody hs hhealthy⟩

/-- A writer, sixteen more behind it, and then two readers; the writers leave one after the
other. -/
def strandingRun : List RwLockOp :=
  [.tryWrite] ++
    (List.range 16).flatMap (fun i => [.create .write, .poll i { task := i } false false]) ++
    [.create .read, .poll 16 { task := 16 } false false,
      .create .read, .poll 17 { task := 17 } false false, .dropWrite] ++
    (List.range 16).map fun i => .dropFuture i false

set_option maxRecDepth 4000 in
/-- The seventeenth writer leaves one reader in and the other one behind. -/
theorem rwlock_strands_reader : ∃ s : RwLockSystem, rwLockSystem.Reachable s ∧ s.poisoned = false ∧
    ¬ s.LeavesNobody := by
  obtain ⟨s, hrun, hhealthy, hidle, hws, hrs⟩ : ∃ s,
      strandingRun.foldlM RwLockSystem.exec .new = some s ∧ s.poisoned = false ∧
      s.state.writerActive = false ∧ s.state.writerQueue.isEmpty = true ∧
      s.state.readerWaiters.isEmpty = false := ⟨_, rfl, rfl, rfl, rfl, rfl⟩
  have hs : rwLockSystem.Reachable s :=
    ⟨.new, strandingRun, rfl, .of_foldlM (fun _ _ _ h => h) strandingRun hrun⟩
  refine ⟨s, hs, hhealthy, fun hnobody => ?_⟩
  obtain ⟨rs, ws, h⟩ := RwLockSystem.Inv.of_reachable hs
  have hnone : s.granted .write = ∅ := by
    have hexclusive := h.accounts.exclusive
    have hactive := mt h.accounts.active.mpr (by simp [hidle])
    exact Finset.card_eq_zero.mp (by omega)
  cases hrs.symm.trans (hnobody.readers hidle hnone hws)

end Asupersync
