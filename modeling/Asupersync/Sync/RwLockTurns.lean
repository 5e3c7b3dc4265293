import Asupersync.Sync.RwLock

/-!
# Turns of the read-write lock

What the sections of the read-write lock do to its queues and counters.  A turn lets
waiters in: readers from the front of their queue, or the first writer (`Turn`).  The
counters agree with the numbers of guards and waiting futures (`Ledger`), and each way to
leave the lock keeps that.

The turn after a writer serves somebody if anybody waits, and it leaves readers behind
without a writer only when it is a forced one with more than one reader (`Eager`).
-/

namespace Asupersync

open Lib List Bool

namespace RwLockState

variable {s s' : RwLockState} {rs ws rs' ws' taken : List (WaiterSlot RwTag)} {id : Nat}
  {readers : WaiterChain RwTag}

/-- The lock with the readers `rs` and the writers `ws` in its queues. -/
structure Fits (s : RwLockState) (rs ws : List (WaiterSlot RwTag)) : Prop where
  readers : s.readerWaiters.Holds rs
  writers : s.writerQueue.Holds ws

/-- Waiters come in: the readers `taken` from the front of their queue, or the first
writer. -/
structure Turn (s s' : RwLockState) (rs ws taken rs' ws' : List (WaiterSlot RwTag)) : Prop where
  fits : s'.Fits rs' ws'
  split : rs = taken ++ rs'
  readers : s'.readers = s.readers + taken.length
  waiters : s'.writerWaiters = s.writerWaiters
  writer : ws' = ws ∧ s'.writerActive = s.writerActive ∨
    taken = [] ∧ s'.writerActive = true ∧ ∃ w, ws = w :: ws'

theorem Fits.turn_refl (h : s.Fits rs ws) : Turn s s rs ws [] rs ws :=
  ⟨h, rfl, rfl, rfl, .inl ⟨rfl, rfl⟩⟩

/-- The count of writers served takes no part in a turn. -/
theorem Turn.served (h : Turn s s' rs ws taken rs' ws') (n : Nat) :
    Turn s { s' with consecutiveWritersServed := n } rs ws taken rs' ws' :=
  ⟨⟨h.fits.readers, h.fits.writers⟩, h.split, h.readers, h.waiters, h.writer⟩

theorem Turn.suffix (h : Turn s s' rs ws taken rs' ws') : ws'.IsSuffix ws := by
  rcases h.writer with ⟨rfl, -⟩ | ⟨-, -, w, rfl⟩
  · exact suffix_refl ws'
  · exact suffix_cons w ws'

theorem Fits.grantWriter (h : s.Fits rs ws) : ∃ ws', Turn s s.grantWriter.1 rs ws [] rs ws' ∧
    (s.grantWriter.1.writerActive = true ∨ ws = []) := by
  rw [RwLockState.grantWriter]
  cases ws with
  | nil =>
    rw [h.writers.popFront_nil]
    exact ⟨[], h.turn_refl, .inr rfl⟩
  | cons w ws =>
    obtain ⟨writers, hpop, hrest⟩ := h.writers.popFront
    rw [hpop]
    exact ⟨ws, ⟨⟨h.readers, hrest⟩, rfl, rfl, rfl, .inr ⟨rfl, rfl, w, rfl⟩⟩, .inl rfl⟩

/-- Readers that are taken out of the queue are counted in. -/
theorem Fits.letIn (h : s.Fits rs ws) {wakers : List Waker}
    (hsplit : rs = taken ++ rs') (hlength : wakers.length = taken.length)
    (hrest : readers.Holds rs') : Turn s (s.letIn (wakers, readers)) rs ws taken rs' ws :=
  ⟨⟨hrest, h.writers⟩, hsplit, congrArg (s.readers + ·) hlength, rfl, .inl ⟨rfl, rfl⟩⟩

theorem takeEligibleLoop_spec (h : readers.Holds rs) (firstWriter : Nat) (fuel : Nat) :
    ∃ taken rs', rs = taken ++ rs' ∧
      (takeEligibleLoop firstWriter fuel readers).1.length = taken.length ∧
      (takeEligibleLoop firstWriter fuel readers).2.Holds rs' ∧
      (0 < fuel → ∀ r ∈ rs.head?, readerArrivedBeforeWriter r.tag.arrival firstWriter = true →
        taken ≠ []) := by
  induction fuel generalizing readers rs with
  | zero => exact ⟨[], rs, rfl, rfl, h, fun hpos => absurd hpos (Nat.lt_irrefl 0)⟩
  | succ fuel ih =>
    rw [takeEligibleLoop, WaiterChain.frontTag, h.front]
    cases rs with
    | nil => exact ⟨[], [], rfl, rfl, h, fun _ r hr => nomatch hr⟩
    | cons r rs =>
      rw [head?_cons, Option.map_some, Option.any_some]
      split_ifs with hbefore
      · obtain ⟨rest, hpop, hrest⟩ := h.popFront
        obtain ⟨taken, rs', hsplit, hlength, hholds, -⟩ := ih hrest
        rw [hpop]
        refine ⟨r :: taken, rs', ?_, ?_, hholds, fun _ _ _ _ => cons_ne_nil _ _⟩
        · rw [hsplit]
          rfl
        · exact congrArg (· + 1) hlength
      · refine ⟨[], r :: rs, rfl, rfl, h, fun _ r' hr' hr => ?_⟩
        cases hr'
        exact absurd hr hbefore

/-- The readers in front of the first writer: all of them when no writer waits, and at least
one if the first reader came before the first writer. -/
theorem Fits.takeEligible (h : s.Fits rs ws) :
    ∃ taken rs', Turn s (s.letIn s.takeEligibleReaderWaiters) rs ws taken rs' ws ∧
      (ws = [] → rs' = []) ∧
      ∀ w ∈ ws.head?, ∀ r ∈ rs.head?,
        readerArrivedBeforeWriter r.tag.arrival w.tag.arrival = true → taken ≠ [] := by
  have hfront : s.writerQueue.frontTag = ws.head?.map (·.tag) := by
    rw [WaiterChain.frontTag, h.writers.front]
  rw [takeEligibleReaderWaiters, hfront]
  cases ws with
  | nil =>
    obtain ⟨rest, hdrain, hrest⟩ := h.readers.drain
    refine ⟨rs, [], ?_, fun _ => rfl, fun w hw => nomatch hw⟩
    simp only [head?_nil, Option.map_none, hdrain]
    exact h.letIn (append_nil rs).symm (length_map _) hrest
  | cons w ws =>
    obtain ⟨taken, rs', hsplit, hlength, hholds, heager⟩ :=
      takeEligibleLoop_spec h.readers w.tag.arrival s.readerWaiters.list.slots.entries.length
    refine ⟨taken, rs', h.letIn hsplit hlength hholds, nofun, fun w' hw' r hr hbefore => ?_⟩
    cases hw'
    refine heager ?_ r hr hbefore
    have hlength := h.readers.length_le
    obtain ⟨rest, rfl⟩ := head?_eq_some_iff.mp hr
    exact Nat.lt_of_lt_of_le (Nat.succ_pos _) hlength

theorem Fits.takeForced (h : s.Fits rs ws) (hne : rs ≠ []) :
    ∃ r rs', Turn s (s.letIn s.takeForcedReaderTurn) rs ws [r] rs' ws := by
  obtain ⟨r, rs, rfl⟩ := exists_cons_of_ne_nil hne
  obtain ⟨rest, hpop, hrest⟩ := h.readers.popFront
  refine ⟨r, rs, ?_⟩
  rw [takeForcedReaderTurn, hpop]
  exact h.letIn rfl rfl hrest

/-- A turn after a writer lets somebody in, if anybody waits.  It leaves readers behind
without a writer only when it is a forced one with more than one reader. -/
structure Eager (s s' : RwLockState) (rs taken rs' ws' : List (WaiterSlot RwTag)) : Prop where
  somebody : s'.writerActive = false → taken = [] → rs' = [] ∧ ws' = []
  readers : s'.writerActive = false → ws' = [] → rs' ≠ [] →
    s.forceReaderBatch = true ∧ 2 ≤ rs.length

/-- If writers wait and none is to be woken, the first reader came before them. -/
theorem Fits.first_reader_before (h : s.Fits rs ws) (hwait : s.shouldWakeWriter = false)
    (hws : ws ≠ []) : ∃ w r, w ∈ ws.head? ∧ r ∈ rs.head? ∧
      readerArrivedBeforeWriter r.tag.arrival w.tag.arrival = true := by
  obtain ⟨w, ws, rfl⟩ := exists_cons_of_ne_nil hws
  have hwriters : ¬ s.writerQueue.isEmpty = true := by
    rw [h.writers.isEmpty_iff]
    exact cons_ne_nil w ws
  rw [shouldWakeWriter, if_neg hwriters, WaiterChain.frontTag, WaiterChain.frontTag,
    h.writers.front, h.readers.front] at hwait
  cases rs with
  | nil =>
    rw [if_pos (h.readers.isEmpty_iff.mpr rfl)] at hwait
    cases hwait
  | cons r rs =>
    have hreaders : ¬ s.readerWaiters.isEmpty = true := by
      rw [h.readers.isEmpty_iff]
      exact cons_ne_nil r rs
    rw [if_neg hreaders] at hwait
    exact ⟨w, r, rfl, rfl, by simpa using hwait⟩

theorem Fits.nextTurn (h : s.Fits rs ws) :
    ∃ taken rs' ws', Turn s s.nextTurn.1 rs ws taken rs' ws' ∧
      Eager s s.nextTurn.1 rs taken rs' ws' := by
  rw [RwLockState.nextTurn]
  split_ifs with hwake hforce
  · obtain ⟨ws', hturn, hactive⟩ := h.grantWriter
    have hactive : s.grantWriter.1.writerActive = true := by
      refine hactive.resolve_right fun hnil => ?_
      rw [shouldWakeWriter, h.writers.isEmpty_iff.mpr hnil, if_pos rfl, Bool.and_false] at hwake
      cases hwake
    refine ⟨[], rs, ws', hturn, fun hidle => ?_, fun hidle => ?_⟩
    · cases hactive.symm.trans hidle
    · cases hactive.symm.trans hidle
  · -- one reader, whoever else waits
    have hne : rs ≠ [] := by
      simp only [forceReaderBatch, and_eq_true, not_eq_true', ← not_eq_true,
        h.readers.isEmpty_iff] at hforce
      exact hforce.2
    obtain ⟨r, rs', hturn⟩ := h.takeForced hne
    refine ⟨[r], rs', ws, hturn.served _, nofun, fun _ _ hleft => ⟨hforce, ?_⟩⟩
    have hpos := length_pos_iff.mpr hleft
    rw [hturn.split, length_append, length_singleton]
    omega
  · obtain ⟨taken, rs', hturn, hall, hfirst⟩ := h.takeEligible
    refine ⟨taken, rs', ws, hturn.served _, fun _ hnone => ?_,
      fun _ hws hleft => absurd (hall hws) hleft⟩
    -- nobody is taken: then no writer waits, or the first one would have been woken
    have hws : ws = [] := by
      by_contra hws
      obtain ⟨w, r, hw, hr, hbefore⟩ := h.first_reader_before (by simpa [hforce] using hwake) hws
      exact hfirst w hw r hr hbefore hnone
    exact ⟨hall hws, hws⟩

theorem Fits.releaseReader (h : s.Fits rs ws) :
    ∃ ws', Turn { s with readers := s.readers - 1 } s.releaseReader.1 rs ws [] rs ws' ∧
      (s.readers - 1 = 0 ∧ s.releaseReader.1.writerActive = true ∨ ws' = ws ∧
        s.releaseReader.1.writerActive = s.writerActive ∧
        (s.readers - 1 = 0 → s.writerWaiters = 0 ∨ ws = [])) := by
  have hfits : ({ s with readers := s.readers - 1 } : RwLockState).Fits rs ws :=
    ⟨h.readers, h.writers⟩
  simp only [RwLockState.releaseReader]
  split_ifs with hlast
  · obtain ⟨ws', hturn, hactive⟩ := hfits.grantWriter
    refine ⟨ws', hturn, hactive.imp (fun hflag => ⟨hlast.1, hflag⟩) fun hnil => ?_⟩
    subst hnil
    rcases hturn.writer with ⟨hsame, hflag⟩ | ⟨-, -, w, hcons⟩
    · exact ⟨hsame, hflag, fun _ => .inr rfl⟩
    · cases hcons
  · refine ⟨ws, hfits.turn_refl, .inr ⟨rfl, rfl, fun hzero => .inl ?_⟩⟩
    omega

theorem Fits.admitAll (h : s.Fits rs ws) (poisoned : Bool) :
    ∃ taken rs', Turn s (s.admitAll poisoned).1 rs ws taken rs' ws ∧
      (poisoned = false → s.writerWaiters = 0 → s.writerActive = false → rs' = []) ∧
      (taken = [] ∨ s.writerWaiters = 0 ∧ s.writerActive = false) := by
  rw [RwLockState.admitAll]
  split
  · rename_i hidle
    obtain ⟨rest, hdrain, hrest⟩ := h.readers.drain
    rw [hdrain]
    exact ⟨rs, [], h.letIn (append_nil rs).symm (length_map _) hrest, fun _ _ _ => rfl,
      Or.inr ⟨hidle.1, hidle.2.1⟩⟩
  · rename_i hbusy
    exact ⟨[], rs, h.turn_refl, fun hp hw ha => absurd ⟨hw, ha, hp⟩ hbusy, .inl rfl⟩

/-- The counters of a lock with `R` read guards and waiting readers, `W` write guards and `T`
waiting writers. -/
structure Ledger (s : RwLockState) (rs ws : List (WaiterSlot RwTag)) (R W T : Nat) : Prop where
  fits : s.Fits rs ws
  readers : s.readers + rs.length = R
  writers : s.writerWaiters = T
  active : s.writerActive.toNat + ws.length = W + T
  alone : s.writerActive = true → s.readers = 0

section Ledger

variable {R W T : Nat}

theorem Ledger.turn (h : Ledger s rs ws R W T) (hturn : Turn s s' rs ws taken rs' ws')
    (hreaders : taken ≠ [] → s.writerActive = false)
    (hwriter : ws' ≠ ws → s.writerActive = false ∧ s.readers = 0) : Ledger s' rs' ws' R W T := by
  have hR := h.readers
  have hA := h.active
  have hlength := congrArg length hturn.split
  rw [length_append] at hlength
  have hcount := hturn.readers
  refine ⟨hturn.fits, by omega, hturn.waiters.trans h.writers, ?_, ?_⟩
  · rcases hturn.writer with ⟨hws, hflag⟩ | ⟨-, hflag, w, hws⟩
    · rw [hws, hflag]
      exact hA
    · have hidle := (hwriter (by rw [hws]; simp)).1
      rw [hflag]
      rw [hidle, hws, length_cons] at hA
      simp only [toNat_false, toNat_true] at hA ⊢
      omega
  · intro hflag'
    rcases hturn.writer with ⟨hws, hflag⟩ | ⟨htaken, -, w, hws⟩
    · have hactive := hflag.symm.trans hflag'
      have hnone : taken = [] := by
        by_contra hne
        cases hactive.symm.trans (hreaders hne)
      rw [hcount, h.alone hactive, hnone]
      rfl
    · have hzero := (hwriter (by rw [hws]; simp)).2
      rw [hcount, hzero, htaken]
      rfl

/-- Nobody is left behind: a lock that nobody is in has no waiters, and readers wait only
for a writer. -/
structure Served (s : RwLockState) (rs ws : List (WaiterSlot RwTag)) : Prop where
  idle : s.readers = 0 → s.writerActive = false → rs = [] ∧ ws = []
  readers : s.writerActive = false → ws = [] → rs = []

theorem Served.of_active (h : s.writerActive = true) : Served s rs ws := by
  constructor
  · intro _ hidle
    cases h.symm.trans hidle
  · intro hidle
    cases h.symm.trans hidle

/-- A reader comes in while no writer is. -/
theorem Ledger.addReader (h : Ledger s rs ws R W T) (hidle : s.writerActive = false) :
    Ledger { s with readers := s.readers + 1 } rs ws (R + 1) W T ∧
      (Served s rs ws → Served { s with readers := s.readers + 1 } rs ws) := by
  have hR := h.readers
  refine ⟨⟨⟨h.fits.readers, h.fits.writers⟩, ?_, h.writers, h.active, fun hactive => ?_⟩,
    fun hserved => ⟨nofun, hserved.readers⟩⟩
  · simp only
    omega
  · cases hidle.symm.trans hactive

/-- A writer comes in while nobody is. -/
theorem Ledger.addWriter (h : Ledger s rs ws R W T) (hidle : s.writerActive = false)
    (hzero : s.readers = 0) : Ledger { s with writerActive := true } rs ws R (W + 1) T := by
  have hA := h.active
  rw [hidle, toNat_false] at hA
  refine ⟨⟨h.fits.readers, h.fits.writers⟩, h.readers, h.writers, ?_, fun _ => hzero⟩
  simp only [toNat_true]
  omega

/-- A reader that is in leaves. -/
theorem Ledger.releaseReader (h : Ledger s rs ws (R + 1) W T) (hin : rs.length ≤ R) :
    ∃ ws', Ledger s.releaseReader.1 rs ws' R W T ∧ ws'.IsSuffix ws ∧
      (Served s rs ws → ws.length ≤ T → Served s.releaseReader.1 rs ws') := by
  have hR := h.readers
  have hidle : s.writerActive = false := by
    by_contra hactive
    have hzero := h.alone (by simpa using hactive)
    omega
  have hmid : Ledger { s with readers := s.readers - 1 } rs ws R W T := by
    refine ⟨⟨h.fits.readers, h.fits.writers⟩, ?_, h.writers, h.active, fun hactive => ?_⟩
    · simp only
      omega
    · cases hidle.symm.trans hactive
  obtain ⟨ws', hturn, hcase⟩ := h.fits.releaseReader
  have hcount : s.releaseReader.1.readers = s.readers - 1 := hturn.readers
  refine ⟨ws', hmid.turn hturn (absurd rfl) fun hne => ⟨hidle, ?_⟩, hturn.suffix, ?_⟩
  · rcases hcase with ⟨hzero, -⟩ | ⟨hws, -⟩
    · exact hzero
    · exact absurd hws hne
  intro hserved hin'
  rcases hcase with ⟨-, hactive⟩ | ⟨rfl, -, hlast⟩
  · exact .of_active hactive
  · refine ⟨fun hzero _ => ?_, fun _ hws => hserved.readers hidle hws⟩
    -- the last reader leaves and no writer waits, so no reader does
    have hws : ws' = [] := by
      refine (hlast (by omega)).elim (fun hnone => ?_) id
      rw [h.writers] at hnone
      exact length_eq_zero_iff.mp (by omega)
    exact ⟨hserved.readers hidle hws, hws⟩

/-- A lock with a write guard, or a writer let in, is active and has no readers. -/
theorem Ledger.writer (h : Ledger s rs ws R (W + 1) T) (hin : ws.length ≤ T) :
    s.writerActive = true ∧ s.readers = 0 ∧ ws.length = W + T := by
  have hA := h.active
  have hactive : s.writerActive = true := by
    by_contra hidle
    rw [not_eq_true] at hidle
    rw [hidle, toNat_false] at hA
    omega
  rw [hactive, toNat_true] at hA
  exact ⟨hactive, h.alone hactive, by omega⟩

/-- The state in which the writer has gone and nobody has come in yet. -/
theorem Ledger.writerGone (h : Ledger s rs ws R (W + 1) T) (hin : ws.length ≤ T) :
    Ledger { s with writerActive := false } rs ws R W T := by
  obtain ⟨-, -, hlength⟩ := h.writer hin
  refine ⟨⟨h.fits.readers, h.fits.writers⟩, h.readers, h.writers, ?_, nofun⟩
  simp only [toNat_false]
  omega

/-- The turn after a writer, from a lock without readers and writer.  It serves everybody
unless it is a forced one, with two readers and no writer in the queues. -/
theorem Ledger.nextTurn (h : Ledger s rs ws R W T) (hidle : s.writerActive = false)
    (hzero : s.readers = 0) :
    ∃ rs' ws', Ledger s.nextTurn.1 rs' ws' R W T ∧ rs'.IsSuffix rs ∧ ws'.IsSuffix ws ∧
      (¬ (s.forceReaderBatch = true ∧ ws = [] ∧ 2 ≤ rs.length) →
        Served s.nextTurn.1 rs' ws') := by
  obtain ⟨taken, rs', ws', hturn, heager⟩ := h.fits.nextTurn
  refine ⟨rs', ws', h.turn hturn (fun _ => hidle) (fun _ => ⟨hidle, hzero⟩),
    ⟨taken, hturn.split.symm⟩, hturn.suffix, fun hcalm => ⟨?_, ?_⟩⟩
  · intro hzero' hidle'
    refine heager.somebody hidle' (length_eq_zero_iff.mp ?_)
    have hcount := hturn.readers
    omega
  · intro hidle' hws'
    by_contra hleft
    obtain ⟨hforce, htwo⟩ := heager.readers hidle' hws' hleft
    rcases hturn.writer with ⟨hws, -⟩ | ⟨-, hactive, -⟩
    · exact hcalm ⟨hforce, hws.symm.trans hws', htwo⟩
    · cases hactive.symm.trans hidle'

theorem Ledger.downgrade (h : Ledger s rs ws R (W + 1) T) (hin : ws.length ≤ T) :
    ∃ rs', Ledger s.downgrade.1 rs' ws (R + 1) W T ∧ rs'.IsSuffix rs ∧
      Served s.downgrade.1 rs' ws := by
  obtain ⟨hactive, hzero, hlength⟩ := h.writer hin
  have hmid : Ledger { s with writerActive := false, readers := 1 } rs ws (R + 1) W T := by
    have hR := h.readers
    refine ⟨⟨h.fits.readers, h.fits.writers⟩, ?_, h.writers, ?_, nofun⟩
    · simp only
      omega
    · simp only [toNat_false]
      omega
  obtain ⟨taken, rs', hturn, hall, -⟩ := hmid.fits.takeEligible
  have hturn' : Turn { s with writerActive := false, readers := 1 } s.downgrade.1 rs ws taken rs' ws :=
    hturn.served _
  refine ⟨rs', hmid.turn hturn' (fun _ => rfl) (absurd rfl), ⟨taken, hturn.split.symm⟩,
    fun hnone => ?_, fun _ => hall⟩
  have hcount := hturn'.readers
  simp only at hcount
  omega

/-- The readers come in if the last waiting writer is gone. -/
theorem Ledger.admitAll (h : Ledger s rs ws R W T) (poisoned : Bool) :
    ∃ rs', Ledger (s.admitAll poisoned).1 rs' ws R W T ∧ rs'.IsSuffix rs ∧
      (poisoned = false → ¬ (s.readers = 0 ∧ s.writerActive = false) →
        Served (s.admitAll poisoned).1 rs' ws) := by
  obtain ⟨taken, rs', hturn, hall, hfree⟩ := h.fits.admitAll poisoned
  have hflag : (s.admitAll poisoned).1.writerActive = s.writerActive := by
    rcases hturn.writer with ⟨-, hflag⟩ | ⟨-, -, w, hws⟩
    · exact hflag
    · simp at hws
  refine ⟨rs', h.turn hturn (fun hne => (hfree.resolve_left hne).2) (absurd rfl),
    ⟨taken, hturn.split.symm⟩, fun hp hbusy => ⟨fun hzero hidle => ?_, fun hidle hws => ?_⟩⟩
  · have hcount := hturn.readers
    exact absurd ⟨by omega, hflag.symm.trans hidle⟩ hbusy
  · have hidle' := hflag.symm.trans hidle
    refine hall hp ?_ hidle'
    have hA := h.active
    rw [hidle', hws, toNat_false, length_nil] at hA
    rw [h.writers]
    omega

end Ledger

end RwLockState

end Asupersync
