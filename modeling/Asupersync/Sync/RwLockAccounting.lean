import Asupersync.Sync.RwLockTurns

/-!
# Exclusion and accounting of the read-write lock

In every run the counters of the lock agree with the guards and futures around it: the
readers are the read guards and the readers let in but not polled yet, the writer flag
stands for the one write guard or writer let in, and a writer excludes everybody else.

The argument counts.  A future that waits holds a ticket, an entry of a queue belongs to
one of them, and so those let in are the tickets less the entries.  This needs no
assumption on the identities of waiters: also when they wrap, the entry a future finds
under its identity is taken out for one ticket given back.
-/

namespace Asupersync

open Lib WaiterChain RwFuture List Option

/-- The owners recorded in the slots of a queue are those of its entries. -/
theorem WaiterChain.Holds.mem_owners {c : WaiterChain RwTag} {es : List (WaiterSlot RwTag)}
    (h : c.Holds es) {f : Nat} :
    f ∈ (c.list.slots.values.map fun link => link.value.tag.owner) ↔
      f ∈ es.map (·.tag.owner) := by
  rw [List.mem_map, List.mem_map]
  constructor
  · rintro ⟨link, hlink, rfl⟩
    exact ⟨link.value, h.mem_values_iff.mp (mem_map.mpr ⟨link, hlink, rfl⟩), rfl⟩
  · rintro ⟨w, hw, rfl⟩
    obtain ⟨link, hlink, rfl⟩ := mem_map.mp (h.mem_values_iff.mpr hw)
    exact ⟨link, hlink, rfl⟩

theorem RwFuture.abandoned_spec {future : RwFuture}
    (hcounted : future.counted = true ↔ future.kind = .write ∧ future.waiterId ≠ none) :
    future.abandoned.waiterId = none ∧ future.abandoned.counted = false ∧
      future.abandoned.kind = future.kind := by
  rw [abandoned]
  cases hkind : future.kind with
  | read =>
    refine ⟨rfl, ?_, rfl⟩
    rw [← Bool.not_eq_true, hcounted, hkind]
    exact fun h => nomatch h.1
  | write =>
    cases hflag : future.counted with
    | true => exact ⟨rfl, rfl, rfl⟩
    | false =>
      refine ⟨?_, hflag, hkind⟩
      by_contra hne
      cases hflag.symm.trans (hcounted.mpr ⟨hkind, hne⟩)

namespace RwLockSystem

variable {s s' : RwLockSystem} {rs ws rs' ws' taken es : List (WaiterSlot RwTag)} {f g id : Nat}
  {kind : RwKind} {cell cell' : RwCell} {es' : List (WaiterSlot RwTag)} {result : RwFuture.Polled}
  {op : RwLockOp} {e : WaiterSlot RwTag}

/-- The future `f` waits with the ticket `id`. -/
def TicketOf (s : RwLockSystem) (kind : RwKind) (f id : Nat) : Prop :=
  ∃ cell, s.futures[f]? = some cell ∧ cell.future.kind = kind ∧ cell.future.waiterId = some id

theorem mem_waiting_iff : f ∈ s.waiting kind ↔ ∃ id, s.TicketOf kind f id := by
  rw [waiting, Finset.mem_filter, Finset.mem_range]
  constructor
  · rintro ⟨-, hany⟩
    cases hcell : s.futures[f]? with
    | none => simp [hcell] at hany
    | some cell =>
      simp only [hcell, any_some, Bool.and_eq_true, decide_eq_true_eq, isSome_iff_exists] at hany
      obtain ⟨hkind, id, hid⟩ := hany
      exact ⟨id, cell, hcell, hkind, hid⟩
  · rintro ⟨id, cell, hcell, hkind, hid⟩
    refine ⟨(List.getElem?_eq_some_iff.mp hcell).1, ?_⟩
    simp [hcell, hkind, hid]

/-- The entries of a queue belong to different futures, each with the ticket of its entry. -/
structure Owned (s : RwLockSystem) (kind : RwKind) (es : List (WaiterSlot RwTag)) : Prop where
  nodup : (es.map (·.tag.owner)).Nodup
  holds : ∀ e ∈ es, s.TicketOf kind e.tag.owner e.id

theorem Owned.subset (h : Owned s kind es) : (es.map (·.tag.owner)).toFinset ⊆ s.waiting kind := by
  intro f hf
  obtain ⟨e, he, rfl⟩ := mem_map.mp (mem_toFinset.mp hf)
  exact mem_waiting_iff.mpr ⟨e.id, h.holds e he⟩

theorem Owned.length_le (h : Owned s kind es) : es.length ≤ (s.waiting kind).card := by
  have hcard := Finset.card_le_card h.subset
  rwa [toFinset_card_of_nodup h.nodup, length_map] at hcard

/-- Whoever waits without an entry has been let in. -/
theorem Owned.card_granted (h : Owned s kind es) (hqueue : (s.queue kind).Holds es) :
    (s.granted kind).card + es.length = (s.waiting kind).card ∧
      (s.queued kind).card = es.length := by
  have hqueued : s.queued kind = (es.map (·.tag.owner)).toFinset := by
    ext f
    rw [queued, Finset.mem_filter, hqueue.mem_owners, List.mem_toFinset, and_iff_right_iff_imp]
    exact fun hf => h.subset (mem_toFinset.mpr hf)
  have hcard : (s.queued kind).card = es.length := by
    rw [hqueued, toFinset_card_of_nodup h.nodup, length_map]
  refine ⟨?_, hcard⟩
  rw [granted, ← hcard]
  exact Finset.card_sdiff_add_card_eq_card (Finset.filter_subset _ _)

/-- One future has changed. -/
structure Replaces (s s' : RwLockSystem) (f : Nat) (cell cell' : RwCell) : Prop where
  here : s.futures[f]? = some cell
  futures : s'.futures = s.futures.set f cell'
  kind : cell'.future.kind = cell.future.kind

/-- A step hands out so many guards. -/
structure Gains (s s' : RwLockSystem) (reads writes : Nat) : Prop where
  read : s'.readGuards = s.readGuards + reads
  write : s'.writeGuards = s.writeGuards + writes

/-- 1 for a future of this kind that waits. -/
def tickets (kind : RwKind) (cell : RwCell) : Nat :=
  if cell.future.kind = kind ∧ cell.future.waiterId ≠ none then 1 else 0

namespace Replaces

variable (hr : Replaces s s' f cell cell')

include hr

theorem getElem_self : s'.futures[f]? = some cell' := by
  rw [hr.futures, getElem?_set_self (List.getElem?_eq_some_iff.mp hr.here).1]

theorem getElem_ne (hne : g ≠ f) : s'.futures[g]? = s.futures[g]? := by
  rw [hr.futures, getElem?_set_ne hne.symm]

theorem ticketOf_ne (hne : g ≠ f) : s'.TicketOf kind g id ↔ s.TicketOf kind g id := by
  rw [TicketOf, TicketOf, hr.getElem_ne hne]

theorem ticketOf_self : s'.TicketOf kind f id ↔
    cell'.future.kind = kind ∧ cell'.future.waiterId = some id := by
  rw [TicketOf, hr.getElem_self]
  constructor
  · rintro ⟨c, hc, hticket⟩
    cases hc
    exact hticket
  · intro hticket
    exact ⟨cell', rfl, hticket⟩

theorem tickets_eq : tickets kind cell' = if f ∈ s'.waiting kind then 1 else 0 := by
  refine if_congr ?_ rfl rfl
  rw [mem_waiting_iff]
  simp only [hr.ticketOf_self, exists_and_left, ← ne_none_iff_exists']

theorem erase_waiting : (s'.waiting kind).erase f = (s.waiting kind).erase f := by
  ext g
  rw [Finset.mem_erase, Finset.mem_erase]
  refine and_congr_right fun hne => ?_
  rw [mem_waiting_iff, mem_waiting_iff]
  exact exists_congr fun id => hr.ticketOf_ne hne

end Replaces

theorem card_erase_add (kind : RwKind) (hcell : s.futures[f]? = some cell) :
    ((s.waiting kind).erase f).card + tickets kind cell = (s.waiting kind).card := by
  have hself : Replaces s s f cell cell := by
    obtain ⟨hlt, rfl⟩ := List.getElem?_eq_some_iff.mp hcell
    exact ⟨hcell, (set_getElem_self hlt).symm, rfl⟩
  rw [hself.tickets_eq]
  split
  next hf => exact Finset.card_erase_add_one hf
  next hf => rw [Finset.erase_eq_of_notMem hf, Nat.add_zero]

/-- The number of tickets changes by that of the changed future. -/
theorem Replaces.card_waiting (hr : Replaces s s' f cell cell') (kind : RwKind) :
    (s'.waiting kind).card + tickets kind cell = (s.waiting kind).card + tickets kind cell' := by
  have hold := card_erase_add kind hr.here
  have hnew := card_erase_add kind hr.getElem_self
  rw [hr.erase_waiting] at hnew
  omega

section

variable (h : Owned s kind es)

include h

/-- The owner of an entry waits with its identity. -/
theorem Owned.ticket (hcell : s.futures[f]? = some cell) (he : e ∈ es) (heq : e.tag.owner = f) :
    cell.future.kind = kind ∧ cell.future.waiterId = some e.id := by
  obtain ⟨c, hc, hticket⟩ := h.holds e he
  rw [heq, hcell, some.injEq] at hc
  exact hc ▸ hticket

/-- Entries that are not of the changed future keep their owners. -/
theorem Owned.replace (hr : Replaces s s' f cell cell') (hsub : es'.Sublist es)
    (hself : ∀ e ∈ es', e.tag.owner = f → cell'.future.waiterId = some e.id) :
    Owned s' kind es' := by
  refine ⟨h.nodup.sublist (hsub.map _), fun e he => ?_⟩
  rcases eq_or_ne e.tag.owner f with heq | hne
  · rw [heq, hr.ticketOf_self]
    exact ⟨hr.kind.trans (h.ticket hr.here (hsub.subset he) heq).1, hself e he heq⟩
  · exact (hr.ticketOf_ne hne).mpr (h.holds e (hsub.subset he))

theorem Owned.of_sublist (hsub : es'.Sublist es) : Owned s kind es' :=
  ⟨h.nodup.sublist (hsub.map _), fun e he => h.holds e (hsub.subset he)⟩

/-- The queue of the other kind has no entries of the changed future. -/
theorem Owned.other_kind (hr : Replaces s s' f cell cell')
    (hkind : cell.future.kind ≠ kind) : Owned s' kind es := by
  refine h.replace hr (.refl es) fun e he heq => ?_
  exact absurd (h.ticket hr.here he heq).1 hkind

/-- The queue has no entries of a future whose identity is not in it. -/
theorem Owned.no_entry (hr : Replaces s s' f cell cell')
    (hid : ∀ id ∈ cell.future.waiterId, id ∉ es.map (·.id)) : Owned s' kind es := by
  refine h.replace hr (.refl es) fun e he heq => ?_
  exact absurd (mem_map_of_mem he) (hid e.id (h.ticket hr.here he heq).2)

end

/-- The entry that is taken out is the only one the changed future can have had. -/
theorem Owned.entry_removed {xs ys : List (WaiterSlot RwTag)}
    (h : Owned s kind (xs ++ e :: ys)) (hr : Replaces s s' f cell cell')
    (hnodup : ((xs ++ e :: ys).map (·.id)).Nodup) (hid : cell.future.waiterId = some e.id) :
    Owned s' kind (xs ++ ys) := by
  refine h.replace hr ((Sublist.refl xs).append (sublist_cons_self e ys)) fun e' he' heq => ?_
  have hmem : e' ∈ xs ++ e :: ys := mem_append.mpr ((mem_append.mp he').imp id (mem_cons_of_mem e))
  have hsame : e.id = e'.id := some.inj (hid.symm.trans (h.ticket hr.here hmem heq).2)
  rw [map_append, map_cons, nodup_middle] at hnodup
  refine absurd ?_ (nodup_cons.mp hnodup).1
  rw [← map_append, hsame]
  exact mem_map_of_mem he'

theorem Replaces.card_same (hr : Replaces s s' f cell cell')
    (hid : cell'.future.waiterId = cell.future.waiterId) (kind : RwKind) :
    (s'.waiting kind).card = (s.waiting kind).card := by
  simpa [tickets, hr.kind, hid] using hr.card_waiting kind

/-- A future that keeps its ticket keeps its entry. -/
theorem Owned.same_ticket (h : Owned s kind es) (hr : Replaces s s' f cell cell')
    (hid : cell'.future.waiterId = cell.future.waiterId) : Owned s' kind es := by
  exact h.replace hr (.refl es) fun e he heq => hid.trans (h.ticket hr.here he heq).2

/-- Counters, tickets and entries fit together. -/
structure Inv (s : RwLockSystem) (rs ws : List (WaiterSlot RwTag)) : Prop where
  ledger : s.state.Ledger rs ws (s.readGuards + (s.waiting .read).card) s.writeGuards
    (s.waiting .write).card
  counted : ∀ (f : Nat) (cell : RwCell), s.futures[f]? = some cell →
    (cell.future.counted = true ↔ cell.future.kind = .write ∧ cell.future.waiterId ≠ none)
  readOwners : Owned s .read rs
  writeOwners : Owned s .write ws

theorem Inv.not_counted (h : Inv s rs ws) (hcell : s.futures[f]? = some cell)
    (hid : cell.future.waiterId = none) : cell.future.counted = false := by
  rw [← Bool.not_eq_true, h.counted f cell hcell, hid]
  exact fun h => h.2 rfl

theorem Inv.is_counted (h : Inv s rs ws) (hcell : s.futures[f]? = some cell)
    (hkind : cell.future.kind = .write) (hid : cell.future.waiterId = some id) :
    cell.future.counted = true :=
  (h.counted f cell hcell).mpr ⟨hkind, by simp [hid]⟩

theorem Replaces.counted (hr : Replaces s s' f cell cell') (h : Inv s rs ws)
    (hself : cell'.future.counted = true ↔
      cell'.future.kind = .write ∧ cell'.future.waiterId ≠ none) :
    ∀ (g : Nat) (c : RwCell), s'.futures[g]? = some c →
      (c.future.counted = true ↔ c.future.kind = .write ∧ c.future.waiterId ≠ none) := by
  intro g c hg
  rcases eq_or_ne g f with rfl | hne
  · rw [hr.getElem_self, some.injEq] at hg
    exact hg ▸ hself
  · rw [hr.getElem_ne hne] at hg
    exact h.counted g c hg

/-- A turn after a writer would let one reader in and leave another behind with no writer to
wait for. -/
def Stranding (s : RwLockSystem) : Prop :=
  s.state.forceReaderBatch = true ∧ s.state.writerQueue.isEmpty = true ∧ 2 ≤ (s.queued .read).card

theorem Inv.stranding_of (h : Inv s rs ws) (hforce : s.state.forceReaderBatch = true) (hws : ws = [])
    (htwo : 2 ≤ rs.length) : s.Stranding := by
  refine ⟨hforce, h.ledger.fits.writers.isEmpty_iff.mpr hws, ?_⟩
  rw [(h.readOwners.card_granted h.ledger.fits.readers).2]
  exact htwo

section

variable (hr : Replaces s s' f cell cell')

include hr

theorem Replaces.card_other (hkind : cell.future.kind ≠ kind) :
    (s'.waiting kind).card = (s.waiting kind).card := by
  simpa [tickets, hr.kind, hkind] using hr.card_waiting kind

/-- A future that no longer waits gives one ticket back. -/
theorem Replaces.card_leaves (hkind : cell.future.kind = kind)
    (hid : cell.future.waiterId = some id) (hid' : cell'.future.waiterId = none) :
    (s'.waiting kind).card + 1 = (s.waiting kind).card := by
  simpa [tickets, hkind, hid, hid'] using hr.card_waiting kind

/-- A future that begins to wait takes one ticket. -/
theorem Replaces.card_joins (hkind : cell.future.kind = kind)
    (hid : cell.future.waiterId = none) (hid' : cell'.future.waiterId = some id) :
    (s'.waiting kind).card = (s.waiting kind).card + 1 := by
  simpa [tickets, hr.kind, hkind, hid, hid'] using hr.card_waiting kind

end

section

variable (h : Inv s rs ws) (hr : Replaces s s' f cell cell')

include h hr

/-- The future changes, but not its ticket. -/
theorem Inv.same_ticket (hid : cell'.future.waiterId = cell.future.waiterId)
    (hcounted : cell'.future.counted = cell.future.counted)
    (hreaders : Owned s .read rs') (hwriters : Owned s .write ws')
    (hledger : s'.state.Ledger rs' ws' (s'.readGuards + (s.waiting .read).card) s'.writeGuards
      (s.waiting .write).card) : Inv s' rs' ws' := by
  refine ⟨?_, hr.counted h ?_, hreaders.same_ticket hr hid, hwriters.same_ticket hr hid⟩
  · rw [hr.card_same hid, hr.card_same hid]
    exact hledger
  · rw [hcounted, hid, hr.kind]
    exact h.counted f cell hr.here

variable (hkept : Gains s s' 0 0)

include hkept

/-- The future changes, but neither its ticket nor the lock. -/
theorem Inv.settle (hstate : s'.state = s.state) (hid : cell'.future.waiterId = cell.future.waiterId)
    (hcounted : cell'.future.counted = cell.future.counted) : Inv s' rs ws := by
  refine h.same_ticket hr hid hcounted h.readOwners h.writeOwners ?_
  rw [hstate, hkept.read, hkept.write]
  exact h.ledger

/-- A waiting read future gives up its place or, once let in, leaves as a reader. -/
theorem Inv.abandonRead (hkind : cell.future.kind = .read) (hid : cell.future.waiterId = some id)
    (hid' : cell'.future.waiterId = none) (hcounted : cell'.future.counted = false)
    (hstate : s'.state = (s.state.abandonReadWaiter id).1) :
    ∃ rs' ws', Inv s' rs' ws' ∧ (s.state.Served rs ws → s'.state.Served rs' ws') := by
  have hcardR := hr.card_leaves hkind hid hid'
  have hother : cell.future.kind ≠ .write := by simp [hkind]
  have hcardW := hr.card_other hother
  have hcounts := hr.counted h (by simp [hcounted, hid'])
  have hwriters := h.writeOwners.other_kind hr hother
  rw [RwLockState.abandonReadWaiter] at hstate
  by_cases hmem : id ∈ rs.map (·.id)
  · obtain ⟨e, he, rfl⟩ := mem_map.mp hmem
    obtain ⟨xs, ys, rfl⟩ := append_of_mem he
    obtain ⟨readers, hremove, hrest⟩ := h.ledger.fits.readers.remove
    rw [hremove] at hstate
    have hreaders := h.readOwners.entry_removed hr h.ledger.fits.readers.nodup hid
    refine ⟨xs ++ ys, ws, ⟨?_, hcounts, hreaders, hwriters⟩, fun hserved => ?_⟩
    · have hR := h.ledger.readers
      rw [length_append, length_cons] at hR
      rw [hstate, hkept.read, hkept.write, hcardW]
      refine ⟨⟨hrest, h.ledger.fits.writers⟩, ?_, h.ledger.writers, h.ledger.active, h.ledger.alone⟩
      simp only [length_append]
      omega
    · rw [hstate]
      refine ⟨fun hzero hidle => ?_, fun hidle hws => ?_⟩
      · exact absurd (hserved.idle hzero hidle).1 (by simp)
      · exact absurd (hserved.readers hidle hws) (by simp)
  · rw [h.ledger.fits.readers.remove_of_notMem hmem] at hstate
    have hreaders := h.readOwners.no_entry hr (by simpa [hid] using hmem)
    have hin := hreaders.length_le
    have hledger : s.state.Ledger rs ws ((s'.readGuards + (s'.waiting .read).card) + 1)
        s'.writeGuards (s'.waiting .write).card := by
      rw [hkept.read, hkept.write, hcardW, Nat.add_assoc, hcardR]
      exact h.ledger
    obtain ⟨ws', hledger', hsuffix, hserves⟩ := hledger.releaseReader (by omega)
    refine ⟨rs, ws', ⟨hstate ▸ hledger', hcounts, hreaders, hwriters.of_sublist hsuffix.sublist⟩,
      fun hserved => ?_⟩
    rw [hstate]
    exact hserves hserved hwriters.length_le

/-- A waiting write future gives up its place or, once let in, leaves as the writer. -/
theorem Inv.abandonWrite (outdated : Bool)
    (hkind : cell.future.kind = .write) (hid : cell.future.waiterId = some id)
    (hid' : cell'.future.waiterId = none) (hcounted : cell'.future.counted = false)
    (hstate : s'.state = (s.state.abandonWriteWaiter (some id) outdated).1) :
    ∃ rs' ws', Inv s' rs' ws' ∧ (outdated = false → s.state.Served rs ws →
      ¬ (f ∈ s.granted .write ∧ s.Stranding) → s'.state.Served rs' ws') := by
  have hcardW := hr.card_leaves hkind hid hid'
  have hother : cell.future.kind ≠ .read := by simp [hkind]
  have hcardR := hr.card_other hother
  have hcounts := hr.counted h (by simp [hcounted, hid'])
  have hreaders := h.readOwners.other_kind hr hother
  have hT := h.ledger.writers
  have hA := h.ledger.active
  rw [RwLockState.abandonWriteWaiter] at hstate
  by_cases hmem : id ∈ ws.map (·.id)
  · obtain ⟨e, he, rfl⟩ := mem_map.mp hmem
    obtain ⟨xs, ys, rfl⟩ := append_of_mem he
    obtain ⟨writers, hremove, hrest⟩ := h.ledger.fits.writers.remove
    simp only [hremove] at hstate
    have hwriters := h.writeOwners.entry_removed hr h.ledger.fits.writers.nodup hid
    have hledger : RwLockState.Ledger { s.state with
        writerQueue := writers, writerWaiters := s.state.writerWaiters - 1 } rs (xs ++ ys)
        (s'.readGuards + (s'.waiting .read).card) s'.writeGuards (s'.waiting .write).card := by
      rw [hkept.read, hkept.write, hcardR]
      refine ⟨⟨h.ledger.fits.readers, hrest⟩, h.ledger.readers, ?_, ?_, h.ledger.alone⟩
      · simp only
        omega
      · rw [length_append, length_cons] at hA
        simp only [length_append]
        omega
    obtain ⟨rs', hledger', hsuffix, hserves⟩ := hledger.admitAll outdated
    refine ⟨rs', xs ++ ys, ⟨hstate ▸ hledger', hcounts, hreaders.of_sublist hsuffix.sublist, hwriters⟩,
      fun hflag hserved _ => ?_⟩
    rw [hstate]
    refine hserves hflag fun hnobody => ?_
    exact absurd (hserved.idle hnobody.1 hnobody.2).2 (by simp)
  · simp only [h.ledger.fits.writers.remove_of_notMem hmem] at hstate
    have hwriters := h.writeOwners.no_entry hr (by simpa [hid] using hmem)
    have hin := hwriters.length_le
    have hcount : RwLockState.Ledger { s.state with writerWaiters := s.state.writerWaiters - 1 } rs ws
        (s'.readGuards + (s'.waiting .read).card) (s'.writeGuards + 1) (s'.waiting .write).card := by
      rw [hkept.read, hkept.write, hcardR]
      refine ⟨⟨h.ledger.fits.readers, h.ledger.fits.writers⟩, h.ledger.readers, ?_, ?_, h.ledger.alone⟩
      all_goals
        simp only
        omega
    obtain ⟨-, hzero, -⟩ := hcount.writer hin
    have hgone := hcount.writerGone hin
    cases outdated with
    | true =>
      exact ⟨rs, ws, ⟨by rw [hstate]; exact hgone, hcounts, hreaders, hwriters⟩, nofun⟩
    | false =>
      obtain ⟨rs', ws', hledger', hsuffixR, hsuffixW, hserves⟩ := hgone.nextTurn rfl hzero
      refine ⟨rs', ws', ⟨by rw [hstate]; exact hledger', hcounts,
        hreaders.of_sublist hsuffixR.sublist, hwriters.of_sublist hsuffixW.sublist⟩,
        fun _ _ hcalm => ?_⟩
      rw [hstate]
      refine hserves fun hforced => hcalm ⟨?_, h.stranding_of hforced.1 hforced.2.1 hforced.2.2⟩
      rw [granted, Finset.mem_sdiff, queued, Finset.mem_filter]
      refine ⟨mem_waiting_iff.mpr ⟨id, cell, hr.here, hkind, hid⟩, fun hqueued => ?_⟩
      obtain ⟨e, he, howner⟩ := mem_map.mp (h.ledger.fits.writers.mem_owners.mp hqueued.2)
      have hsame : id = e.id := some.inj (hid.symm.trans (h.writeOwners.ticket hr.here he howner).2)
      exact hmem (hsame ▸ mem_map_of_mem he)

/-- A future gives up, whatever it has. -/
theorem Inv.abandon (outdated : Bool) (hid' : cell'.future.waiterId = none)
    (hcounted : cell'.future.counted = false)
    (hstate : s'.state = (cell.future.abandon s.state outdated).1) :
    ∃ rs' ws', Inv s' rs' ws' ∧ (outdated = false → s.state.Served rs ws →
      ¬ (f ∈ s.granted .write ∧ s.Stranding) → s'.state.Served rs' ws') := by
  rw [RwFuture.abandon] at hstate
  cases hid : cell.future.waiterId with
  | none =>
    have hflag := h.not_counted hr.here hid
    have hsame : s'.state = s.state := by
      rw [hstate, hid, hflag]
      cases cell.future.kind <;> rfl
    refine ⟨rs, ws, h.settle hr hkept hsame (hid'.trans hid.symm) (hcounted.trans hflag.symm),
      fun _ hserved _ => hsame ▸ hserved⟩
  | some id =>
    cases hkind : cell.future.kind with
    | read =>
      rw [hkind, hid] at hstate
      obtain ⟨rs', ws', hinv, hserves⟩ := h.abandonRead hr hkept hkind hid hid' hcounted hstate
      exact ⟨rs', ws', hinv, fun _ hserved _ => hserves hserved⟩
    | write =>
      rw [hkind, hid, h.is_counted hr.here hkind hid] at hstate
      exact h.abandonWrite hr hkept outdated hkind hid hid' hcounted hstate

end

/-- The cell after a section of a poll. -/
def polled (cell : RwCell) (result : RwFuture.Polled) : RwCell :=
  { cell with
    future := result.future
    cleaning := match result.answer with
      | .cleaning _ => true
      | _ => false }

theorem pollFuture_frame (s : RwLockSystem) (f : Nat) (cell : RwCell) (result : Polled) :
    (s.pollFuture f cell result).state = result.state ∧
    (s.pollFuture f cell result).poisoned = s.poisoned ∧
    (s.pollFuture f cell result).futures = s.futures.set f (polled cell result) := by
  simp only [pollFuture]
  split
  · cases cell.future.kind <;> exact ⟨rfl, rfl, rfl⟩
  · exact ⟨rfl, rfl, rfl⟩

/-- A section of a poll changes one future, and adds a guard if it grants one. -/
theorem pollFuture_spec (result : Polled) (hcell : s.futures[f]? = some cell) :
    (result.future.kind = cell.future.kind →
      Replaces s (s.pollFuture f cell result) f cell (polled cell result)) ∧
    (result.answer ≠ .granted → Gains s (s.pollFuture f cell result) 0 0) ∧
    (result.answer = .granted →
      Gains s (s.pollFuture f cell result) (if cell.future.kind = .read then 1 else 0)
        (if cell.future.kind = .write then 1 else 0)) := by
  obtain ⟨-, -, hfutures⟩ := pollFuture_frame s f cell result
  refine ⟨fun hkind => ⟨hcell, hfutures, hkind⟩, fun hanswer => ?_, fun hgranted => ?_⟩
  · rw [pollFuture, if_neg hanswer]
    exact ⟨rfl, rfl⟩
  · rw [pollFuture, if_pos hgranted]
    cases cell.future.kind <;> exact ⟨rfl, rfl⟩

theorem Owned.setWaker (h : Owned s kind es) (id : Nat) (waker : Waker) :
    Owned s kind (es.map (setWaker id waker)) := by
  refine ⟨?_, fun e he => ?_⟩
  · rw [List.map_map]
    refine (map_congr_left fun e _ => ?_) ▸ h.nodup
    simp
  · obtain ⟨e₀, he₀, rfl⟩ := mem_map.mp he
    rw [tag_setWaker, id_setWaker]
    exact h.holds e₀ he₀

/-- A newcomer's entry is its own. -/
theorem Owned.push (h : Owned s kind es) (hr : Replaces s s' f cell cell')
    (hnone : cell.future.waiterId = none) (hkind : cell.future.kind = kind) {id : Nat} {waker : Waker}
    {tag : RwTag} (htag : tag.owner = f) (hid' : cell'.future.waiterId = some id) :
    Owned s' kind (es ++ [{ id := id, waker := waker, tag := tag }]) := by
  have hold : Owned s' kind es := h.no_entry hr (by simp [hnone])
  refine ⟨?_, fun e he => ?_⟩
  · rw [map_append, nodup_append]
    refine ⟨hold.nodup, nodup_singleton _, fun g hg g' hg' => ?_⟩
    obtain ⟨e, he, rfl⟩ := mem_map.mp hg
    rw [mem_singleton.mp hg']
    simp only
    rw [htag]
    intro heq
    cases hnone.symm.trans (h.ticket hr.here he heq).2
  · rcases mem_append.mp he with he | he
    · exact hold.holds e he
    · cases mem_singleton.mp he
      rw [htag, hr.ticketOf_self]
      exact ⟨hr.kind.trans hkind, hid'⟩

section Polls

variable {waker : Waker} {tag : RwTag} {readers writers : WaiterChain RwTag} {next : Nat}

variable (h : Inv s rs ws)

include h

section

variable (hr : Replaces s s' f cell cell')

include hr

/-- Somebody in the queues registers a new waker. -/
theorem Inv.refresh (hid : cell'.future.waiterId = cell.future.waiterId)
    (hcounted : cell'.future.counted = cell.future.counted)
    (hreaders : Owned s .read rs') (hwriters : Owned s .write ws')
    (hR : rs'.length = rs.length) (hW : ws'.length = ws.length)
    (hstate : s'.state = { s.state with readerWaiters := readers, writerQueue := writers })
    (hfits : s'.state.Fits rs' ws') (hgains : Gains s s' 0 0) :
    Inv s' rs' ws' ∧ (s.state.Served rs ws → s'.state.Served rs' ws') := by
  rw [hstate] at hfits
  refine ⟨h.same_ticket hr hid hcounted hreaders hwriters ?_, fun hserved => ?_⟩
  · rw [hstate, hgains.read, hgains.write]
    exact ⟨hfits, hR ▸ h.ledger.readers, h.ledger.writers, hW ▸ h.ledger.active, h.ledger.alone⟩
  · have hnil : ∀ {l l' : List (WaiterSlot RwTag)}, l.length = l'.length → (l = [] ↔ l' = []) := by
      intro l l' hl
      rw [← length_eq_zero_iff, hl, length_eq_zero_iff]
    rw [hstate]
    refine ⟨fun hzero hidle => ?_, fun hidle hws => ?_⟩
    · exact (hserved.idle hzero hidle).imp (hnil hR).mpr (hnil hW).mpr
    · exact (hnil hR).mpr (hserved.readers hidle ((hnil hW).mp hws))

/-- A reader that was let in takes its guard. -/
theorem Inv.enterRead (hkind : cell.future.kind = .read) (hid : cell.future.waiterId = some id)
    (hmem : id ∉ rs.map (·.id)) (hid' : cell'.future.waiterId = none)
    (hcounted : cell'.future.counted = cell.future.counted) (hstate : s'.state = s.state)
    (hgains : Gains s s' 1 0) :
    Inv s' rs ws := by
  have hcardR := hr.card_leaves hkind hid hid'
  have hother : cell.future.kind ≠ .write := by simp [hkind]
  have hR := h.ledger.readers
  refine ⟨?_, hr.counted h ?_, h.readOwners.no_entry hr (by simpa [hid] using hmem),
    h.writeOwners.other_kind hr hother⟩
  · rw [hstate, hgains.read, hgains.write, hr.card_other hother]
    exact ⟨h.ledger.fits, by omega, h.ledger.writers, h.ledger.active, h.ledger.alone⟩
  · rw [hcounted, h.counted f cell hr.here, hr.kind, hkind]
    simp

/-- A reader joins the queue because of a writer. -/
theorem Inv.joinRead (hkind : cell.future.kind = .read) (hid : cell.future.waiterId = none)
    (hid' : cell'.future.waiterId = some id) (hcounted : cell'.future.counted = cell.future.counted)
    (htag : tag.owner = f) (hrest : readers.Holds (rs ++ [{ id := id, waker := waker, tag := tag }]))
    (hbusy : ¬ (s.state.writerActive = false ∧ s.state.writerWaiters = 0))
    (hstate : s'.state = { s.state with readerWaiters := readers, nextWaiterId := next })
    (hgains : Gains s s' 0 0) :
    Inv s' (rs ++ [{ id := id, waker := waker, tag := tag }]) ws ∧
      (s.state.Served rs ws →
        s'.state.Served (rs ++ [{ id := id, waker := waker, tag := tag }]) ws) := by
  have hcardR := hr.card_joins hkind hid hid'
  have hother : cell.future.kind ≠ .write := by simp [hkind]
  have hR := h.ledger.readers
  have hT := h.ledger.writers
  have hA := h.ledger.active
  refine ⟨⟨?_, hr.counted h ?_, h.readOwners.push hr hid hkind htag hid',
    h.writeOwners.other_kind hr hother⟩, fun hserved => ?_⟩
  · rw [hstate, hgains.read, hgains.write, hr.card_other hother]
    refine ⟨⟨hrest, h.ledger.fits.writers⟩, ?_, hT, hA, h.ledger.alone⟩
    simp only [length_append, length_singleton]
    omega
  · rw [hcounted, h.counted f cell hr.here, hr.kind, hkind]
    simp
  · -- a writer is active or waits in its queue
    rw [hstate]
    have hwriter : s.state.writerActive = false → ws ≠ [] := by
      rintro hidle rfl
      rw [hidle, Bool.toNat_false, length_nil] at hA
      exact hbusy ⟨hidle, by omega⟩
    refine ⟨fun hzero hidle => ?_, fun hidle hws => absurd hws (hwriter hidle)⟩
    exact absurd (hserved.idle hzero hidle).2 (hwriter hidle)

/-- The writer that was let in takes its guard. -/
theorem Inv.enterWrite (hkind : cell.future.kind = .write) (hid : cell.future.waiterId = some id)
    (hmem : id ∉ ws.map (·.id)) (hid' : cell'.future.waiterId = none)
    (hcounted : cell'.future.counted = false)
    (hstate : s'.state = { s.state with writerWaiters := s.state.writerWaiters - 1 })
    (hgains : Gains s s' 0 1) :
    Inv s' rs ws := by
  have hcardW := hr.card_leaves hkind hid hid'
  have hother : cell.future.kind ≠ .read := by simp [hkind]
  have hT := h.ledger.writers
  have hA := h.ledger.active
  refine ⟨?_, hr.counted h (by simp [hcounted, hid']), h.readOwners.other_kind hr hother,
    h.writeOwners.no_entry hr (by simpa [hid] using hmem)⟩
  rw [hstate, hgains.read, hgains.write, hr.card_other hother]
  refine ⟨⟨h.ledger.fits.readers, h.ledger.fits.writers⟩, h.ledger.readers, ?_, ?_, h.ledger.alone⟩
  all_goals
    simp only
    omega

/-- A writer joins the queue. -/
theorem Inv.joinWrite (hkind : cell.future.kind = .write) (hid : cell.future.waiterId = none)
    (hid' : cell'.future.waiterId = some id) (hcounted : cell'.future.counted = true)
    (htag : tag.owner = f) (hrest : writers.Holds (ws ++ [{ id := id, waker := waker, tag := tag }]))
    (hbusy : ¬ (s.state.writerActive = false ∧ s.state.readers = 0 ∧ ws = []))
    (hstate : s'.state = { s.state with
      writerQueue := writers, writerWaiters := s.state.writerWaiters + 1, nextWaiterId := next })
    (hgains : Gains s s' 0 0) :
    Inv s' rs (ws ++ [{ id := id, waker := waker, tag := tag }]) ∧
      (s.state.Served rs ws →
        s'.state.Served rs (ws ++ [{ id := id, waker := waker, tag := tag }])) := by
  have hcardW := hr.card_joins hkind hid hid'
  have hother : cell.future.kind ≠ .read := by simp [hkind]
  have hT := h.ledger.writers
  have hA := h.ledger.active
  refine ⟨⟨?_, hr.counted h (by simp [hcounted, hr.kind, hkind, hid']),
    h.readOwners.other_kind hr hother, h.writeOwners.push hr hid hkind htag hid'⟩,
    fun hserved => ?_⟩
  · rw [hstate, hgains.read, hgains.write, hr.card_other hother]
    refine ⟨⟨h.ledger.fits.readers, hrest⟩, h.ledger.readers, ?_, ?_, h.ledger.alone⟩
    · simp only
      omega
    · simp only [length_append, length_singleton]
      omega
  · rw [hstate]
    refine ⟨fun hzero hidle => ?_, fun _ hws => absurd hws (by simp)⟩
    exact absurd ⟨hidle, hzero, (hserved.idle hzero hidle).2⟩ hbusy

end

theorem Inv.pollRead (hcell : s.futures[f]? = some cell) (hkind : cell.future.kind = .read)
    (hpoll : cell.future.pollRead s.state f waker = some result) :
    ∃ rs' ws', Inv (s.pollFuture f cell result) rs' ws' ∧
      (s.state.Served rs ws → (s.pollFuture f cell result).state.Served rs' ws') := by
  obtain ⟨hstate, -⟩ := pollFuture_frame s f cell result
  obtain ⟨hreplaces, hkept, hgranted⟩ := pollFuture_spec result hcell
  rw [hkind] at hgranted
  rw [RwFuture.pollRead] at hpoll
  cases hid : cell.future.waiterId with
  | some id =>
    rw [hid] at hpoll
    by_cases hmem : id ∈ rs.map (·.id)
    · obtain ⟨readers, hupdate, hrest⟩ := h.ledger.fits.readers.updateWaker hmem waker
      simp only [hupdate, some.injEq] at hpoll
      subst hpoll
      exact ⟨_, ws, h.refresh (hreplaces rfl) rfl rfl (h.readOwners.setWaker id waker) h.writeOwners
        (length_map _) rfl hstate (hstate ▸ ⟨hrest, h.ledger.fits.writers⟩) (hkept nofun)⟩
    · simp only [h.ledger.fits.readers.updateWaker_of_notMem hmem, some.injEq] at hpoll
      subst hpoll
      exact ⟨rs, ws, h.enterRead (hreplaces rfl) hkind hid hmem rfl rfl hstate (hgranted rfl),
        fun hserved => hstate ▸ hserved⟩
  | none =>
    rw [hid] at hpoll
    by_cases hfree : s.state.writerActive = false ∧ s.state.writerWaiters = 0
    · rw [if_pos (by simp [hfree.1, hfree.2]), some.injEq] at hpoll
      subst hpoll
      -- with no writer, the reader takes its guard at once
      obtain ⟨hledger, hserves⟩ := h.ledger.addReader hfree.1
      have hgains := hgranted rfl
      refine ⟨rs, ws, h.same_ticket (hreplaces rfl) hid.symm rfl h.readOwners h.writeOwners ?_,
        hstate ▸ hserves⟩
      rw [hstate, hgains.read, hgains.write, Nat.add_right_comm]
      exact hledger
    · rw [if_neg (by simpa using hfree), bind_eq_bind, bind_eq_some_iff] at hpoll
      obtain ⟨⟨readers, id⟩, hpush, ⟨⟩⟩ := hpoll
      obtain ⟨-, hrest⟩ := h.ledger.fits.readers.of_push hpush
      exact ⟨_, _, h.joinRead (hreplaces rfl) hkind hid rfl rfl rfl hrest hfree hstate (hkept nofun)⟩

theorem Inv.pollWrite (hcell : s.futures[f]? = some cell) (hkind : cell.future.kind = .write)
    (hpoll : cell.future.pollWrite s.state f waker = some result) :
    ∃ rs' ws', Inv (s.pollFuture f cell result) rs' ws' ∧
      (s.state.Served rs ws → (s.pollFuture f cell result).state.Served rs' ws') := by
  obtain ⟨hstate, -⟩ := pollFuture_frame s f cell result
  obtain ⟨hreplaces, hkept, hgranted⟩ := pollFuture_spec result hcell
  rw [hkind] at hgranted
  rw [RwFuture.pollWrite] at hpoll
  cases hid : cell.future.waiterId with
  | some id =>
    have hflag := h.is_counted hcell hkind hid
    rw [hid] at hpoll
    by_cases hmem : id ∈ ws.map (·.id)
    · obtain ⟨writers, hupdate, hrest⟩ := h.ledger.fits.writers.updateWaker hmem waker
      simp only [hupdate, some.injEq] at hpoll
      subst hpoll
      exact ⟨rs, _, h.refresh (hreplaces rfl) rfl rfl h.readOwners (h.writeOwners.setWaker id waker)
        rfl (length_map _) hstate (hstate ▸ ⟨h.ledger.fits.readers, hrest⟩) (hkept nofun)⟩
    · simp only [h.ledger.fits.writers.updateWaker_of_notMem hmem, some.injEq, hflag,
        if_true] at hpoll
      subst hpoll
      refine ⟨rs, ws, h.enterWrite (hreplaces rfl) hkind hid hmem rfl rfl hstate (hgranted rfl), fun hserved => ?_⟩
      rw [hstate]
      exact ⟨hserved.idle, hserved.readers⟩
  | none =>
    have hflag := h.not_counted hcell hid
    rw [hid] at hpoll
    simp only [hflag] at hpoll
    by_cases hfree : s.state.writerActive = false ∧ s.state.readers = 0 ∧ ws = []
    · have hempty := h.ledger.fits.writers.isEmpty_iff.mpr hfree.2.2
      rw [if_pos (by simp [hfree.1, hfree.2.1, hempty]), some.injEq] at hpoll
      subst hpoll
      have hgains := hgranted rfl
      refine ⟨rs, ws, h.same_ticket (hreplaces rfl) hid.symm hflag.symm h.readOwners
        h.writeOwners ?_, fun _ => .of_active (by rw [hstate])⟩
      rw [hstate, hgains.read, hgains.write]
      exact h.ledger.addWriter hfree.1 hfree.2.1
    · rw [if_neg (by simpa [h.ledger.fits.writers.isEmpty_iff, and_assoc] using hfree),
        bind_eq_bind, bind_eq_some_iff] at hpoll
      obtain ⟨⟨writers, id⟩, hpush, ⟨⟩⟩ := hpoll
      obtain ⟨-, hrest⟩ := h.ledger.fits.writers.of_push hpush
      exact ⟨_, _, h.joinWrite (hreplaces rfl) hkind hid rfl rfl rfl hrest hfree hstate (hkept nofun)⟩

end Polls

/-- A writer leaves in this step: a write guard is dropped, or a write future that was let in
gives up. -/
def WriterLeaves (s : RwLockSystem) : RwLockOp → Prop
  | .dropWrite => True
  | .poll f _ cancelled _ => cancelled = true ∧ f ∈ s.granted .write
  | .cleanup f _ => f ∈ s.granted .write
  | .dropFuture f _ => f ∈ s.granted .write
  | _ => False

/-- What every step keeps: the accounts, and on a lock that is not poisoned also that nobody
is left behind, if no writer leaves a stranding lock. -/
structure Kept (s s' : RwLockSystem) (op : RwLockOp) (rs ws rs' ws' : List (WaiterSlot RwTag)) :
    Prop where
  inv : Inv s' rs' ws'
  served : s'.poisoned = false → s.state.Served rs ws →
    ¬ (s.WriterLeaves op ∧ s.Stranding) → s'.state.Served rs' ws'

section

variable (h : Inv s rs ws) {state : RwLockState}

include h

theorem Inv.poll {waker : Waker} {cancelled outdated : Bool} (hcell : s.futures[f]? = some cell) (hold : outdated = true → s.poisoned = true)
    (hpoll : cell.future.poll s.state f s.poisoned outdated waker cancelled = some result) :
    ∃ rs' ws', Kept s (s.pollFuture f cell result) (.poll f waker cancelled outdated) rs ws rs' ws' := by
  obtain ⟨hstate, hpoisoned, -⟩ := pollFuture_frame s f cell result
  obtain ⟨hreplaces, hkept, -⟩ := pollFuture_spec result hcell
  rw [RwFuture.poll] at hpoll
  split at hpoll
  · -- polled after completion
    cases hpoll
    exact ⟨rs, ws, h.settle (hreplaces rfl) (hkept nofun) hstate rfl rfl,
      fun _ hserved _ => hstate ▸ hserved⟩
  split at hpoll
  · rename_i hcancelled
    cases hpoll
    obtain ⟨hid', hcounted, hkind⟩ := RwFuture.abandoned_spec (h.counted f cell hcell)
    have hr := hreplaces hkind
    obtain ⟨rs', ws', hinv, hserves⟩ := h.abandon hr (hkept nofun) outdated hid' hcounted hstate
    refine ⟨rs', ws', hinv, fun hhealthy hserved hcalm => hserves ?_ hserved fun hbad => ?_⟩
    · rw [hpoisoned, ← Bool.not_eq_true] at hhealthy
      rw [← Bool.not_eq_true]
      exact mt hold hhealthy
    · exact hcalm ⟨⟨hcancelled, hbad.1⟩, hbad.2⟩
  · split at hpoll
    · rename_i hbad
      cases hpoll
      exact ⟨rs, ws, h.settle (hreplaces rfl) (hkept nofun) hstate rfl rfl,
        fun _ hserved _ => hstate ▸ hserved⟩
    · cases hkind : cell.future.kind with
      | read =>
        rw [hkind] at hpoll
        obtain ⟨rs', ws', hinv, hserves⟩ := h.pollRead hcell hkind hpoll
        exact ⟨rs', ws', hinv, fun _ hserved _ => hserves hserved⟩
      | write =>
        rw [hkind] at hpoll
        obtain ⟨rs', ws', hinv, hserves⟩ := h.pollWrite hcell hkind hpoll
        exact ⟨rs', ws', hinv, fun _ hserved _ => hserves hserved⟩

theorem Inv.leave {live outdated : Bool} (hcell : s.futures[f]? = some cell)
    (hold : outdated = true → s.poisoned = true) (hop : s.WriterLeaves op ↔ f ∈ s.granted .write) :
    ∃ rs' ws', Kept s (s.leave f cell live outdated) op rs ws rs' ws' := by
  obtain ⟨hid', hcounted, hkind⟩ := abandoned_spec (h.counted f cell hcell)
  have hr : Replaces s (s.leave f cell live outdated) f cell
      { future := { cell.future.abandoned with completed := true }, live := live, cleaning := false } :=
    ⟨hcell, rfl, hkind⟩
  obtain ⟨rs', ws', hinv, hserves⟩ := h.abandon hr ⟨rfl, rfl⟩ outdated hid' hcounted rfl
  refine ⟨rs', ws', hinv, fun hhealthy hserved hcalm => hserves ?_ hserved ?_⟩
  · rw [← Bool.not_eq_true] at hhealthy ⊢
    exact mt hold hhealthy
  · rwa [hop] at hcalm

section

variable (hledger : s'.state.Ledger rs' ws' (s'.readGuards + (s.waiting .read).card) s'.writeGuards
    (s.waiting .write).card)
  (hreaders : rs'.Sublist rs) (hwriters : ws'.Sublist ws)

include hledger hreaders hwriters

/-- A step that changes no ticket. -/
theorem Inv.of_tickets (hticket : ∀ {kind f id}, s'.TicketOf kind f id ↔ s.TicketOf kind f id)
    (hcounted : ∀ (f : Nat) (cell : RwCell), s'.futures[f]? = some cell →
      (cell.future.counted = true ↔ cell.future.kind = .write ∧ cell.future.waiterId ≠ none)) :
    Inv s' rs' ws' := by
  have hwaiting : ∀ kind, s'.waiting kind = s.waiting kind := by
    intro kind
    ext f
    rw [mem_waiting_iff, mem_waiting_iff]
    exact exists_congr fun id => hticket
  have howned : ∀ {kind : RwKind} {es : List (WaiterSlot RwTag)}, Owned s kind es → Owned s' kind es :=
    fun h => ⟨h.nodup, fun e he => hticket.mpr (h.holds e he)⟩
  refine ⟨?_, hcounted, howned (h.readOwners.of_sublist hreaders),
    howned (h.writeOwners.of_sublist hwriters)⟩
  rw [hwaiting, hwaiting]
  exact hledger

/-- A step that changes no future. -/
theorem Inv.of_ledger (hfutures : s'.futures = s.futures) : Inv s' rs' ws' := by
  refine h.of_tickets hledger hreaders hwriters ?_ (hfutures ▸ h.counted)
  intro kind f id
  rw [TicketOf, TicketOf, hfutures]

end

theorem Inv.create (cell : RwCell) (hid : cell.future.waiterId = none)
    (hcounted : cell.future.counted = false) : Inv { s with futures := s.futures ++ [cell] } rs ws := by
  refine h.of_tickets h.ledger (.refl rs) (.refl ws) ?_ fun f c hc => ?_
  · intro kind f id
    constructor
    · rintro ⟨c, hc, hkind, hsome⟩
      rcases getElem?_concat_cases hc with hc | ⟨rfl, rfl⟩
      · exact ⟨c, hc, hkind, hsome⟩
      · cases hid.symm.trans hsome
    · rintro ⟨c, hc, hkind, hsome⟩
      refine ⟨c, ?_, hkind, hsome⟩
      rw [getElem?_append_left (List.getElem?_eq_some_iff.mp hc).1]
      exact hc
  · rcases getElem?_concat_cases hc with hc | ⟨rfl, rfl⟩
    · exact h.counted f c hc
    · simp [hid, hcounted]

theorem Inv.tryRead (htry : s.state.tryAcquireRead s.poisoned = .ok state) :
    Kept s ({ s with state := state }.addGuard .read) .tryRead rs ws rs ws := by
  rw [RwLockState.tryAcquireRead] at htry
  split at htry
  · cases htry
  split at htry
  · cases htry
  rename_i hfree
  cases htry
  simp only [Bool.or_eq_true, decide_eq_true_eq, not_or, Bool.not_eq_true] at hfree
  obtain ⟨hledger, hserves⟩ := h.ledger.addReader hfree.1
  refine ⟨h.of_ledger ?_ (.refl rs) (.refl ws) rfl, fun _ hserved _ => hserves hserved⟩
  rw [addGuard, Nat.add_right_comm]
  exact hledger

theorem Inv.tryWrite (htry : s.state.tryAcquireWrite s.poisoned = .ok state) :
    Kept s ({ s with state := state }.addGuard .write) .tryWrite rs ws rs ws := by
  rw [RwLockState.tryAcquireWrite] at htry
  split at htry
  · cases htry
  split at htry
  · cases htry
  rename_i hfree
  cases htry
  simp only [Bool.or_eq_true, decide_eq_true_eq, not_or, Bool.not_eq_true] at hfree
  refine ⟨h.of_ledger ?_ (.refl rs) (.refl ws) rfl, fun _ _ _ => .of_active rfl⟩
  exact h.ledger.addWriter hfree.1.1 (by omega)

theorem Inv.dropRead (hguard : 0 < s.readGuards) :
    ∃ rs' ws', Kept s { s with state := s.state.releaseReader.1, readGuards := s.readGuards - 1 }
      .dropRead rs ws rs' ws' := by
  have hledger : s.state.Ledger rs ws ((s.readGuards - 1 + (s.waiting .read).card) + 1)
      s.writeGuards (s.waiting .write).card := by
    rw [show s.readGuards - 1 + (s.waiting .read).card + 1 =
      s.readGuards + (s.waiting .read).card by omega]
    exact h.ledger
  have hin := h.readOwners.length_le
  obtain ⟨ws', hledger', hsuffix, hserves⟩ := hledger.releaseReader (by omega)
  exact ⟨rs, ws', h.of_ledger hledger' (.refl rs) hsuffix.sublist rfl,
    fun _ hserved _ => hserves hserved h.writeOwners.length_le⟩

theorem Inv.writeGuard (hguard : 0 < s.writeGuards) :
    s.state.Ledger rs ws (s.readGuards + (s.waiting .read).card) ((s.writeGuards - 1) + 1)
      (s.waiting .write).card := by
  rw [Nat.sub_add_cancel hguard]
  exact h.ledger

theorem Inv.dropWrite (hguard : 0 < s.writeGuards) :
    ∃ rs' ws', Kept s { s with
      state := (s.state.releaseWriter s.poisoned).1, writeGuards := s.writeGuards - 1 }
      .dropWrite rs ws rs' ws' := by
  have hledger := h.writeGuard hguard
  obtain ⟨-, hzero, -⟩ := hledger.writer h.writeOwners.length_le
  have hgone := hledger.writerGone h.writeOwners.length_le
  cases s.poisoned with
  | true =>
    exact ⟨rs, ws, h.of_ledger hgone (.refl rs) (.refl ws) rfl, nofun⟩
  | false =>
    obtain ⟨rs', ws', hledger', hsuffixR, hsuffixW, hserves⟩ := hgone.nextTurn rfl hzero
    refine ⟨rs', ws', h.of_ledger hledger' hsuffixR.sublist hsuffixW.sublist rfl,
      fun _ _ hcalm => hserves fun hforced => hcalm ⟨trivial, ?_⟩⟩
    exact h.stranding_of hforced.1 hforced.2.1 hforced.2.2

theorem Inv.downgrade (hguard : 0 < s.writeGuards) :
    ∃ rs' ws', Kept s { s with
      state := s.state.downgrade.1
      writeGuards := s.writeGuards - 1
      readGuards := s.readGuards + 1 } .downgrade rs ws rs' ws' := by
  obtain ⟨rs', hledger', hsuffix, hserved⟩ :=
    (h.writeGuard hguard).downgrade h.writeOwners.length_le
  refine ⟨rs', ws, h.of_ledger ?_ hsuffix.sublist (.refl ws) rfl, fun _ _ _ => hserved⟩
  rw [show s.readGuards + 1 + (s.waiting .read).card =
    s.readGuards + (s.waiting .read).card + 1 by omega]
  exact hledger'

end

/-- A lock stays poisoned. -/
theorem healthy_of_exec (hexec : s.exec op = some s') (hhealthy : s'.poisoned = false) :
    s.poisoned = false := by
  cases op with
  | create kind =>
    cases hexec
    exact hhealthy
  | poll f waker cancelled outdated =>
    obtain ⟨cell, -, hexec⟩ := bind_eq_some_iff.mp hexec
    obtain ⟨-, hexec⟩ := ite_none_right_eq_some.mp hexec
    obtain ⟨result, -, ⟨⟩⟩ := bind_eq_some_iff.mp hexec
    rwa [(pollFuture_frame ..).2.1] at hhealthy
  | cleanup f outdated | dropFuture f outdated =>
    obtain ⟨cell, -, -, rfl⟩ := bind_ite_eq_some_iff.mp hexec
    exact hhealthy
  | tryRead | tryWrite =>
    rw [exec] at hexec
    split at hexec <;> cases hexec <;> exact hhealthy
  | dropRead | dropWrite | downgrade =>
    obtain ⟨-, hexec⟩ := ite_none_right_eq_some.mp hexec
    cases hexec
    exact hhealthy
  | poison =>
    obtain ⟨-, hexec⟩ := ite_none_right_eq_some.mp hexec
    cases hexec
    cases hhealthy

theorem Inv.exec (h : Inv s rs ws) (hexec : s.exec op = some s') :
    ∃ rs' ws', Kept s s' op rs ws rs' ws' := by
  cases op with
  | create kind =>
    cases hexec
    exact ⟨rs, ws, h.create _ rfl rfl, fun _ hserved _ => hserved⟩
  | poll f waker cancelled outdated =>
    obtain ⟨cell, hcell, hexec⟩ := bind_eq_some_iff.mp hexec
    obtain ⟨hready, hexec⟩ := ite_none_right_eq_some.mp hexec
    obtain ⟨result, hpoll, ⟨⟩⟩ := bind_eq_some_iff.mp hexec
    refine h.poll hcell (fun hflag => ?_) hpoll
    simpa [hflag] using (Bool.and_eq_true_iff.mp hready).2
  | cleanup f outdated | dropFuture f outdated =>
    obtain ⟨cell, hcell, hready, rfl⟩ := bind_ite_eq_some_iff.mp hexec
    refine h.leave hcell (fun hflag => ?_) Iff.rfl
    simpa [hflag] using (Bool.and_eq_true_iff.mp hready).2
  | tryRead | tryWrite =>
    rw [RwLockSystem.exec] at hexec
    split at hexec
    · rename_i state htry
      cases hexec
      first
      | exact ⟨rs, ws, h.tryRead htry⟩
      | exact ⟨rs, ws, h.tryWrite htry⟩
    · cases hexec
      exact ⟨rs, ws, h, fun _ hserved _ => hserved⟩
  | dropRead | dropWrite | downgrade =>
    obtain ⟨hguard, hexec⟩ := ite_none_right_eq_some.mp hexec
    cases hexec
    first
    | exact h.dropRead hguard
    | exact h.dropWrite hguard
    | exact h.downgrade hguard
  | poison =>
    obtain ⟨-, hexec⟩ := ite_none_right_eq_some.mp hexec
    cases hexec
    exact ⟨rs, ws, h.of_ledger h.ledger (.refl rs) (.refl ws) rfl, nofun⟩

theorem Inv.new : Inv .new [] [] where
  ledger := ⟨⟨.new, .new⟩, rfl, rfl, rfl, nofun⟩
  counted f cell hf := by simp [RwLockSystem.new] at hf
  readOwners := ⟨nodup_nil, nofun⟩
  writeOwners := ⟨nodup_nil, nofun⟩

/-- What the counters of a lock say about its guards and futures. -/
structure Accounts (s : RwLockSystem) : Prop where
  exclusive : s.writeGuards + (s.granted .write).card ≤ 1
  alone : 0 < s.writeGuards + (s.granted .write).card →
    s.readGuards + (s.granted .read).card = 0
  active : s.state.writerActive = true ↔ s.writeGuards + (s.granted .write).card = 1
  readers : s.state.readers = s.readGuards + (s.granted .read).card
  writers : s.state.writerWaiters = (s.queued .write).card + (s.granted .write).card

theorem Inv.accounts (h : Inv s rs ws) : Accounts s := by
  obtain ⟨hgrantR, -⟩ := h.readOwners.card_granted h.ledger.fits.readers
  obtain ⟨hgrantW, hqueuedW⟩ := h.writeOwners.card_granted h.ledger.fits.writers
  have hR := h.ledger.readers
  have hT := h.ledger.writers
  have hA := h.ledger.active
  have hreaders : s.state.readers = s.readGuards + (s.granted .read).card := by omega
  have hflag : s.state.writerActive.toNat = s.writeGuards + (s.granted .write).card := by omega
  have hle := Bool.toNat_le s.state.writerActive
  refine ⟨by omega, fun hpos => ?_, ?_, hreaders, by omega⟩
  · rw [← hreaders]
    refine h.ledger.alone ?_
    rw [← Bool.toNat_eq_one]
    omega
  · rw [← hflag, Bool.toNat_eq_one]

theorem Inv.of_reachable (hs : rwLockSystem.Reachable s) : ∃ rs ws, Inv s rs ws := by
  refine hs.invariant (I := fun s => ∃ rs ws, Inv s rs ws) ?_ ?_
  · rintro s rfl
    exact ⟨[], [], .new⟩
  · rintro s op s' ⟨rs, ws, h⟩ hexec
    obtain ⟨rs', ws', hkept⟩ := h.exec hexec
    exact ⟨rs', ws', hkept.inv⟩

end RwLockSystem

/-- Exclusion and accounting, in every run of a read-write lock. -/
theorem rwlock_accounts {s : RwLockSystem} (hs : rwLockSystem.Reachable s) : s.Accounts := by
  obtain ⟨rs, ws, h⟩ := RwLockSystem.Inv.of_reachable hs
  exact h.accounts

/-- A reader and then a writer queue behind a writer; the reader is let in, the writer
waits. -/
theorem rwlock_accounts_reader_let_in : ∃ s : RwLockSystem, rwLockSystem.Reachable s ∧
    s.state.readers = 1 ∧ s.state.writerWaiters = 1 ∧ s.readGuards = 0 ∧ s.Accounts := by
  let ops : List RwLockOp := [.tryWrite, .create .read, .poll 0 { task := 0 } false false,
    .create .write, .poll 1 { task := 1 } false false, .dropWrite]
  obtain ⟨s, hrun, hreaders, hwriters, hguards⟩ : ∃ s, ops.foldlM RwLockSystem.exec .new = some s ∧
      s.state.readers = 1 ∧ s.state.writerWaiters = 1 ∧ s.readGuards = 0 := ⟨_, rfl, rfl, rfl, rfl⟩
  have hs : rwLockSystem.Reachable s :=
    ⟨.new, ops, rfl, .of_foldlM (fun _ _ _ h => h) ops hrun⟩
  exact ⟨s, hs, hreaders, hwriters, hguards, rwlock_accounts hs⟩

end Asupersync
