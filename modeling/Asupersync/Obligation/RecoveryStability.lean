import Asupersync.Obligation.CrdtCompaction
import Asupersync.Obligation.Recovery

/-!
# Recovery stabilises

Replicas whose ledgers are changed by their governors alone become quiescent after a
number of rounds that depends only on the number of obligations.

Everything a governor does to an entry takes weight from it: a reserved entry weighs
two, a conflict or a violation of linearity one.  An abort can leave a violation
behind when several replicas make it, but no more than that, and a repair leaves
nothing (`CrdtObligationEntry.Acted`).  Merging keeps what was gained.  After the
first round the replicas agree; after the second the governors have seen all that is
reserved, and from then on every round takes some weight away until none is left.
-/

namespace Asupersync

open Std Lib ExtTreeMap Option List RecoveryGovernor

variable {NodeId : Type} [LinearOrder NodeId]

namespace CrdtObligationEntry

variable {e x y : CrdtObligationEntry NodeId}

theorem Raises.trans (h : Raises e x) (h' : Raises x y) : Raises e y := by
  refine ⟨h'.normal, ?_⟩
  calc e.mergeEntry y = e.mergeEntry (x.mergeEntry y) := by rw [h'.above]
    _ = (e.mergeEntry x).mergeEntry y := (mergeEntry_assoc e x y).symm
    _ = y := by rw [h.above, h'.above]

/-- A conflict, or a violation of linearity. -/
def broken (e : CrdtObligationEntry NodeId) : Bool := e.isConflict || !e.isLinear

/-- What recovery still has to do about an entry. -/
def weight (e : CrdtObligationEntry NodeId) : Nat :=
  if e.state = .reserved then 2 else if e.broken then 1 else 0

/-- The entry `x` is what recovery has made of `e`, at one or more replicas. -/
structure Acted (e x : CrdtObligationEntry NodeId) : Prop extends Raises e x where
  heavy : 0 < e.weight
  done : x.repairNodes ≠ ∅ ∨ e.state = .reserved ∧ x.state = .aborted ∧ x.kind = e.kind

/-- Recovery has left `e` alone or made `x` of it. -/
def Moved (e x : CrdtObligationEntry NodeId) : Prop := x = e ∨ Acted e x

theorem weight_of_repaired (h : x.Normal) (hne : x.repairNodes ≠ ∅) :
    x.state = .aborted ∧ x.weight = 0 := by
  have hstate : x.state = .aborted := h ▸ state_normalize hne
  obtain ⟨owner, howner⟩ := exists_repairOwner hne
  have ⟨hacquires, hresolves⟩ : x.totalAcquires = 1 ∧ x.totalResolves = 1 := by
    rw [← show x.normalizeRepairTombstone = x from h, normalizeRepairTombstone, howner]
    exact ⟨countTotal_single owner 1, countTotal_single owner 1⟩
  have hbroken : x.broken = false := by
    simp [broken, isConflict, isLinear, LatticeState.isConflict, hstate, hacquires, hresolves]
  exact ⟨hstate, by rw [weight, hstate, hbroken]; rfl⟩

theorem Acted.state_eq (h : Acted e x) : x.state = .aborted := by
  rcases h.done with hne | ⟨-, hstate, -⟩
  · exact (weight_of_repaired h.normal hne).1
  · exact hstate

theorem Acted.weight_lt (h : Acted e x) : x.weight < e.weight := by
  rcases h.done with hne | ⟨hreserved, hstate, -⟩
  · rw [(weight_of_repaired h.normal hne).2]
    exact h.heavy
  · have hle : x.weight ≤ 1 := by
      rw [weight, hstate, if_neg nofun]
      split <;> omega
    rw [weight.eq_1 e, if_pos hreserved]
    omega

theorem Moved.weight_le (h : Moved e x) : x.weight ≤ e.weight := by
  rcases h with rfl | h
  · exact le_rfl
  · exact h.weight_lt.le

theorem Moved.raises (he : e.Normal) (h : Moved e x) : Raises e x := by
  rcases h with rfl | h
  · exact he.raises_self
  · exact h.toRaises

theorem repairNodes_of_mergeEntry (h : (x.mergeEntry y).repairNodes = ∅) :
    x.repairNodes = ∅ ∧ y.repairNodes = ∅ := by
  rw [mergeEntry_eq, repairNodes_normalize] at h
  have hnone : ∀ n, ¬(n ∈ x.repairNodes ∨ n ∈ y.repairNodes) := by
    intro n hn
    rw [← mem_repairNodes_joinEntry, h] at hn
    exact ExtTreeSet.not_mem_empty hn
  refine ⟨ExtTreeSet.ext_mem fun n => ?_, ExtTreeSet.ext_mem fun n => ?_⟩
  · exact iff_of_false (fun hn => hnone n (.inl hn)) ExtTreeSet.not_mem_empty
  · exact iff_of_false (fun hn => hnone n (.inr hn)) ExtTreeSet.not_mem_empty

/-- Merging what recovery has made of one entry keeps what was gained. -/
theorem Acted.merge (h : Acted e x) (hy : Moved e y) : Acted e (x.mergeEntry y) := by
  rcases hy with rfl | hy
  · rwa [mergeEntry_comm, h.above]
  refine ⟨⟨normal_mergeEntry x y, ?_⟩, h.heavy, ?_⟩
  · rw [← mergeEntry_assoc, h.above]
  by_cases hempty : (x.mergeEntry y).repairNodes = ∅
  · -- nobody has repaired the entry, so both have aborted it
    obtain ⟨hxnone, hynone⟩ := repairNodes_of_mergeEntry hempty
    obtain ⟨hreserved, hx, hkx⟩ := h.done.resolve_left (not_not.mpr hxnone)
    obtain ⟨-, hy', hky⟩ := hy.done.resolve_left (not_not.mpr hynone)
    rw [mergeEntry_eq, repairNodes_normalize] at hempty
    rw [mergeEntry_eq, normalize_of_empty hempty]
    refine .inr ⟨hreserved, ?_, ?_⟩
    · simp [joinEntry, hx, hy', hkx, hky]
    · simp only [joinEntry, hkx, hky]
      cases e.kind <;> simp
  · exact .inl hempty

theorem Moved.merge (he : e.Normal) (hx : Moved e x) (hy : Moved e y) :
    Moved e (x.mergeEntry y) := by
  rcases hx with rfl | hx
  · rcases hy with rfl | hy
    · exact .inl he.mergeEntry_self
    · rw [hy.above]
      exact .inr hy
  · exact .inr (hx.merge hy)

/-- Aborting an entry that was reserved. -/
theorem Moved.acted_abort (he : e.Normal) (h : Moved e x) (hreserved : e.state = .reserved)
    (n : NodeId) : Acted e (x.recordResolve n .aborted) := by
  have hraises := h.raises he
  refine ⟨hraises.trans (hraises.normal.raises_recordResolve n .aborted), ?_, ?_⟩
  · rw [weight, if_pos hreserved]
    exact Nat.two_pos
  by_cases hempty : x.repairNodes = ∅
  · have hstate : x.state.join .aborted = .aborted ∧ x.kind = e.kind := by
      rcases h with rfl | h
      · rw [hreserved]
        exact ⟨rfl, rfl⟩
      · obtain ⟨-, hx, hkind⟩ := h.done.resolve_left fun hne => hne hempty
        rw [hx]
        exact ⟨rfl, hkind⟩
    have hnone : x.repairNodes.isEmpty = true := ExtTreeSet.isEmpty_iff.mpr hempty
    rw [recordResolve, hnone, Bool.not_true, if_neg Bool.false_ne_true]
    rw [normalize_of_empty (by exact hempty)]
    exact .inr ⟨hreserved, hstate⟩
  · have hsome : x.repairNodes.isEmpty = false := by
      rw [← Bool.not_eq_true, ExtTreeSet.isEmpty_iff]
      exact hempty
    rw [recordResolve, hsome, Bool.not_false, if_pos rfl]
    exact .inl hempty

theorem sound_eq (x : CrdtObligationEntry NodeId) : (!x.isConflict && x.isLinear) = !x.broken := by
  rw [broken, Bool.not_or, Bool.not_not]

/-- Repairing an entry that is broken. -/
theorem Moved.acted_repair (he : e.Normal) (h : Moved e x) (hbroken : x.broken = true)
    (n : NodeId) : Acted e (x.forceAbortRepair n) := by
  have hraises := h.raises he
  refine ⟨hraises.trans (hraises.normal.raises_forceAbortRepair n), ?_, .inl ?_⟩
  · rcases h with rfl | h
    · rw [weight]
      split
      · exact Nat.two_pos
      · exact Nat.one_pos
    · exact h.heavy
  · rw [forceAbortRepair, sound_eq, hbroken, if_neg nofun, repairNodes_normalize]
    exact ne_empty_of_mem ((OrderedMap.mem_insert _ _ _).mpr (.inl rfl))

end CrdtObligationEntry

open CrdtObligationEntry

namespace CrdtObligationLedger

variable {m : ExtTreeMap ObligationId (CrdtObligationEntry NodeId)}
  {l l' : CrdtObligationLedger NodeId} {id : ObligationId} {e x y : CrdtObligationEntry NodeId}

def NormalEntries (m : ExtTreeMap ObligationId (CrdtObligationEntry NodeId)) : Prop :=
  ∀ (id : ObligationId) (e : CrdtObligationEntry NodeId), m[id]? = some e → e.Normal

/-- Every entry of the ledger is what recovery has made of the entry in `m`. -/
def Moved (m : ExtTreeMap ObligationId (CrdtObligationEntry NodeId))
    (l : CrdtObligationLedger NodeId) : Prop :=
  ∀ id : ObligationId, Option.Rel CrdtObligationEntry.Moved m[id]? l.entries[id]?

/-- Recovery has worked on the obligation. -/
def ActedOn (m : ExtTreeMap ObligationId (CrdtObligationEntry NodeId))
    (l : CrdtObligationLedger NodeId) (id : ObligationId) : Prop :=
  ∃ e x, m[id]? = some e ∧ l.entries[id]? = some x ∧ Acted e x

theorem moved_self (l : CrdtObligationLedger NodeId) : Moved l.entries l := by
  intro id
  cases l.entries[id]? with
  | none => exact .none
  | some e => exact .some (.inl rfl)

theorem Moved.of_some (h : Moved m l) (hid : m[id]? = some e) :
    ∃ x, l.entries[id]? = some x ∧ CrdtObligationEntry.Moved e x := by
  have hrel := h id
  rw [hid] at hrel
  generalize l.entries[id]? = found at hrel
  cases hrel with
  | some hmoved => exact ⟨_, rfl, hmoved⟩

theorem Moved.some_of (h : Moved m l) (hid : l.entries[id]? = some x) :
    ∃ e, m[id]? = some e ∧ CrdtObligationEntry.Moved e x := by
  have hrel := h id
  rw [hid] at hrel
  generalize m[id]? = found at hrel
  cases hrel with
  | some hmoved => exact ⟨_, rfl, hmoved⟩

theorem Moved.none_of (h : Moved m l) (hid : m[id]? = none) : l.entries[id]? = none := by
  cases hx : l.entries[id]? with
  | none => rfl
  | some x =>
    obtain ⟨e, he, -⟩ := h.some_of hx
    exact absurd (hid.symm.trans he) (some_ne_none e).symm

theorem Moved.normal (hm : NormalEntries m) (h : Moved m l) : l.Normal := by
  intro id x hx
  obtain ⟨e, he, hmoved⟩ := h.some_of hx
  exact (hmoved.raises (hm id e he)).normal

theorem Moved.merge (hm : NormalEntries m) (h : Moved m l) (h' : Moved m l') :
    Moved m (l.merge l') := by
  intro id
  cases hid : m[id]? with
  | none =>
    rw [getElem?_merge_none (h'.none_of hid), h.none_of hid]
    exact .none
  | some e =>
    obtain ⟨x, hx, hmoved⟩ := h.of_some hid
    obtain ⟨y, hy, hmoved'⟩ := h'.of_some hid
    rw [getElem?_merge_some hy, hx, getD_some]
    exact .some (hmoved.merge (hm id e hid) hmoved')

theorem Moved.put (h : Moved m l) (hid : m[id]? = some e) (hx : CrdtObligationEntry.Moved e x) :
    Moved m (l.put id x) := by
  intro a
  rw [getElem?_put]
  split
  next heq =>
    rw [← heq, hid]
    exact .some hx
  next => exact h a

theorem ActedOn.put {a : ObligationId} (h : ActedOn m l a) (hid : m[id]? = some e)
    (hx : l.entries[id]? = some x) (hkeep : Acted e x → Acted e y) : ActedOn m (l.put id y) a := by
  obtain ⟨e', x', he', hx', hacted⟩ := h
  by_cases heq : id = a
  · subst heq
    rw [hid, some.injEq] at he'
    rw [hx, some.injEq] at hx'
    refine ⟨e, y, hid, ?_, hkeep (he' ▸ hx' ▸ hacted)⟩
    rw [getElem?_put, if_pos rfl]
  · refine ⟨e', x', he', ?_, hacted⟩
    rw [getElem?_put, if_neg heq, hx']

/-- What a tick that began with the entries `m` has done so far: the obligations in
`acted` have been worked on, and what was reserved has been seen or aborted. -/
structure Going (now : Nat) (m : ExtTreeMap ObligationId (CrdtObligationEntry NodeId))
    (acted : Set ObligationId) (l : CrdtObligationLedger NodeId)
    (seen : ExtTreeMap ObligationId Nat) : Prop where
  moved : Moved m l
  worked : ∀ id ∈ acted, ActedOn m l id
  noted : ∀ (id : ObligationId) e, m[id]? = some e → e.state = .reserved → id ∈ seen ∨ ActedOn m l id
  times : ∀ (id : ObligationId) t, seen[id]? = some t → t ≤ now

variable {now : Nat} {acted : Set ObligationId} {seen : ExtTreeMap ObligationId Nat}

section

variable (h : Going now m acted l seen) (hm : NormalEntries m)

include h hm

theorem Going.abort (hid : m[id]? = some e) (hreserved : e.state = .reserved) :
    Going now m (insert id acted) (l.recordAbort id).2 (seen.erase id) := by
  obtain ⟨x, hx, hmoved⟩ := h.moved.of_some hid
  have hacts := hmoved.acted_abort (hm id e hid) hreserved l.localNode
  have hput : (l.recordAbort id).2 = l.put id (x.recordResolve l.localNode .aborted) := by
    rw [recordAbort, recordResolve, entryOrNew_eq, hx, getD_some]
  have hself : ActedOn m (l.put id (x.recordResolve l.localNode .aborted)) id :=
    ⟨e, _, hid, by rw [getElem?_put, if_pos rfl], hacts⟩
  rw [hput]
  refine ⟨h.moved.put hid (.inr hacts), ?_, fun a e' he' hres => ?_, fun a t ht => ?_⟩
  · rintro a (rfl | ha)
    · exact hself
    · exact (h.worked a ha).put hid hx fun _ => hacts
  · rcases h.noted a e' he' hres with hin | hacted
    · rw [mem_erase]
      by_cases heq : id = a
      · exact .inr (heq ▸ hself)
      · exact .inl ⟨by simpa using heq, hin⟩
    · exact .inr (hacted.put hid hx fun _ => hacts)
  · refine h.times a t ?_
    rw [getElem?_erase] at ht
    split at ht
    · exact absurd ht (by simp)
    · exact ht

theorem Going.repair (id : ObligationId) : Going now m acted (l.forceAbortRepair id) seen := by
  rw [forceAbortRepair]
  cases hx : l.entries[id]? with
  | none => exact h
  | some x =>
    obtain ⟨e, hid, hmoved⟩ := h.moved.some_of hx
    have hstep : CrdtObligationEntry.Moved e (x.forceAbortRepair l.localNode) ∧
        (Acted e x → Acted e (x.forceAbortRepair l.localNode)) := by
      cases hbroken : x.broken with
      | true =>
        have hacts := hmoved.acted_repair (hm id e hid) hbroken l.localNode
        exact ⟨.inr hacts, fun _ => hacts⟩
      | false =>
        rw [CrdtObligationEntry.forceAbortRepair, sound_eq, hbroken, Bool.not_false, if_pos rfl]
        exact ⟨hmoved, fun h => h⟩
    refine ⟨h.moved.put hid hstep.1, fun a ha => (h.worked a ha).put hid hx hstep.2, ?_, h.times⟩
    intro a e' he' hres
    exact (h.noted a e' he' hres).imp_right fun hacted => hacted.put hid hx hstep.2

/-- Repairing a broken entry works on it. -/
theorem Going.repair_broken (hx : l.entries[id]? = some x) (hbroken : x.broken = true) :
    Going now m (insert id acted) (l.forceAbortRepair id) seen := by
  refine { h.repair hm id with worked := ?_ }
  rintro a (rfl | ha)
  · obtain ⟨e, hid, hmoved⟩ := h.moved.some_of hx
    refine ⟨e, _, hid, ?_, hmoved.acted_repair (hm a e hid) hbroken l.localNode⟩
    rw [forceAbortRepair, hx]
    rw [getElem?_put, if_pos rfl]
  · exact (h.repair hm id).worked a ha

end

theorem mem_select {p : CrdtObligationEntry NodeId → Bool} :
    (id, e) ∈ l.select p ↔ l.entries[id]? = some e ∧ p e = true := by
  rw [select, mem_filter, mem_toList_iff_getElem?_eq_some]

end CrdtObligationLedger

namespace RecoveryGovernor

open CrdtObligationLedger

variable {config : RecoveryConfig} {now : Nat}
  {m : ExtTreeMap ObligationId (CrdtObligationEntry NodeId)} {acted : Set ObligationId}
  {s : TickState NodeId} {id : ObligationId} {e : CrdtObligationEntry NodeId}

/-- The same of the state of a tick. -/
def Going (now : Nat) (m : ExtTreeMap ObligationId (CrdtObligationEntry NodeId))
    (acted : Set ObligationId) (s : TickState NodeId) : Prop :=
  CrdtObligationLedger.Going now m acted s.ledger s.seen

section Steps

variable (hm : NormalEntries m)

include hm

section

variable (h : Going now m acted s)

include h

theorem Going.abortStale (hid : m[id]? = some e) (hreserved : e.state = .reserved) :
    Going now m acted (abortStale now s id) ∧
      (s.budget ≠ 0 → Going now m (insert id acted) (abortStale now s id)) := by
  rw [RecoveryGovernor.abortStale]
  split
  next hzero => exact ⟨h, fun hne => absurd hzero hne⟩
  next =>
    have habort := CrdtObligationLedger.Going.abort h hm hid hreserved
    exact ⟨{ habort with worked := fun a ha => habort.worked a (.inr ha) }, fun _ => habort⟩

theorem Going.resolveConflict (conflict : ObligationId × CrdtObligationEntry NodeId) :
    Going now m acted (resolveConflict config s conflict) := by
  rw [RecoveryGovernor.resolveConflict]
  split
  · exact h
  · split
    · exact CrdtObligationLedger.Going.repair h hm conflict.1
    · exact h

theorem Going.abortViolation (v : ObligationId × CrdtObligationEntry NodeId) :
    Going now m acted (abortViolation config s v) := by
  rw [RecoveryGovernor.abortViolation]
  split
  · exact h
  · split
    · exact h
    · split
      · exact CrdtObligationLedger.Going.repair h hm v.1
      · exact h

theorem Going.foldl_abortStale {ids : List ObligationId} (hids : ∀ id ∈ ids, ∃ e, m[id]? = some e ∧ e.state = .reserved) :
    Going now m acted (ids.foldl (RecoveryGovernor.abortStale now) s) := by
  refine foldlRecOn ids _ h fun s hs id hid => ?_
  obtain ⟨e, he, hreserved⟩ := hids id hid
  exact (Going.abortStale hm hs he hreserved).1

theorem Going.foldl_resolveConflict (conflicts : List (ObligationId × CrdtObligationEntry NodeId)) :
    Going now m acted (conflicts.foldl (RecoveryGovernor.resolveConflict config) s) :=
  foldlRecOn conflicts _ h fun _ hs conflict _ => Going.resolveConflict hm hs conflict

theorem Going.foldl_abortViolation (violations : List (ObligationId × CrdtObligationEntry NodeId)) :
    Going now m acted (violations.foldl (RecoveryGovernor.abortViolation config) s) :=
  foldlRecOn violations _ h fun _ hs v _ => Going.abortViolation hm hs v

end

/-- What is found stale was reserved when the tick began. -/
def SeenReserved (m : ExtTreeMap ObligationId (CrdtObligationEntry NodeId))
    (seen : ExtTreeMap ObligationId Nat) : Prop :=
  ∀ id : ObligationId, id ∈ seen → ∃ e, m[id]? = some e ∧ e.state = .reserved

omit hm in
theorem mem_findStale {seen : ExtTreeMap ObligationId Nat} {limit : Nat}
    (h : id ∈ findStale config seen now limit) : id ∈ seen := by
  rw [findStale, List.mem_map] at h
  obtain ⟨entry, hentry, rfl⟩ := h
  have hmem := (mem_filter.mp (mem_of_mem_take hentry)).1
  rw [mem_iff_isSome_getElem?, mem_toList_iff_getElem?_eq_some.mp hmem, isSome_some]

/-- A whole tick. -/
theorem Going.resolve (h : Going now m acted s) (hseen : SeenReserved m s.seen) :
    Going now m acted (resolve config now s) := by
  exact Going.foldl_abortViolation hm (Going.foldl_resolveConflict hm
    (Going.foldl_abortStale hm h fun id hid => hseen id (mem_findStale hid)) _) _

theorem Going.abortViolation_first (h : Going now m acted s) (hbudget : s.budget ≠ 0)
    (hnone : s.unresolvedConflicts = []) (hauto : config.autoAbortViolations = true)
    {v : ObligationId × CrdtObligationEntry NodeId} (hmem : v ∈ s.ledger.violations) :
    Going now m (insert v.1 acted) (RecoveryGovernor.abortViolation config s v) := by
  obtain ⟨hentry, hviolation⟩ := mem_select.mp hmem
  have hfree : v.1 ∉ s.unresolvedConflicts := by
    rw [hnone]
    exact not_mem_nil
  rw [RecoveryGovernor.abortViolation, if_neg hbudget, if_neg hfree, if_pos hauto]
  refine CrdtObligationLedger.Going.repair_broken h hm hentry ?_
  rw [broken, hviolation, Bool.or_true]

/-- A tick with a budget works on some entry, if one needs it: the first of what is
found is always dealt with. -/
theorem exists_actedOn (h : Going now m ∅ s) (hseen : SeenReserved m s.seen)
    (hbudget : s.budget ≠ 0) (hnone : s.unresolvedConflicts = [])
    (hconflicts : config.autoResolveConflicts = true)
    (hviolations : config.autoAbortViolations = true)
    (hfound : findStale config s.seen now s.budget ≠ [] ∨ s.ledger.conflicts ≠ [] ∨
      s.ledger.violations ≠ []) :
    ∃ a, ActedOn m (RecoveryGovernor.resolve config now s).ledger a := by
  rw [RecoveryGovernor.resolve]
  cases hstale : findStale config s.seen now s.budget with
  | cons a rest =>
    have hreserved : ∀ id ∈ a :: rest, ∃ e, m[id]? = some e ∧ e.state = .reserved :=
      fun id hid => hseen id (mem_findStale (hstale ▸ hid))
    obtain ⟨e, he, ha⟩ := hreserved a mem_cons_self
    have hfirst := (Going.abortStale hm h he ha).2 hbudget
    have hrest := Going.foldl_abortStale hm hfirst fun id hid =>
      hreserved id (mem_cons_of_mem a hid)
    exact ⟨a, (Going.foldl_abortViolation hm (Going.foldl_resolveConflict hm hrest _) _).worked a
      (Set.mem_insert a ∅)⟩
  | nil =>
    rw [foldl_nil]
    cases hconflict : s.ledger.conflicts.take s.budget with
    | cons c rest =>
      obtain ⟨hentry, hbroken⟩ := mem_select.mp (mem_of_mem_take (hconflict ▸ mem_cons_self))
      have hfirst : Going now m (insert c.1 ∅) (RecoveryGovernor.resolveConflict config s c) := by
        rw [RecoveryGovernor.resolveConflict, if_neg hbudget, if_pos hconflicts]
        refine CrdtObligationLedger.Going.repair_broken h hm hentry ?_
        rw [broken, hbroken, Bool.true_or]
      exact ⟨c.1, (Going.foldl_abortViolation hm (Going.foldl_resolveConflict hm hfirst rest)
        _).worked c.1 (Set.mem_insert c.1 ∅)⟩
    | nil =>
      rw [foldl_nil]
      have hviolation : s.ledger.violations ≠ [] := by
        rcases hfound with hne | hne | hne
        · exact absurd hstale hne
        · exact absurd ((take_eq_nil_iff.mp hconflict).resolve_left hbudget) hne
        · exact hne
      cases hv : s.ledger.violations.take s.budget with
      | nil => exact absurd ((take_eq_nil_iff.mp hv).resolve_left hbudget) hviolation
      | cons v rest =>
        have hmem : v ∈ s.ledger.violations := mem_of_mem_take (hv ▸ mem_cons_self)
        have hfirst := Going.abortViolation_first hm h hbudget hnone hviolations hmem
        exact ⟨v.1, (Going.foldl_abortViolation hm hfirst rest).worked v.1 (Set.mem_insert v.1 ∅)⟩

end Steps

section Tick

variable {g : RecoveryGovernor} {l : CrdtObligationLedger NodeId}

theorem mem_pending : id ∈ l.pending ↔ ∃ e, l.entries[id]? = some e ∧ e.state = .reserved := by
  simp only [pending, List.mem_map, Prod.exists, mem_select, beq_iff_eq, exists_and_right,
    exists_eq_right]

/-- A tick that leaves nothing to do reports that it is quiescent. -/
theorem isQuiescent_tick (h : ∀ (id : ObligationId) e, (g.tick l now).2.2.entries[id]? = some e →
    e.weight = 0) : (g.tick l now).1.isQuiescent = true := by
  have hempty : ∀ p : CrdtObligationEntry NodeId → Bool, (∀ e, p e = true → e.weight ≠ 0) →
      (g.tick l now).2.2.select p = [] := by
    intro p hp
    refine eq_nil_iff_forall_not_mem.mpr fun entry hmem => ?_
    obtain ⟨hentry, hpe⟩ := mem_select.mp hmem
    exact hp _ hpe (h _ _ hentry)
  have hbroken : ∀ e : CrdtObligationEntry NodeId, e.broken = true → e.weight ≠ 0 := by
    intro e he
    rw [weight, if_pos he]
    split <;> omega
  have hpending : (g.tick l now).2.2.pending = [] := by
    rw [pending, hempty, map_nil]
    intro e he
    rw [weight, if_pos (beq_iff_eq.mp he)]
    exact Nat.two_pos.ne'
  have hconflicts : (g.tick l now).2.2.conflicts = [] :=
    hempty _ fun e he => hbroken e (by rw [broken, he, Bool.true_or])
  have hviolations : (g.tick l now).2.2.violations = [] :=
    hempty _ fun e he => hbroken e (by rw [broken, he, Bool.or_true])
  show (((g.tick l now).2.2.pending.length == 0) && ((g.tick l now).2.2.conflicts.length == 0) &&
    ((g.tick l now).2.2.violations.length == 0)) = true
  rw [hpending, hconflicts, hviolations]
  rfl

theorem get_eq_reserved :
    l.get id = .reserved ↔ ∃ e, l.entries[id]? = some e ∧ e.state = .reserved := by
  rw [CrdtObligationLedger.get]
  cases l.entries[id]? <;> simp

theorem getElem?_foldl_insertIfNew (ids : List ObligationId) (seen : ExtTreeMap ObligationId Nat)
    (now : Nat) :
    (ids.foldl (fun seen id => seen.insertIfNew id now) seen)[id]? =
      seen[id]?.or (if id ∈ ids then some now else none) := by
  induction ids generalizing seen with
  | nil => simp
  | cons a ids ih =>
    rw [foldl_cons, ih, getElem?_insertIfNew]
    rcases eq_or_ne a id with rfl | hne
    · cases hseen : seen[a]? with
      | none | some t => simp [mem_iff_isSome_getElem?, hseen]
    · simp [hne, hne.symm]

/-- What is reserved has the time it was first seen, and nothing else has one. -/
theorem getElem?_updateFirstSeen (g : RecoveryGovernor) (l : CrdtObligationLedger NodeId)
    (now : Nat) (id : ObligationId) :
    (g.updateFirstSeen l now)[id]? =
      if l.get id = .reserved then some (g.firstSeenReserved[id]?.getD now) else none := by
  have hpending : id ∈ l.pending ↔ l.get id = .reserved := mem_pending.trans get_eq_reserved.symm
  rw [updateFirstSeen, getElem?_foldl_insertIfNew, getElem?_filter']
  by_cases hreserved : l.get id = .reserved
  · rw [if_pos hreserved, if_pos (hpending.mpr hreserved), hreserved]
    cases g.firstSeenReserved[id]? <;> rfl
  · rw [if_neg hreserved, if_neg (hpending.not.mpr hreserved)]
    cases g.firstSeenReserved[id]? <;> simp [hreserved]

variable (hl : l.Normal) (htimes : ∀ (id : ObligationId) t, g.firstSeenReserved[id]? = some t → t ≤ now)

theorem seenReserved_updateFirstSeen : SeenReserved l.entries (g.updateFirstSeen l now) := by
  intro id hid
  rw [mem_iff_isSome_getElem?, getElem?_updateFirstSeen] at hid
  refine get_eq_reserved.mp ?_
  by_contra hnot
  rw [if_neg hnot] at hid
  exact absurd hid (by simp)

include htimes

theorem going_start : CrdtObligationLedger.Going now l.entries ∅ l (g.updateFirstSeen l now) := by
  refine ⟨moved_self l, nofun, fun id e he hreserved => .inl ?_, fun id t ht => ?_⟩
  · rw [mem_iff_isSome_getElem?, getElem?_updateFirstSeen,
      if_pos (get_eq_reserved.mpr ⟨e, he, hreserved⟩), isSome_some]
  rw [getElem?_updateFirstSeen] at ht
  split at ht
  · rw [some.injEq] at ht
    cases hseen : g.firstSeenReserved[id]? with
    | none =>
      rw [hseen, getD_none] at ht
      exact ht.ge
    | some t' =>
      rw [hseen, getD_some] at ht
      exact ht ▸ htimes id t' hseen
  · exact absurd ht (by simp)

include hl

/-- A tick works on some entry that needs it, when all that is reserved is stale. -/
theorem exists_actedOn_tick (hbudget : 1 ≤ g.config.maxResolutionsPerTick)
    (hconflicts : g.config.autoResolveConflicts = true)
    (hviolations : g.config.autoAbortViolations = true)
    (hstale : ∀ (id : ObligationId) e, l.entries[id]? = some e → e.state = .reserved →
      ∃ t, g.firstSeenReserved[id]? = some t ∧ g.config.staleTimeoutNs ≤ now - t)
    (hid : l.entries[id]? = some e) (hheavy : 0 < e.weight) :
    ∃ a, ActedOn l.entries (g.tick l now).2.2 a := by
  refine exists_actedOn hl (going_start htimes) seenReserved_updateFirstSeen
    (Nat.one_le_iff_ne_zero.mp hbudget) rfl hconflicts hviolations ?_
  by_cases hreserved : e.state = .reserved
  · obtain ⟨t, ht, hold⟩ := hstale id e hid hreserved
    have hseen : (g.updateFirstSeen l now)[id]? = some t := by
      rw [getElem?_updateFirstSeen, if_pos (get_eq_reserved.mpr ⟨e, hid, hreserved⟩), ht, getD_some]
    have hmem : (id, t) ∈ (g.updateFirstSeen l now).toList.filter
        fun entry => decide (g.config.staleTimeoutNs ≤ now - entry.2) := by
      rw [mem_filter, mem_toList_iff_getElem?_eq_some]
      exact ⟨hseen, decide_eq_true hold⟩
    refine .inl fun hnil => ?_
    rw [findStale, map_eq_nil_iff, take_eq_nil_iff] at hnil
    rw [hnil.resolve_left (Nat.one_le_iff_ne_zero.mp hbudget)] at hmem
    exact not_mem_nil hmem
  · have hbroken : e.broken = true := by
      rw [weight, if_neg hreserved] at hheavy
      by_contra hsound
      rw [if_neg hsound] at hheavy
      exact absurd hheavy (lt_irrefl 0)
    rw [broken, Bool.or_eq_true] at hbroken
    rcases hbroken with hconflict | hviolation
    · exact .inr (.inl (ne_nil_of_mem (mem_select.mpr ⟨hid, hconflict⟩)))
    · exact .inr (.inr (ne_nil_of_mem (mem_select.mpr ⟨hid, hviolation⟩)))

end Tick

end RecoveryGovernor

namespace RecoveryCluster

open CrdtObligationLedger

variable {ι : Type} {c : RecoveryCluster ι NodeId} {now : ι → Nat} {i j : ι}

/-- What holds before the replicas tick at the times `now`. -/
structure Ready (c : RecoveryCluster ι NodeId) (now : ι → Nat) : Prop where
  normal : ∀ i, (c.ledger i).Normal
  times : ∀ i (id : ObligationId) t, (c.governor i).firstSeenReserved[id]? = some t → t ≤ now i

/-- All replicas have the same entries. -/
def Agreed (c : RecoveryCluster ι NodeId) : Prop :=
  ∀ i j, (c.ledger i).entries = (c.ledger j).entries

theorem Ready.going (h : Ready c now) (i : ι) :
    CrdtObligationLedger.Going (now i) (c.ledger i).entries ∅ ((c.tickAll now).ledger i)
      ((c.tickAll now).governor i).firstSeenReserved :=
  RecoveryGovernor.Going.resolve (h.normal i) (going_start (h.times i))
    seenReserved_updateFirstSeen

theorem Ready.normal_tickAll (h : Ready c now) (i : ι) : ((c.tickAll now).ledger i).Normal :=
  (h.going i).moved.normal (h.normal i)

variable [DecidableEq ι] {r : RecoveryRound ι} {id : ObligationId}

theorem Ready.normal_mergeMany (h : Ready c now) (merges : List (ι × ι)) (i : ι) :
    (((c.tickAll now).mergeMany merges).ledger i).Normal :=
  Gossip.exchange_invariant (fun _ _ ha _ => ha.merge) h.normal_tickAll merges i

/-- After a round the replicas agree. -/
theorem Ready.agreed_round (h : Ready c r.now) : (c.round r).Agreed := by
  intro i j
  refine entries_eq_of_view (h.normal_mergeMany r.merges i) (h.normal_mergeMany r.merges j) ?_
  exact Gossip.agree_of_exchange view_merge r.complete i j

theorem Ready.round {r r' : RecoveryRound ι} (h : Ready c r.now) (hle : ∀ i, r.now i ≤ r'.now i) :
    Ready (c.round r) r'.now :=
  ⟨h.normal_mergeMany r.merges, fun i id t ht => ((h.going i).times id t ht).trans (hle i)⟩

/-- In a round of replicas that agree, every ledger is made of the entries at its start. -/
theorem Ready.moved_mergeMany (h : Ready c now) (hagreed : c.Agreed) (merges : List (ι × ι))
    (i j : ι) : CrdtObligationLedger.Moved (c.ledger j).entries
      (((c.tickAll now).mergeMany merges).ledger i) := by
  refine Gossip.exchange_invariant (fun _ _ ha hb => ha.merge (h.normal j) hb) (fun k => ?_) merges i
  have hmoved := (h.going k).moved
  rwa [hagreed k j] at hmoved

/-- What one replica has worked on has changed everywhere after the round. -/
theorem Ready.actedOn_round (h : Ready c r.now) (hagreed : c.Agreed)
    (hacted : ActedOn (c.ledger j).entries ((c.tickAll r.now).ledger j) id) :
    ActedOn (c.ledger j).entries ((c.round r).ledger i) id := by
  obtain ⟨e, x, he, hx, hacts⟩ := hacted
  have hle : ((c.tickAll r.now).ledger j).view ≤ ((c.round r).ledger j).view :=
    Gossip.le_exchange view_merge r.merges j
  obtain ⟨y, hy, hxy⟩ := (h.normal_tickAll j).entry_le (h.normal_mergeMany r.merges j) hle hx
  obtain ⟨y', hy', hmoved⟩ := (h.moved_mergeMany hagreed r.merges j j).of_some he
  have hsame : y' = y := some.inj (hy'.symm.trans hy)
  refine ⟨e, y, he, ?_, ?_⟩
  · rw [h.agreed_round i j]
    exact hy
  · rcases hmoved with heq | hmoved
    · -- nothing that was worked on goes back to what it was
      rw [← hsame, heq, mergeEntry_comm, hacts.above] at hxy
      exact absurd hacts.weight_lt (by rw [hxy]; exact lt_irrefl _)
    · exact hsame ▸ hmoved

/-- What is reserved after a round of replicas that agree has been seen by every governor. -/
theorem Ready.seen_round (h : Ready c r.now) (hagreed : c.Agreed) {e : CrdtObligationEntry NodeId}
    (he : ((c.round r).ledger i).entries[id]? = some e) (hreserved : e.state = .reserved) :
    ∃ t, ((c.round r).governor i).firstSeenReserved[id]? = some t ∧ t ≤ r.now i := by
  obtain ⟨e', he', hmoved⟩ := (h.moved_mergeMany hagreed r.merges i i).some_of he
  have hsame : e = e' := by
    rcases hmoved with heq | hacts
    · exact heq
    · rw [hacts.state_eq] at hreserved
      exact absurd hreserved nofun
  subst hsame
  rcases (h.going i).noted id e he' hreserved with hin | hacted
  · obtain ⟨t, ht⟩ := mem_iff_isSome_getElem?.mp hin |> isSome_iff_exists.mp
    exact ⟨t, ht, (h.going i).times id t ht⟩
  · obtain ⟨e', y, he₀, hy, hacts⟩ := h.actedOn_round (i := i) hagreed hacted
    rw [he, some.injEq] at hy
    rw [hy, hacts.state_eq] at hreserved
    exact absurd hreserved nofun

section Weight

variable {ids : Finset ObligationId} {r : RecoveryRound ι}

/-- What recovery still has to do about the obligations. -/
def weightOf (ids : Finset ObligationId)
    (m : ExtTreeMap ObligationId (CrdtObligationEntry NodeId)) : Nat :=
  ∑ id ∈ ids, (m[id]?).elim 0 CrdtObligationEntry.weight

omit [DecidableEq ι] in
theorem weight_le_of_moved {m : ExtTreeMap ObligationId (CrdtObligationEntry NodeId)}
    {l : CrdtObligationLedger NodeId} (h : CrdtObligationLedger.Moved m l) (id : ObligationId) :
    (l.entries[id]?).elim 0 weight ≤ (m[id]?).elim 0 weight := by
  cases hx : l.entries[id]? with
  | none => exact Nat.zero_le _
  | some x =>
    obtain ⟨e, he, hmoved⟩ := h.some_of hx
    rw [he]
    exact hmoved.weight_le

/-- A round takes weight away, once all that is reserved is stale. -/
theorem Ready.weight_round_lt (h : Ready c r.now) (hagreed : c.Agreed)
    (hids : ∀ id : ObligationId, id ∈ (c.ledger i).entries → id ∈ ids)
    (hbudget : 1 ≤ (c.governor i).config.maxResolutionsPerTick)
    (hconflicts : (c.governor i).config.autoResolveConflicts = true)
    (hviolations : (c.governor i).config.autoAbortViolations = true)
    (hstale : ∀ (id : ObligationId) e, (c.ledger i).entries[id]? = some e → e.state = .reserved →
      ∃ t, (c.governor i).firstSeenReserved[id]? = some t ∧
        (c.governor i).config.staleTimeoutNs ≤ r.now i - t)
    (hpos : weightOf ids (c.ledger i).entries ≠ 0) :
    weightOf ids ((c.round r).ledger i).entries < weightOf ids (c.ledger i).entries := by
  obtain ⟨id, -, hne⟩ := Finset.exists_ne_zero_of_sum_ne_zero hpos
  obtain ⟨e, he, hheavy⟩ : ∃ e, (c.ledger i).entries[id]? = some e ∧ 0 < e.weight := by
    cases he : (c.ledger i).entries[id]? with
    | none =>
      rw [he] at hne
      exact absurd rfl hne
    | some e =>
      rw [he] at hne
      exact ⟨e, rfl, Nat.pos_of_ne_zero hne⟩
  obtain ⟨a, hacted⟩ := exists_actedOn_tick (h.normal i) (h.times i) hbudget
    hconflicts hviolations hstale he hheavy
  obtain ⟨e', x, he', hx, hacts⟩ := h.actedOn_round (i := i) hagreed hacted
  refine Finset.sum_lt_sum
    (fun id _ => weight_le_of_moved (h.moved_mergeMany hagreed r.merges i i) id) ⟨a, ?_, ?_⟩
  · refine hids a ?_
    rw [mem_iff_isSome_getElem?, he', isSome_some]
  · rw [he', hx]
    exact hacts.weight_lt

omit [DecidableEq ι] in
theorem weightOf_le (ids : Finset ObligationId)
    (m : ExtTreeMap ObligationId (CrdtObligationEntry NodeId)) : weightOf ids m ≤ 2 * ids.card := by
  rw [mul_comm]
  refine Finset.sum_le_card_nsmul ids _ 2 fun id _ => ?_
  cases m[id]? with
  | none => exact Nat.zero_le 2
  | some e =>
    rw [elim_some, weight]
    split
    · exact le_rfl
    · split <;> omega

/-- Nothing happens to entries that recovery has nothing to do about. -/
theorem Ready.entries_eq_of_weight (h : Ready c now) (hagreed : c.Agreed)
    (hids : ∀ id : ObligationId, id ∈ (c.ledger j).entries → id ∈ ids)
    (hzero : weightOf ids (c.ledger j).entries = 0) (merges : List (ι × ι)) (i : ι) :
    (((c.tickAll now).mergeMany merges).ledger i).entries = (c.ledger j).entries := by
  have hmoved := h.moved_mergeMany hagreed merges i j
  apply ExtTreeMap.ext_getElem?
  intro id
  cases he : (c.ledger j).entries[id]? with
  | none => exact hmoved.none_of he
  | some e =>
    obtain ⟨x, hx, hmoved⟩ := hmoved.of_some he
    have hmem : id ∈ ids := hids id (by
      rw [mem_iff_isSome_getElem?, he, isSome_some])
    have hweight := (Finset.sum_eq_zero_iff.mp hzero) id hmem
    rw [he, elim_some] at hweight
    rcases hmoved with rfl | hacts
    · exact hx
    · exact absurd hacts.heavy (by omega)

end Weight

/-- A round makes no new obligations. -/
theorem Ready.within_mergeMany {ids : Finset ObligationId} (h : Ready c now)
    (hids : ∀ i (id : ObligationId), id ∈ (c.ledger i).entries → id ∈ ids) (merges : List (ι × ι))
    (i : ι) (id : ObligationId) (hid : id ∈ (((c.tickAll now).mergeMany merges).ledger i).entries) :
    id ∈ ids := by
  revert id
  refine Gossip.exchange_invariant
    (I := fun l : CrdtObligationLedger NodeId => ∀ id : ObligationId, id ∈ l.entries → id ∈ ids)
    (fun l l' hl hl' id hid => ?_) (fun j id hid => ?_) merges i
  · by_cases hmem : id ∈ l'.entries
    · exact hl' id hmem
    · have hmerged : (l.merge l').entries[id]? = l.entries[id]? :=
        OrderedMap.getElem?_mergeInto_none _ _ (getElem?_eq_none hmem)
      rw [mem_iff_isSome_getElem?, hmerged, ← mem_iff_isSome_getElem?] at hid
      exact hl id hid
  · obtain ⟨x, hx⟩ := isSome_iff_exists.mp (mem_iff_isSome_getElem?.mp hid)
    obtain ⟨e, he, -⟩ := (h.going j).moved.some_of hx
    refine hids j id ?_
    rw [mem_iff_isSome_getElem?, he, isSome_some]

end RecoveryCluster

namespace RecoveryCluster

open CrdtObligationLedger

variable {ι : Type} [DecidableEq ι] {c : RecoveryCluster ι NodeId} {rounds : Nat → RecoveryRound ι}
  {ids : Finset ObligationId}

section Rounds

variable (hready : Ready c (rounds 0).now)
  (hspaced : ∀ k i, (rounds k).now i + (c.governor i).config.staleTimeoutNs ≤ (rounds (k + 1)).now i)

include hready hspaced

theorem ready_after (k : Nat) : Ready (c.after rounds k) (rounds k).now := by
  induction k with
  | zero => exact hready
  | succ k ih => exact ih.round fun i => (Nat.le_add_right _ _).trans (hspaced k i)

theorem agreed_after (k : Nat) : (c.after rounds (k + 1)).Agreed :=
  (ready_after hready hspaced k).agreed_round

theorem within_after (hids : ∀ i (id : ObligationId), id ∈ (c.ledger i).entries → id ∈ ids) (k : Nat) :
    ∀ i (id : ObligationId), id ∈ ((c.after rounds k).ledger i).entries → id ∈ ids := by
  induction k with
  | zero => exact hids
  | succ k ih => exact (ready_after hready hspaced k).within_mergeMany ih (rounds k).merges

omit hready hspaced in
theorem config_after (k : Nat) (i : ι) :
    ((c.after rounds k).governor i).config = (c.governor i).config := by
  induction k with
  | zero => rfl
  | succ k ih => exact ih

/-- From the third round on, every round takes weight away until none is left. -/
theorem weight_after (hids : ∀ i (id : ObligationId), id ∈ (c.ledger i).entries → id ∈ ids)
    (hconfig : ∀ i, (c.governor i).config.autoResolveConflicts = true ∧
      (c.governor i).config.autoAbortViolations = true ∧
      1 ≤ (c.governor i).config.maxResolutionsPerTick) (k : Nat) (i : ι) :
    weightOf ids ((c.after rounds (k + 2)).ledger i).entries ≤ 2 * ids.card - k := by
  induction k with
  | zero => exact weightOf_le ids _
  | succ k ih =>
    have hready' := ready_after hready hspaced (k + 2)
    have hagreed := agreed_after hready hspaced (k + 1)
    have hle : weightOf ids ((c.after rounds (k + 1 + 2)).ledger i).entries ≤
        weightOf ids ((c.after rounds (k + 2)).ledger i).entries :=
      Finset.sum_le_sum fun id _ => weight_le_of_moved (hready'.moved_mergeMany hagreed _ i i) id
    by_cases hzero : weightOf ids ((c.after rounds (k + 2)).ledger i).entries = 0
    · rw [hzero] at hle
      exact hle.trans (Nat.zero_le _)
    obtain ⟨hconflicts, hviolations, hbudget⟩ := hconfig i
    have hsame : ((c.after rounds (k + 2)).governor i).config = (c.governor i).config :=
      config_after (k + 2) i
    rw [← hsame] at hconflicts hviolations hbudget
    have hlt : weightOf ids ((c.after rounds (k + 1 + 2)).ledger i).entries <
        weightOf ids ((c.after rounds (k + 2)).ledger i).entries := by
      refine hready'.weight_round_lt hagreed (within_after hready hspaced hids (k + 2) i) hbudget
        hconflicts hviolations (fun id e he hreserved => ?_) hzero
      -- the governor has seen the obligation in the round before
      obtain ⟨t, ht, hle⟩ := (ready_after hready hspaced (k + 1)).seen_round
        (agreed_after hready hspaced k) he hreserved
      have hspace : (rounds (k + 1)).now i + (c.governor i).config.staleTimeoutNs ≤
        (rounds (k + 2)).now i := hspaced (k + 1) i
      refine ⟨t, ht, ?_⟩
      rw [config_after]
      omega
    omega

end Rounds

/-- Recovery stabilises.  Replicas start with any ledgers that can be reached and are
then changed by their governors alone, in rounds in which all replicas tick and then
merge each other.  No new obligation ever appears, and after two rounds more than
twice the number of obligations every tick is quiescent and the replicas agree, at
every moment, on states that do not change any more. -/
theorem recovery_stabilises (node : ι → NodeId) (events : List (Gossip.Event ι LedgerOp))
    (governor : ι → RecoveryGovernor) (rounds : Nat → RecoveryRound ι) (ids : Finset ObligationId)
    (hids : ∀ id, id ∈ ids ↔ ∃ i, id ∈ ((runCluster node events).replica i).entries)
    (hconfig : ∀ i, (governor i).config.autoResolveConflicts = true ∧
      (governor i).config.autoAbortViolations = true ∧
      1 ≤ (governor i).config.maxResolutionsPerTick) (hclock : ∀ i (id : ObligationId) t,
      (governor i).firstSeenReserved[id]? = some t → t ≤ (rounds 0).now i) (hspaced : ∀ k i,
      (rounds k).now i + (governor i).config.staleTimeoutNs ≤ (rounds (k + 1)).now i) :
    let c : RecoveryCluster ι NodeId := ⟨(runCluster node events).replica, governor⟩
    (∀ k n i (id : ObligationId), id ∈ ((c.during rounds k n).ledger i).entries → id ∈ ids) ∧
      ∀ k, 2 * ids.card + 2 ≤ k →
        (∀ i, ((c.after rounds k).tickOf (rounds k).now i).1.isQuiescent = true) ∧
          ∀ n i j id, ((c.during rounds k n).ledger i).get id =
            ((c.after rounds (2 * ids.card + 2)).ledger j).get id := by
  intro c
  have hready : Ready c (rounds 0).now :=
    ⟨normal_replica node events, hclock⟩
  have hstart : ∀ i (id : ObligationId), id ∈ (c.ledger i).entries → id ∈ ids := fun i id hid =>
    (hids id).mpr ⟨i, hid⟩
  have hwithin := fun k => within_after hready hspaced hstart k
  refine ⟨fun k n i id hid => ?_, fun k hk => ?_⟩
  · exact (ready_after hready hspaced k).within_mergeMany (hwithin k) _ i id hid
  -- no weight is left, so nothing changes any more
  have hstill : ∀ k, 2 * ids.card + 2 ≤ k → ∀ merges i j,
      ((((c.after rounds k).tickAll (rounds k).now).mergeMany merges).ledger i).entries =
        ((c.after rounds k).ledger j).entries := by
    intro k hk merges i j
    obtain ⟨k, rfl⟩ := Nat.exists_eq_add_of_le' (show 2 ≤ k by omega)
    have hweight := weight_after hready hspaced hstart hconfig k j
    exact (ready_after hready hspaced (k + 2)).entries_eq_of_weight
      (agreed_after hready hspaced (k + 1)) (hwithin (k + 2) j) (by omega) merges i
  have hfixed : ∀ k, 2 * ids.card + 2 ≤ k → ∀ i j, ((c.after rounds k).ledger i).entries =
      ((c.after rounds (2 * ids.card + 2)).ledger j).entries := by
    intro k hk
    induction k, hk using Nat.le_induction with
    | base => exact agreed_after hready hspaced _
    | succ k hk ih => exact fun i j => (hstill k hk (rounds k).merges i i).trans (ih i j)
  refine ⟨fun i => isQuiescent_tick fun id e he => ?_, fun n i j id => ?_⟩
  · have hentry : ((c.after rounds k).ledger i).entries[id]? = some e := by
      rw [← hstill k hk [] i i]
      exact he
    obtain ⟨k, rfl⟩ := Nat.exists_eq_add_of_le' (show 2 ≤ k by omega)
    have hweight := weight_after hready hspaced hstart hconfig k i
    have hmem : id ∈ ids := hwithin (k + 2) i id (by
      rw [ExtTreeMap.mem_iff_isSome_getElem?, hentry, Option.isSome_some])
    have hnone : weightOf ids ((c.after rounds (k + 2)).ledger i).entries = 0 := by omega
    have hzero := Finset.sum_eq_zero_iff.mp hnone id hmem
    rwa [hentry] at hzero
  · have hentries : ((c.during rounds k n).ledger i).entries =
        ((c.after rounds (2 * ids.card + 2)).ledger j).entries :=
      (hstill k hk _ i i).trans (hfixed k hk i j)
    rw [CrdtObligationLedger.get, CrdtObligationLedger.get, hentries]

/-- Two replicas, one of which has reserved an obligation that nobody resolves. -/
theorem recovery_stabilises_two_replicas :
    let events : List (Gossip.Event (Fin 2) LedgerOp) := [.update 0 (.acquire ⟨⟨0, 0⟩⟩ .lease)]
    let governor : Fin 2 → RecoveryGovernor := fun _ => .new ⟨5, 1, true, true⟩
    let rounds : Nat → RecoveryRound (Fin 2) := fun k =>
      ⟨fun _ => 5 * k, [(0, 1), (1, 0)], by decide⟩
    let c : RecoveryCluster (Fin 2) (Fin 2) := ⟨(runCluster id events).replica, governor⟩
    ∀ k, 4 ≤ k → ∀ i, ((c.after rounds k).tickOf (rounds k).now i).1.isQuiescent = true := by
  intro events governor rounds c k hk
  have hids : ∀ o : ObligationId, o ∈ ({⟨⟨0, 0⟩⟩} : Finset ObligationId) ↔
      ∃ i, o ∈ ((runCluster id events).replica i).entries := by
    intro o
    have hfirst : ((runCluster id events).replica 0).entries =
        (∅ : ExtTreeMap ObligationId (CrdtObligationEntry (Fin 2))).insert ⟨⟨0, 0⟩⟩
          (CrdtObligationEntry.new.recordAcquire 0 .lease) := rfl
    have hsecond : ((runCluster id events).replica 1).entries = ∅ := rfl
    rw [Finset.mem_singleton, Fin.exists_fin_two, hfirst, hsecond, ExtTreeMap.mem_insert,
      LawfulEqCmp.compare_eq_iff_eq]
    simp [eq_comm]
  have hstable := recovery_stabilises id events governor rounds {⟨⟨0, 0⟩⟩} hids
    (fun _ => ⟨rfl, rfl, Nat.le_refl 1⟩) (fun i o t ht => absurd ht (by simp [governor, RecoveryGovernor.new]))
    (fun k _ => Nat.le_of_eq (by simp [rounds, governor, RecoveryGovernor.new]; omega))
  exact (hstable.2 k hk).1

end RecoveryCluster

end Asupersync
