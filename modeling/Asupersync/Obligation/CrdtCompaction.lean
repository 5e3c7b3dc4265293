import Asupersync.Lib.TransitionSystem
import Asupersync.Obligation.CrdtConvergence

/-!
# Compaction of the obligation ledger

Runs of replicas with merge and compaction, seen from one obligation that is acquired at
most once and resolved at most once, by a replica that already counts the acquire.

A compaction writes the acquire and the resolve of a terminal entry on the account of
the compacting node.  The state of the entry is untouched, so a terminal entry is never
lost and no conflict appears.  The counters are another matter: counters of different
nodes add up, and a copy that a compaction has put on another account is counted twice
when it meets a copy of the old account.  `Compatible` says that two copies use the same
accounts; merges of compatible copies keep an entry linear, merges of others never do.
-/

namespace Asupersync

open Std Lib CrdtObligationEntry OrderedMap Gossip

variable {NodeId : Type} [LinearOrder NodeId] {counts : ExtTreeMap NodeId Nat}

/-- A map with one key. -/
def single {V : Type} (n : NodeId) (v : V) : ExtTreeMap NodeId V :=
  (∅ : ExtTreeMap NodeId V).insert n v

theorem getElem?_single {V : Type} (n a : NodeId) (v : V) :
    (single n v)[a]? = if n = a then some v else none := by
  unfold single
  rw [getElem?_insert, ExtTreeMap.getElem?_empty]

theorem countTotal_eq (counts : ExtTreeMap NodeId Nat) :
    countTotal counts = (counts.toList.map Prod.snd).sum := by
  have hfold (l : List (NodeId × Nat)) (n : Nat) :
      l.foldl (fun total entry => total + entry.2) n = n + (l.map Prod.snd).sum := by
    induction l generalizing n with
    | nil => simp
    | cons entry l ih =>
      rw [List.foldl_cons, ih, List.map_cons, List.sum_cons]
      omega
  unfold countTotal
  rw [ExtTreeMap.foldl_eq_foldl_toList, hfold, Nat.zero_add]

@[simp]
theorem countTotal_single (n : NodeId) (count : Nat) : countTotal (single n count) = count := by
  rw [countTotal_eq, show (single n count).toList = [(n, count)] from rfl]
  simp

/-- Two nodes with a counter each add up to two at least. -/
theorem two_le_countTotal {n m : NodeId} (hne : n ≠ m)
    {c d : Nat} (hn : counts[n]? = some c) (hm : counts[m]? = some d) (hc : 0 < c) (hd : 0 < d) :
    2 ≤ countTotal counts := by
  have hsub : [(n, c), (m, d)].Subperm counts.toList := by
    apply List.subperm_of_subset
    · simp [hne]
    · intro entry hentry
      rcases List.mem_pair.mp hentry with rfl | rfl
      · exact ExtTreeMap.mem_toList_iff_getElem?_eq_some.mpr hn
      · exact ExtTreeMap.mem_toList_iff_getElem?_eq_some.mpr hm
  obtain ⟨l, hperm, hsublist⟩ := hsub
  have hpair : (l.map Prod.snd).sum = c + d := by
    rw [(hperm.map Prod.snd).sum_eq]
    simp
  have hsum : (l.map Prod.snd).sum ≤ (counts.toList.map Prod.snd).sum :=
    (hsublist.map Prod.snd).sum_le_sum (fun _ _ => Nat.zero_le _)
  rw [countTotal_eq]
  omega

namespace CrdtObligationEntry

/-! ## Entries of an obligation acquired and resolved once -/

/-- What an entry of the obligation looks like, whatever has been compacted: its one kind,
its one terminal state if it is not reserved, and counters that have counted something. -/
structure Shape (kind : ObligationKind) (terminal : LatticeState)
    (e : CrdtObligationEntry NodeId) : Prop where
  repairNodes : e.repairNodes = ∅
  kind : e.kind = some kind
  state : e.state = .reserved ∨ e.state = terminal
  acquires : ∀ (n : NodeId) (count : Nat), e.acquireCounts[n]? = some count → 0 < count
  resolves : ∀ (n : NodeId) (count : Nat), e.resolveCounts[n]? = some count → 0 < count

/-- The acquire is on the account of `a` and the resolve, if there is one, on that of
`r`. -/
structure CountsAt (a r : NodeId) (e : CrdtObligationEntry NodeId) : Prop where
  acquire : e.acquireCounts = single a 1
  reserved : e.state = .reserved → e.resolveCounts = ∅
  resolved : e.state ≠ .reserved → e.resolveCounts = single r 1

/-- Two copies have their acquires on one account, and their resolves too. -/
def Compatible (e e' : CrdtObligationEntry NodeId) : Prop :=
  (∀ n m : NodeId, n ∈ e.acquireCounts → m ∈ e'.acquireCounts → n = m) ∧
    ∀ n m : NodeId, n ∈ e.resolveCounts → m ∈ e'.resolveCounts → n = m

/-- Every counter has counted something. -/
def Positive (counts : ExtTreeMap NodeId Nat) : Prop :=
  ∀ (n : NodeId) (count : Nat), counts[n]? = some count → 0 < count

theorem positive_mergeInto {counts counts' : ExtTreeMap NodeId Nat} (h : Positive counts)
    (h' : Positive counts') : Positive (mergeInto max 0 counts counts') := by
  intro n count hn
  rw [getElem?_mergeInto _ _ Nat.zero_max] at hn
  cases hc : counts[n]? with
  | none =>
    rw [hc, Option.merge_none_left] at hn
    exact h' n count hn
  | some c =>
    cases hc' : counts'[n]? with
    | none =>
      rw [hc, hc', Option.merge_none_right] at hn
      exact h n count (hc.trans hn)
    | some c' =>
      rw [hc, hc', Option.merge_some_some, Option.some.injEq] at hn
      have hpos := h n c hc
      omega

variable {kind : ObligationKind} {terminal : LatticeState} {e e' : CrdtObligationEntry NodeId}

theorem Shape.repairNodes_joinEntry (h : Shape kind terminal e) (h' : Shape kind terminal e') :
    (e.joinEntry e').repairNodes = ∅ := by
  apply ExtTreeSet.ext_mem
  intro n
  rw [mem_repairNodes_joinEntry, h.repairNodes, h'.repairNodes, or_self]

theorem Shape.mergeEntry_eq (h : Shape kind terminal e) (h' : Shape kind terminal e') :
    e.mergeEntry e' = e.joinEntry e' := by
  rw [CrdtObligationEntry.mergeEntry_eq]
  exact normalize_of_empty (h.repairNodes_joinEntry h')

/-- The state a disciplined obligation can end in. -/
def IsResolution (terminal : LatticeState) : Prop := terminal = .committed ∨ terminal = .aborted

/-- A copy that is reserved takes the state of the other. -/
theorem Shape.state_joinEntry (hterminal : IsResolution terminal) (h : Shape kind terminal e)
    (h' : Shape kind terminal e') :
    (e.joinEntry e').state = if e.state = .reserved then e'.state else e.state := by
  simp only [joinEntry]
  rw [h.kind, h'.kind, clash_self, LatticeState.join_unknown]
  rcases hterminal with rfl | rfl <;> rcases h.state with hs | hs <;>
    rcases h'.state with hs' | hs' <;> simp [hs, hs', LatticeState.join]

theorem Shape.merge (hterminal : IsResolution terminal) (h : Shape kind terminal e)
    (h' : Shape kind terminal e') :
    Shape kind terminal (e.mergeEntry e') := by
  rw [h.mergeEntry_eq h']
  refine ⟨h.repairNodes_joinEntry h', ?_, ?_, positive_mergeInto h.acquires h'.acquires,
    positive_mergeInto h.resolves h'.resolves⟩
  · simp only [joinEntry]
    rw [h.kind, h'.kind]
    simp
  · rw [h.state_joinEntry hterminal h']
    split
    · exact h'.state
    · exact h.state

variable {a r : NodeId}

theorem CountsAt.isLinear (h : CountsAt a r e) : e.isLinear = true := by
  have hacquires : e.totalAcquires = 1 := by
    unfold totalAcquires
    rw [h.acquire, countTotal_single]
  have hresolves : e.totalResolves ≤ 1 := by
    unfold totalResolves
    by_cases hs : e.state = .reserved
    · rw [h.reserved hs]
      exact Nat.zero_le 1
    · rw [h.resolved hs, countTotal_single]
  simp [CrdtObligationEntry.isLinear, hacquires, hresolves]

/-- Copies on the same accounts merge into a copy on these accounts. -/
theorem CountsAt.merge (hterminal : IsResolution terminal) (hshape : Shape kind terminal e)
    (hshape' : Shape kind terminal e') (h : CountsAt a r e) (h' : CountsAt a r e') :
    CountsAt a r (e.mergeEntry e') := by
  have hempty (m : ExtTreeMap NodeId Nat) : mergeInto max 0 m ∅ = m := by
    apply ExtTreeMap.ext_getElem?
    intro n
    exact getElem?_mergeInto_none _ _ ExtTreeMap.getElem?_empty
  have hstate : (e.joinEntry e').state = .reserved ↔
      e.state = .reserved ∧ e'.state = .reserved := by
    rw [hshape.state_joinEntry hterminal hshape']
    split <;> simp_all
  rw [hshape.mergeEntry_eq hshape']
  refine ⟨?_, ?_, ?_⟩
  · simp only [joinEntry]
    rw [h.acquire, h'.acquire, mergeInto_counts_self]
  · intro hs
    obtain ⟨hs₁, hs₂⟩ := hstate.mp hs
    simp only [joinEntry]
    rw [h.reserved hs₁, h'.reserved hs₂, hempty]
  · intro hs
    simp only [joinEntry]
    by_cases hs₁ : e.state = .reserved
    · have hs₂ : e'.state ≠ .reserved := fun hs₂ => hs (hstate.mpr ⟨hs₁, hs₂⟩)
      rw [h.reserved hs₁, h'.resolved hs₂, mergeInto_comm Nat.zero_max Nat.max_comm, hempty]
    · by_cases hs₂ : e'.state = .reserved
      · rw [h.resolved hs₁, h'.reserved hs₂, hempty]
      · rw [h.resolved hs₁, h'.resolved hs₂, mergeInto_counts_self]

theorem mem_single {V : Type} (n a : NodeId) (v : V) : a ∈ single n v ↔ n = a := by
  rw [ExtTreeMap.mem_iff_isSome_getElem?, getElem?_single]
  split <;> simp_all

/-- Compatible copies can be read on the same accounts. -/
theorem Compatible.accounts {a' r' : NodeId} (hcompatible : Compatible e e') (h : CountsAt a r e)
    (h' : CountsAt a' r' e') :
    ∃ r'', CountsAt a r'' e ∧ CountsAt a r'' e' := by
  have ha : a = a' := by
    apply hcompatible.1 a a'
    · rw [h.acquire, mem_single]
    · rw [h'.acquire, mem_single]
  subst ha
  by_cases hs : e.state = .reserved
  · exact ⟨r', ⟨h.acquire, h.reserved, fun hne => (hne hs).elim⟩, h'⟩
  · by_cases hs' : e'.state = .reserved
    · exact ⟨r, h, ⟨h'.acquire, h'.reserved, fun hne => (hne hs').elim⟩⟩
    · have hr : r = r' := by
        apply hcompatible.2 r r'
        · rw [h.resolved hs, mem_single]
        · rw [h'.resolved hs', mem_single]
      subst hr
      exact ⟨r, h, h'⟩

theorem CountsAt.compatible (h : CountsAt a r e) (h' : CountsAt a r e') : Compatible e e' := by
  constructor
  · intro n m hn hm
    rw [h.acquire, mem_single] at hn
    rw [h'.acquire, mem_single] at hm
    exact hn.symm.trans hm
  · intro n m hn hm
    have haccount {e : CrdtObligationEntry NodeId} (h : CountsAt a r e) {n : NodeId}
        (hn : n ∈ e.resolveCounts) : r = n := by
      by_cases hs : e.state = .reserved
      · rw [h.reserved hs] at hn
        exact (ExtTreeMap.not_mem_empty hn).elim
      · rwa [h.resolved hs, mem_single] at hn
    exact (haccount h hn).symm.trans (haccount h' hm)

/-- Counters on two accounts add up to a second acquire or resolve. -/
theorem two_le_countTotal_mergeInto {counts counts' : ExtTreeMap NodeId Nat} (h : Positive counts)
    (h' : Positive counts') {n m : NodeId} (hn : n ∈ counts) (hm : m ∈ counts') (hne : n ≠ m) :
    2 ≤ countTotal (mergeInto max 0 counts counts') := by
  have hpos := positive_mergeInto h h'
  obtain ⟨c, hc⟩ := Option.isSome_iff_exists.mp (ExtTreeMap.mem_iff_isSome_getElem?.mp hn)
  obtain ⟨d, hd⟩ := Option.isSome_iff_exists.mp (ExtTreeMap.mem_iff_isSome_getElem?.mp hm)
  obtain ⟨c', hc'⟩ : ∃ c', (mergeInto max 0 counts counts')[n]? = some c' := by
    rw [getElem?_mergeInto _ _ Nat.zero_max, hc]
    cases counts'[n]? <;> exact ⟨_, rfl⟩
  obtain ⟨d', hd'⟩ : ∃ d', (mergeInto max 0 counts counts')[m]? = some d' := by
    rw [getElem?_mergeInto _ _ Nat.zero_max, hd]
    cases counts[m]? <;> exact ⟨_, rfl⟩
  exact two_le_countTotal hne hc' hd' (hpos n c' hc') (hpos m d' hd')

theorem Shape.not_isLinear_merge (h : Shape kind terminal e) (h' : Shape kind terminal e')
    (hcompatible : ¬ Compatible e e') :
    (e.mergeEntry e').isLinear = false := by
  rw [h.mergeEntry_eq h']
  have htotal : 2 ≤ (e.joinEntry e').totalAcquires ∨ 2 ≤ (e.joinEntry e').totalResolves := by
    by_contra hboth
    rw [not_or, Nat.not_le, Nat.not_le] at hboth
    apply hcompatible
    constructor
    · intro n m hn hm
      by_contra hne
      have htwo := two_le_countTotal_mergeInto h.acquires h'.acquires hn hm hne
      exact absurd hboth.1 (Nat.not_lt.mpr htwo)
    · intro n m hn hm
      by_contra hne
      have htwo := two_le_countTotal_mergeInto h.resolves h'.resolves hn hm hne
      exact absurd hboth.2 (Nat.not_lt.mpr htwo)
  simp only [isLinear, Bool.and_eq_false_iff, decide_eq_false_iff_not, Nat.not_le]
  omega

end CrdtObligationEntry

/-! ## What an event does to the entry of one obligation -/

namespace CrdtObligationLedger

/-- The entry of `o` after a local operation that is no repair of `o`. -/
theorem apply_cases (l : CrdtObligationLedger NodeId) (o : ObligationId) (op : LedgerOp)
    (hrepair : op ≠ .repair o) :
    (op.apply l).entries[o]? = l.entries[o]? ∨
      (∃ kind, op = .acquire o kind ∧
        (op.apply l).entries[o]? = some ((l.entryOrNew o).recordAcquire l.localNode kind)) ∨
      (∃ terminal, (op = .commit o ∧ terminal = .committed ∨ op = .abort o ∧ terminal = .aborted) ∧
        (op.apply l).entries[o]? = some ((l.entryOrNew o).recordResolve l.localNode terminal)) ∨
      (op = .compact ∧
        (op.apply l).entries[o]? = (l.entries[o]?).map (fun e => (e.compact l.localNode).2)) := by
  have hput (id : ObligationId) (e : CrdtObligationEntry NodeId) (hne : id ≠ o) :
      (l.put id e).entries[o]? = l.entries[o]? := by
    rw [getElem?_put, if_neg hne]
  have hself (e : CrdtObligationEntry NodeId) : (l.put o e).entries[o]? = some e := by
    rw [getElem?_put, if_pos rfl]
  cases op with
  | acquire id kind =>
    rcases eq_or_ne id o with rfl | h
    · exact .inr (.inl ⟨kind, rfl, hself _⟩)
    · exact .inl (hput id _ h)
  | commit id =>
    rcases eq_or_ne id o with rfl | h
    · exact .inr (.inr (.inl ⟨.committed, .inl ⟨rfl, rfl⟩, hself _⟩))
    · exact .inl (hput id _ h)
  | abort id =>
    rcases eq_or_ne id o with rfl | h
    · exact .inr (.inr (.inl ⟨.aborted, .inr ⟨rfl, rfl⟩, hself _⟩))
    · exact .inl (hput id _ h)
  | repair id =>
    have hne : id ≠ o := fun h => hrepair (h ▸ rfl)
    refine .inl ?_
    simp only [LedgerOp.apply, forceAbortRepair]
    split
    · rfl
    · exact hput id _ hne
  | compact => exact .inr (.inr (.inr ⟨rfl, getElem?_compact l o⟩))

end CrdtObligationLedger

section Runs

variable {ι : Type}

@[simp]
theorem localNode_apply (op : LedgerOp) (l : CrdtObligationLedger NodeId) :
    (op.apply l).localNode = l.localNode := by
  cases op with
  | repair id =>
    simp only [LedgerOp.apply, CrdtObligationLedger.forceAbortRepair]
    split <;> rfl
  | _ => rfl

variable {l : CrdtObligationLedger NodeId} {o : ObligationId} {e : CrdtObligationEntry NodeId}

/-! ## Runs that acquire and resolve an obligation once -/

/-- The replica and the kind of an event that acquires `o`. -/
def acquiring (o : ObligationId) : Gossip.Event ι LedgerOp → Option (ι × ObligationKind)
  | .update i (.acquire id kind) => if id = o then some (i, kind) else none
  | _ => none

/-- The replica and the outcome of an event that resolves `o`. -/
def resolving (o : ObligationId) : Gossip.Event ι LedgerOp → Option (ι × LatticeState)
  | .update i (.commit id) => if id = o then some (i, .committed) else none
  | .update i (.abort id) => if id = o then some (i, .aborted) else none
  | _ => none

/-- The first acquire of `o`. -/
def acquireOf (o : ObligationId) (events : List (Gossip.Event ι LedgerOp)) :
    Option (ι × ObligationKind) :=
  events.findSome? (acquiring o)

/-- The first resolve of `o`. -/
def resolveOf (o : ObligationId) (events : List (Gossip.Event ι LedgerOp)) :
    Option (ι × LatticeState) :=
  events.findSome? (resolving o)

section

variable {α β : Type} {f : α → Option β} {xs : List α}

theorem findSome?_snoc_of_some {b : β} (h : xs.findSome? f = some b) (x : α) :
    (xs ++ [x]).findSome? f = some b := by
  rw [List.findSome?_append, h, Option.some_or]

theorem findSome?_snoc_of_none (h : xs.findSome? f = none) (x : α) :
    (xs ++ [x]).findSome? f = f x := by
  rw [List.findSome?_append, h, Option.none_or, List.findSome?_singleton]

end

variable {events : List (Gossip.Event ι LedgerOp)}

/-- What is known about an entry of `o` after the events: its kind is that of the
acquire, and a state other than `reserved` is that of the resolve. -/
structure Known (o : ObligationId) (events : List (Gossip.Event ι LedgerOp))
    (e : CrdtObligationEntry NodeId) : Prop where
  repairNodes : e.repairNodes = ∅
  kind : ∃ i kind, acquireOf o events = some (i, kind) ∧ e.kind = some kind
  state : e.state = .reserved ∨ ∃ i, resolveOf o events = some (i, e.state)
  acquires : ∀ (n : NodeId) (count : Nat), e.acquireCounts[n]? = some count → 0 < count
  resolves : ∀ (n : NodeId) (count : Nat), e.resolveCounts[n]? = some count → 0 < count

variable {terminal : LatticeState}

theorem isResolution_of_resolveOf {i : ι} (h : resolveOf o events = some (i, terminal)) :
    IsResolution terminal := by
  obtain ⟨event, -, hevent⟩ := List.exists_of_findSome?_eq_some h
  unfold resolving at hevent
  split at hevent
  · split at hevent <;> cases hevent
    exact .inl rfl
  · split at hevent <;> cases hevent
    exact .inr rfl
  · cases hevent

section

variable (h : Known o events e)

include h

/-- The entries known after the same events have one shape. -/
theorem Known.shape :
    ∃ kind terminal, IsResolution terminal ∧
      ∀ e' : CrdtObligationEntry NodeId, Known o events e' → Shape kind terminal e' := by
  obtain ⟨i, kind, hacquire, -⟩ := h.kind
  obtain ⟨terminal, hterminal, hstate⟩ : ∃ terminal, IsResolution terminal ∧
      ∀ i state, resolveOf o events = some (i, state) → state = terminal := by
    cases hresolve : resolveOf o events with
    | none => exact ⟨.committed, .inl rfl, nofun⟩
    | some resolve =>
      refine ⟨resolve.2, isResolution_of_resolveOf hresolve, ?_⟩
      rintro i state ⟨⟩
      rfl
  refine ⟨kind, terminal, hterminal, fun e' h' => ?_⟩
  obtain ⟨i', kind', hacquire', hkind'⟩ := h'.kind
  rw [hacquire] at hacquire'
  cases hacquire'
  refine ⟨h'.repairNodes, hkind', h'.state.imp_right ?_, h'.acquires, h'.resolves⟩
  rintro ⟨j, hj⟩
  exact hstate j _ hj

theorem Known.reserved (hnone : resolveOf o events = none) : e.state = .reserved := by
  rcases h.state with hs | ⟨j, hj⟩
  · exact hs
  · rw [hnone] at hj
    cases hj

/-- Later events take nothing back. -/
theorem Known.snoc (event : Event ι LedgerOp) : Known o (events ++ [event]) e := by
  obtain ⟨i, kind, hacquire, hkind⟩ := h.kind
  refine ⟨h.repairNodes, ⟨i, kind, findSome?_snoc_of_some hacquire event, hkind⟩,
    h.state.imp_right ?_, h.acquires, h.resolves⟩
  rintro ⟨j, hj⟩
  exact ⟨j, findSome?_snoc_of_some hj event⟩

theorem Known.merge {e' : CrdtObligationEntry NodeId} (h' : Known o events e') :
    Known o events (e.mergeEntry e') := by
  obtain ⟨kind, terminal, hterminal, hshape⟩ := h.shape
  have hmerged := (hshape e h).merge hterminal (hshape e' h')
  refine ⟨hmerged.repairNodes, ?_, ?_, hmerged.acquires, hmerged.resolves⟩
  · obtain ⟨i, kind', hacquire, hkind'⟩ := h.kind
    refine ⟨i, kind', hacquire, ?_⟩
    rw [hmerged.kind, ← (hshape e h).kind, hkind']
  · rw [(hshape e h).mergeEntry_eq (hshape e' h'),
      (hshape e h).state_joinEntry hterminal (hshape e' h')]
    split
    · exact h'.state
    · exact h.state

theorem Known.new_mergeEntry : new.mergeEntry e = e := by
  rw [mergeEntry_eq, new_joinEntry]
  exact normalize_of_empty h.repairNodes

end

/-- The entry a resolve makes of a reserved one. -/
theorem recordResolve_reserved (hempty : e.repairNodes = ∅) (hstate : e.state = .reserved)
    (n : NodeId) (hterminal : IsResolution terminal) :
    e.recordResolve n terminal =
      { e with
        state := terminal
        witnesses := e.witnesses.insert n ((e.witnesses.getD n .unknown).join terminal)
        resolveCounts := e.resolveCounts.insert n (e.resolveCounts.getD n 0 + 1) } := by
  have hnone : e.repairNodes.isEmpty = true := ExtTreeSet.isEmpty_iff.mpr hempty
  have hjoin : e.state.join terminal = terminal := by
    rw [hstate]
    rcases hterminal with rfl | rfl <;> rfl
  unfold recordResolve
  simp only [hnone, Bool.not_true, Bool.false_eq_true, if_false, hjoin]
  exact normalize_of_empty hempty

theorem positive_single (n : NodeId) : Positive (single n 1) := by
  intro m count h
  rw [getElem?_single] at h
  split at h <;> cases h
  exact Nat.one_pos

theorem positive_insert (h : Positive counts) (n : NodeId)
    (c : Nat) : Positive (counts.insert n (c + 1)) := by
  intro k count hk
  rw [getElem?_insert] at hk
  split at hk
  · cases hk
    exact Nat.succ_pos c
  · exact h k count hk

theorem Known.compact (h : Known o events e) (n : NodeId) : Known o events (e.compact n).2 := by
  rcases (normal_of_empty h.repairNodes).compact_cases n with heq | ⟨-, -, heq⟩
  · rw [heq]
    exact h
  · rw [heq]
    exact ⟨h.repairNodes, h.kind, h.state, positive_single n, positive_single n⟩

variable [DecidableEq ι] {node : ι → NodeId} {more : List (Event ι LedgerOp)}

theorem localNode_run (node : ι → NodeId) (events : List (Event ι LedgerOp)) (i : ι) :
    ((runCluster node events).replica i).localNode = node i := by
  induction events using List.reverseRecOn with
  | nil => rfl
  | append_singleton events event ih =>
    rw [runCluster_snoc]
    rcases replica_step_cases LedgerOp.apply CrdtObligationLedger.merge
        (runCluster node events) event i with heq | ⟨op, -, heq⟩ | ⟨k, l, -, -, heq⟩
    · rw [heq, ih]
    · rw [heq, localNode_apply, ih]
    · rw [heq]
      exact ih

/-- The obligation is acquired at most once and never repaired; it is resolved at most
once, by a replica whose entry already counts the acquire. -/
structure Disciplined (node : ι → NodeId) (o : ObligationId)
    (events : List (Gossip.Event ι LedgerOp)) : Prop where
  acquire : ∀ before event after, events = before ++ event :: after →
    acquiring o event ≠ none → acquireOf o before = none
  resolve : ∀ before event after i terminal, events = before ++ event :: after →
    resolving o event = some (i, terminal) →
      resolveOf o before = none ∧
        ∃ e, ((runCluster node before).replica i).entries[o]? = some e ∧ 0 < e.totalAcquires
  repair : ∀ i, .update i (.repair o) ∉ events

theorem Disciplined.left (h : Disciplined node o (events ++ more)) : Disciplined node o events := by
  refine ⟨?_, ?_, fun i hmem => h.repair i (List.mem_append_left _ hmem)⟩
  · intro before event after hsplit
    exact h.acquire before event (after ++ more) (by rw [hsplit]; simp)
  · intro before event after i terminal hsplit
    exact h.resolve before event (after ++ more) i terminal (by rw [hsplit]; simp)

/-- How a run makes the entries of `o`. -/
inductive Made (node : ι → NodeId) (o : ObligationId) :
    List (Event ι LedgerOp) → CrdtObligationEntry NodeId → Prop
  | snoc {events : List (Event ι LedgerOp)} {e : CrdtObligationEntry NodeId} (event) :
      Made node o events e → Made node o (events ++ [event]) e
  | acquire {events : List (Event ι LedgerOp)} {event i kind} :
      acquireOf o (events ++ [event]) = some (i, kind) →
      Made node o (events ++ [event]) (new.recordAcquire (node i) kind)
  | resolve {events : List (Event ι LedgerOp)} {event i terminal e} :
      resolveOf o events = none → resolveOf o (events ++ [event]) = some (i, terminal) →
      Made node o events e → Made node o (events ++ [event]) (e.recordResolve (node i) terminal)
  | compact {events : List (Event ι LedgerOp)} {i e} :
      ((runCluster node events).replica i).entries[o]? = some e → Made node o events e →
      Made node o (events ++ [.update i .compact]) (e.compact (node i)).2
  | merge {events : List (Event ι LedgerOp)} {i k l e e'} :
      (runCluster node events).published[k]? = some l →
      ((runCluster node events).replica i).entries[o]? = some e → l.entries[o]? = some e' →
      Made node o events e → Made node o events e' →
      Made node o (events ++ [.deliver i k]) (e.mergeEntry e')

theorem Made.known (h : Made node o events e) : Known o events e := by
  induction h with
  | snoc event _ ih => exact ih.snoc event
  | acquire hacquire =>
    refine ⟨rfl, ⟨_, _, hacquire, rfl⟩, .inl rfl, positive_single _, fun n count hn => ?_⟩
    cases ExtTreeMap.getElem?_empty.symm.trans hn
  | @resolve _ event _ _ _ hnone hresolve _ ih =>
    have hkept := ih.snoc event
    rw [recordResolve_reserved ih.repairNodes (ih.reserved hnone) _
      (isResolution_of_resolveOf hresolve)]
    exact ⟨ih.repairNodes, hkept.kind, .inr ⟨_, hresolve⟩, hkept.acquires,
      positive_insert hkept.resolves _ _⟩
  | compact _ _ ih => exact (ih.snoc _).compact _
  | merge _ _ _ _ _ ih ih' => exact (ih.snoc _).merge (ih'.snoc _)

theorem made_run (h : Disciplined node o events) : ∀ l, (runCluster node events).Holds l →
    ∀ e, l.entries[o]? = some e → Made node o events e := by
  induction events using List.reverseRecOn with
  | nil =>
    rintro l (⟨i, rfl⟩ | hl) e he
    · have hfresh : (runCluster node []).replica i = .new (node i) := rfl
      rw [hfresh] at he
      exact absurd he (by simp [CrdtObligationLedger.new])
    · cases hl
  | append_singleton events event ih =>
    replace ih := ih h.left
    have hold l (hl : (runCluster node events).Holds l) e (he : l.entries[o]? = some e) :=
      (ih l hl e he).snoc event
    have hreplica (i : ι) := ih _ (.inl ⟨i, rfl⟩)
    rw [runCluster_snoc]
    refine holds_step _ _ ?_ ?_ hold
    · rintro i op rfl _ e he
      have hrepair : op ≠ .repair o := by
        rintro rfl
        exact h.repair i (by simp)
      rcases ((runCluster node events).replica i).apply_cases o op hrepair with
        heq | ⟨kind, rfl, heq⟩ | ⟨terminal, hop, heq⟩ | ⟨rfl, heq⟩
      · exact hold _ (.inl ⟨i, rfl⟩) e (heq ▸ he)
      · -- Before its acquire the obligation has no entry anywhere.
        have hacquiring : acquiring o (.update i (.acquire o kind)) = some (i, kind) := by
          simp [acquiring]
        have hfirst := h.acquire events (.update i (.acquire o kind)) [] rfl (by simp [hacquiring])
        have hnone : ((runCluster node events).replica i).entries[o]? = none := by
          rw [Option.eq_none_iff_forall_not_mem]
          intro e' he'
          obtain ⟨j, kind', hj, -⟩ := (hreplica i e' he').known.kind
          rw [hfirst] at hj
          cases hj
        rw [heq, CrdtObligationLedger.entryOrNew_eq, hnone, Option.getD_none, localNode_run] at he
        cases he
        exact .acquire ((findSome?_snoc_of_none hfirst _).trans hacquiring)
      · have hresolving : resolving o (.update i op) = some (i, terminal) := by
          rcases hop with ⟨rfl, rfl⟩ | ⟨rfl, rfl⟩ <;> simp [resolving]
        obtain ⟨hfirst, e', he', -⟩ :=
          h.resolve events (.update i op) [] i terminal rfl hresolving
        rw [heq, CrdtObligationLedger.entryOrNew_of_some he', localNode_run] at he
        cases he
        exact .resolve hfirst ((findSome?_snoc_of_none hfirst _).trans hresolving)
          (hreplica i e' he')
      · rw [heq, localNode_run] at he
        obtain ⟨e', he', rfl⟩ := Option.map_eq_some_iff.mp he
        exact .compact he' (hreplica i e' he')
    · rintro i k l rfl hk _ _ e he
      have hpublished : (runCluster node events).Holds l := .inr (List.mem_of_getElem? hk)
      cases he' : l.entries[o]? with
      | none =>
        rw [CrdtObligationLedger.getElem?_merge_none he'] at he
        exact hold _ (.inl ⟨i, rfl⟩) e he
      | some e' =>
        rw [CrdtObligationLedger.getElem?_merge_some he'] at he
        cases he
        cases hmine : ((runCluster node events).replica i).entries[o]? with
        | none =>
          rw [Option.getD_none, (ih l hpublished e' he').known.new_mergeEntry]
          exact hold l hpublished e' he'
        | some mine => exact .merge hk hmine he' (hreplica i mine hmine) (ih l hpublished e' he')

/-! ## Accounts along a run -/

variable {a r : NodeId}

theorem countsAt_recordAcquire (n r : NodeId) (kind : ObligationKind) :
    CountsAt n r (new.recordAcquire n kind) := by
  exact ⟨rfl, fun _ => rfl, fun hne => (hne rfl).elim⟩

theorem countsAt_recordResolve {n : NodeId} (h : CountsAt a r e) (hempty : e.repairNodes = ∅)
    (hstate : e.state = .reserved) (hterminal : IsResolution terminal) :
    CountsAt a n (e.recordResolve n terminal) := by
  rw [recordResolve_reserved hempty hstate n hterminal]
  refine ⟨h.acquire, ?_, ?_⟩
  · intro hs
    rcases hterminal with rfl | rfl <;> cases hs
  · intro _
    simp only [h.reserved hstate]
    rfl

theorem countsAt_compact (h : CountsAt a r e) (hempty : e.repairNodes = ∅) (n : NodeId) :
    ∃ a' r', CountsAt a' r' (e.compact n).2 := by
  rcases (normal_of_empty hempty).compact_cases n with heq | ⟨-, hterminal, heq⟩
  · rw [heq]
    exact ⟨a, r, h⟩
  · rw [heq]
    refine ⟨n, n, rfl, ?_, fun _ => rfl⟩
    intro hs
    unfold isTerminal at hterminal
    rw [show e.state = .reserved from hs] at hterminal
    cases hterminal

/-- Every merge of the run joins compatible copies of `o`. -/
def CompatibleMerges (node : ι → NodeId) (o : ObligationId)
    (events : List (Gossip.Event ι LedgerOp)) : Prop :=
  ∀ before i k after l e e', events = before ++ .deliver i k :: after →
    (runCluster node before).published[k]? = some l →
      ((runCluster node before).replica i).entries[o]? = some e → l.entries[o]? = some e' →
        CrdtObligationEntry.Compatible e e'

/-- No compaction of the run rewrites an entry of `o`. -/
def CompactionKeeps (node : ι → NodeId) (o : ObligationId)
    (events : List (Gossip.Event ι LedgerOp)) : Prop :=
  ∀ before i after e, events = before ++ .update i .compact :: after →
    ((runCluster node before).replica i).entries[o]? = some e → (e.compact (node i)).2 = e

theorem CompatibleMerges.left
    (h : CompatibleMerges node o (events ++ more)) : CompatibleMerges node o events := by
  rintro before i k after l e e' rfl
  exact h before i k (after ++ more) l e e' (by simp)

theorem CompactionKeeps.left
    (h : CompactionKeeps node o (events ++ more)) : CompactionKeeps node o events := by
  rintro before i after e rfl
  exact h before i (after ++ more) e (by simp)

/-- With compatible merges every copy has its acquire and its resolve on one account
each. -/
theorem Made.counted (h : Made node o events e) (hmerges : CompatibleMerges node o events) :
    ∃ a r, CountsAt a r e := by
  induction h with
  | snoc event _ ih => exact ih hmerges.left
  | @acquire _ _ i kind _ => exact ⟨node i, node i, countsAt_recordAcquire _ _ kind⟩
  | @resolve _ _ i _ _ hnone hresolve hmade ih =>
    obtain ⟨a, r, hat⟩ := ih hmerges.left
    exact ⟨a, node i, countsAt_recordResolve hat hmade.known.repairNodes (hmade.known.reserved hnone)
      (isResolution_of_resolveOf hresolve)⟩
  | @compact _ i _ _ hmade ih =>
    obtain ⟨a, r, hat⟩ := ih hmerges.left
    exact countsAt_compact hat hmade.known.repairNodes (node i)
  | merge hk he he' hmade hmade' ih ih' =>
    obtain ⟨a, r, hat⟩ := ih hmerges.left
    obtain ⟨a', r', hat'⟩ := ih' hmerges.left
    obtain ⟨r'', hat, hat'⟩ := (hmerges _ _ _ [] _ _ _ rfl hk he he').accounts hat hat'
    obtain ⟨kind, terminal, hterminal, hshape⟩ := hmade.known.shape
    exact ⟨a, r'', hat.merge hterminal (hshape _ hmade.known) (hshape _ hmade'.known) hat'⟩

/-- The acquire is on the account of the replica that made it, and so is the resolve. -/
def OnAccounts (node : ι → NodeId) (o : ObligationId)
    (events : List (Gossip.Event ι LedgerOp)) (e : CrdtObligationEntry NodeId) : Prop :=
  ∃ i kind, acquireOf o events = some (i, kind) ∧
    CrdtObligationEntry.CountsAt (node i)
      (((resolveOf o events).map (fun resolve => node resolve.1)).getD (node i)) e

omit [DecidableEq ι] in
theorem OnAccounts.snoc (h : OnAccounts node o events e) (hknown : Known o events e)
    (event : Event ι LedgerOp) : OnAccounts node o (events ++ [event]) e := by
  obtain ⟨i, kind, hacquire, hat⟩ := h
  refine ⟨i, kind, findSome?_snoc_of_some hacquire event, ?_⟩
  cases hresolve : resolveOf o events with
  | none =>
    -- Without a resolve the copy is reserved, and reserved copies have no resolver.
    exact ⟨hat.acquire, hat.reserved, fun hne => (hne (hknown.reserved hresolve)).elim⟩
  | some outcome =>
    have hresolve' : resolveOf o (events ++ [event]) = some outcome :=
      findSome?_snoc_of_some hresolve event
    rwa [hresolve', ← hresolve]

theorem Made.onAccounts (h : Made node o events e) (hkeeps : CompactionKeeps node o events) :
    OnAccounts node o events e := by
  induction h with
  | snoc event hmade ih => exact (ih hkeeps.left).snoc hmade.known event
  | @acquire _ _ i kind hacquire => exact ⟨i, kind, hacquire, countsAt_recordAcquire _ _ kind⟩
  | @resolve _ event _ _ _ hnone hresolve hmade ih =>
    obtain ⟨i, kind, hacquire, hat⟩ := ih hkeeps.left
    refine ⟨i, kind, findSome?_snoc_of_some hacquire event, ?_⟩
    rw [hresolve, Option.map_some, Option.getD_some]
    exact countsAt_recordResolve hat hmade.known.repairNodes (hmade.known.reserved hnone)
      (isResolution_of_resolveOf hresolve)
  | compact he hmade ih =>
    rw [hkeeps _ _ [] _ rfl he]
    exact (ih hkeeps.left).snoc hmade.known _
  | merge _ _ _ hmade hmade' ih ih' =>
    obtain ⟨j, kind, hacquire, hat⟩ := (ih hkeeps.left).snoc hmade.known _
    obtain ⟨j', kind', hacquire', hat'⟩ := (ih' hkeeps.left).snoc hmade'.known _
    rw [hacquire] at hacquire'
    cases hacquire'
    obtain ⟨_, terminal, hterminal, hshape⟩ := hmade.known.shape
    exact ⟨j, kind, hacquire,
      hat.merge hterminal (hshape _ hmade.known) (hshape _ hmade'.known) hat'⟩

theorem compatibleMerges_of_compactionKeeps (h : Disciplined node o events)
    (hkeeps : CompactionKeeps node o events) : CompatibleMerges node o events := by
  rintro before i k after l e e' rfl hk he he'
  obtain ⟨j, kind, hacquire, hat⟩ := (made_run h.left _ (.inl ⟨i, rfl⟩) e he).onAccounts hkeeps.left
  obtain ⟨j', kind', hacquire', hat'⟩ :=
    (made_run h.left l (.inr (List.mem_of_getElem? hk)) e' he').onAccounts hkeeps.left
  rw [hacquire] at hacquire'
  cases hacquire'
  exact hat.compatible hat'

theorem not_mem_linearityViolations (h : ∀ e, l.entries[o]? = some e → e.isLinear = true) :
    o ∉ l.linearityViolations := by
  intro hmem
  obtain ⟨⟨id, e⟩, hentry, rfl⟩ := List.mem_map.mp hmem
  obtain ⟨hin, hviolates⟩ := List.mem_filter.mp hentry
  have hlinear := h e (ExtTreeMap.mem_toList_iff_getElem?_eq_some.mp hin)
  rw [hlinear] at hviolates
  cases hviolates

theorem Disciplined.nil (node : ι → NodeId) (o : ObligationId) : Disciplined node o [] := by
  refine ⟨?_, ?_, by simp⟩ <;> intros <;> simp_all

/-- One more event in a disciplined run. -/
theorem Disciplined.snoc (h : Disciplined node o events) (event : Event ι LedgerOp)
    (hacquire : acquiring o event ≠ none → acquireOf o events = none)
    (hresolve : ∀ i terminal, resolving o event = some (i, terminal) →
      resolveOf o events = none ∧
        ∃ e, ((runCluster node events).replica i).entries[o]? = some e ∧ 0 < e.totalAcquires)
    (hrepair : ∀ i, event ≠ .update i (.repair o)) : Disciplined node o (events ++ [event]) := by
  refine ⟨?_, ?_, ?_⟩
  · intro before event' after hsplit
    rcases snoc_cases hsplit with ⟨rfl, rfl, -⟩ | ⟨after', -, hold⟩
    · exact hacquire
    · exact h.acquire before event' after' hold
  · intro before event' after i terminal hsplit
    rcases snoc_cases hsplit with ⟨rfl, rfl, -⟩ | ⟨after', -, hold⟩
    · exact hresolve i terminal
    · exact h.resolve before event' after' i terminal hold
  · intro i hmem
    rcases List.mem_append.mp hmem with hold | hlast
    · exact h.repair i hold
    · exact hrepair i (List.mem_singleton.mp hlast).symm

end Runs

section TwoReplicas

def leaseId : ObligationId := ⟨⟨1, 0⟩⟩

/-- A replica acquires, and the other commits once it has heard of it. -/
def handedOver : List (Gossip.Event (Fin 2) LedgerOp) :=
  [.update 0 (.acquire leaseId .lease), .publish 0, .deliver 1 0, .update 1 (.commit leaseId)]

theorem disciplined_handedOver : Disciplined (fun i : Fin 2 => i.val) leaseId handedOver := by
  have h₁ := (Disciplined.nil (fun i : Fin 2 => i.val) leaseId).snoc
    (.update 0 (.acquire leaseId .lease)) (fun _ => rfl) (by rintro i t ⟨⟩) (by simp)
  have h₂ := h₁.snoc (.publish 0) (by simp [acquiring]) (by rintro i t ⟨⟩) (by simp)
  have h₃ := h₂.snoc (.deliver 1 0) (by simp [acquiring]) (by rintro i t ⟨⟩) (by simp)
  refine h₃.snoc _ (by simp [acquiring]) ?_ (by simp)
  intro i terminal hresolving
  obtain ⟨rfl, rfl⟩ : 1 = i ∧ LatticeState.committed = terminal := by
    simpa [resolving] using hresolving
  exact ⟨rfl, _, rfl, by decide⟩

/-- A commit at a replica that has not heard of the acquire. -/
def unheardAcquire : List (Gossip.Event (Fin 2) LedgerOp) :=
  [.update 0 (.acquire leaseId .lease), .update 1 (.commit leaseId)]

/-- A copy compacted by another replica comes back to the one that acquired and
committed. -/
def compactedElsewhere : List (Gossip.Event (Fin 2) LedgerOp) :=
  [.update 0 (.acquire leaseId .lease), .update 0 (.commit leaseId), .publish 0, .deliver 1 0,
    .update 1 .compact, .publish 1, .deliver 0 1]

end TwoReplicas

end Asupersync
