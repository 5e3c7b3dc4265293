import Asupersync.Obligation.CrdtLedger

/-!
# Convergence of the obligation ledger

A merge of two entries joins them field by field and then, if some node has repaired
the entry, projects the result onto the tombstone of the first such node.  The join of
the fields is commutative, associative and idempotent; the projection forgets exactly
what a later join would have to add again, so the laws survive it on entries that are
their own projection (`Normal`).  Every entry a cluster reaches is.

Normal entries are a join-semilattice under merge, every local operation other than
compaction goes up in it, and what a replica holds is then decided by the set of
updates it has received.
-/

namespace Asupersync

open Std Lib CrdtObligationEntry OrderedMap LatticeState CrdtObligationLedger List ExtTreeSet

instance : Std.Associative LatticeState.join := ⟨LatticeState.join_assoc⟩

instance : Std.Commutative LatticeState.join := ⟨LatticeState.join_comm⟩

variable {NodeId : Type} [LinearOrder NodeId]

namespace CrdtObligationEntry

/-! ## Kinds -/

/-- What different kinds do to the state. -/
def clash : Option ObligationKind → Option ObligationKind → LatticeState
  | some lhs, some rhs => if lhs = rhs then .unknown else .conflict
  | _, _ => .unknown

theorem mergeKind_eq (s : LatticeState) (k₁ k₂ : Option ObligationKind) :
    mergeKind s k₁ k₂ = (s.join (clash k₁ k₂), Option.merge min k₁ k₂) := by
  cases k₁ with
  | none => cases k₂ <;> simp [mergeKind, clash]
  | some lhs =>
    cases k₂ with
    | none => simp [mergeKind, clash]
    | some rhs =>
      by_cases h : lhs = rhs <;> simp [mergeKind, clash, h]

theorem clash_comm (k₁ k₂ : Option ObligationKind) : clash k₁ k₂ = clash k₂ k₁ := by
  cases k₁ <;> cases k₂ <;> simp [clash, eq_comm]

theorem clash_assoc (k₁ k₂ k₃ : Option ObligationKind) :
    (clash k₁ k₂).join (clash (Option.merge min k₁ k₂) k₃) =
      (clash k₂ k₃).join (clash k₁ (Option.merge min k₂ k₃)) := by
  cases k₁ with
  | none => cases k₂ <;> cases k₃ <;> simp [clash]
  | some a =>
    cases k₂ with
    | none => cases k₃ <;> simp [clash]
    | some b =>
      cases k₃ with
      | none => simp [clash]
      | some c =>
        rcases eq_or_ne a b with rfl | hab
        · rcases eq_or_ne a c with rfl | hac
          · simp [clash]
          · simp [clash, hac]
            split <;> rfl
        · rcases eq_or_ne b c with rfl | hbc
          · simp [clash, hab]
            split <;> rfl
          · simp [clash, hab, hbc]
            split <;> split <;> rfl

@[simp]
theorem clash_self (k : Option ObligationKind) : clash k k = .unknown := by
  cases k <;> simp [clash]

/-! ## The join of the fields -/

/-- The merge of two entries before repair marks are looked at. -/
def joinEntry (e other : CrdtObligationEntry NodeId) : CrdtObligationEntry NodeId :=
  { state := (e.state.join other.state).join (clash e.kind other.kind)
    witnesses := OrderedMap.mergeInto LatticeState.join .unknown e.witnesses other.witnesses
    repairNodes := other.repairNodes.foldl (fun nodes node => nodes.insert node) e.repairNodes
    kind := Option.merge min e.kind other.kind
    acquireCounts := OrderedMap.mergeInto max 0 e.acquireCounts other.acquireCounts
    resolveCounts := OrderedMap.mergeInto max 0 e.resolveCounts other.resolveCounts }

theorem mergeEntry_eq (e other : CrdtObligationEntry NodeId) :
    e.mergeEntry other = (e.joinEntry other).normalizeRepairTombstone := by
  unfold mergeEntry joinEntry
  rw [mergeKind_eq]

theorem mem_repairNodes_joinEntry (e other : CrdtObligationEntry NodeId) (n : NodeId) :
    n ∈ (e.joinEntry other).repairNodes ↔ n ∈ e.repairNodes ∨ n ∈ other.repairNodes := by
  rw [joinEntry, foldl_eq_foldl_toList, mem_foldl_insert_list, ExtTreeSet.mem_toList]

theorem joinEntry_comm (e₁ e₂ : CrdtObligationEntry NodeId) :
    e₁.joinEntry e₂ = e₂.joinEntry e₁ := by
  apply CrdtObligationEntry.ext
  · simp only [joinEntry]
    rw [join_comm e₁.state, clash_comm]
  · exact mergeInto_comm unknown_join join_comm _ _
  · apply ext_mem
    intro n
    rw [mem_repairNodes_joinEntry, mem_repairNodes_joinEntry, or_comm]
  · simp only [joinEntry]
    cases e₁.kind <;> cases e₂.kind <;> simp [min_comm]
  all_goals exact mergeInto_comm Nat.zero_max Nat.max_comm _ _

theorem joinEntry_assoc (e₁ e₂ e₃ : CrdtObligationEntry NodeId) :
    (e₁.joinEntry e₂).joinEntry e₃ = e₁.joinEntry (e₂.joinEntry e₃) := by
  apply CrdtObligationEntry.ext
  · have hclash := clash_assoc e₁.kind e₂.kind e₃.kind
    simp only [joinEntry]
    calc (((e₁.state.join e₂.state).join (clash e₁.kind e₂.kind)).join e₃.state).join
            (clash (Option.merge min e₁.kind e₂.kind) e₃.kind)
        = ((e₁.state.join e₂.state).join e₃.state).join
            ((clash e₁.kind e₂.kind).join
              (clash (Option.merge min e₁.kind e₂.kind) e₃.kind)) := by ac_rfl
      _ = ((e₁.state.join e₂.state).join e₃.state).join
            ((clash e₂.kind e₃.kind).join
              (clash e₁.kind (Option.merge min e₂.kind e₃.kind))) := by rw [hclash]
      _ = _ := by ac_rfl
  · exact mergeInto_assoc unknown_join join_assoc _ _ _
  · apply ext_mem
    intro n
    simp only [mem_repairNodes_joinEntry, or_assoc]
  · simp only [joinEntry]
    cases e₁.kind <;> cases e₂.kind <;> cases e₃.kind <;> simp [min_assoc]
  all_goals exact mergeInto_assoc Nat.zero_max Nat.max_assoc _ _ _

variable {e e' : CrdtObligationEntry NodeId}

/-- The fields of `e` are below those of `e'`, which has the same repair marks. -/
theorem joinEntry_eq_right (hstate : e.state.join e'.state = e'.state)
    (hwitnesses : mergeInto join .unknown e.witnesses e'.witnesses = e'.witnesses)
    (hrepair : e'.repairNodes = e.repairNodes) (hkind : e.kind = none ∨ e.kind = e'.kind)
    (hacquire : mergeInto max 0 e.acquireCounts e'.acquireCounts = e'.acquireCounts)
    (hresolve : mergeInto max 0 e.resolveCounts e'.resolveCounts = e'.resolveCounts) :
    e.joinEntry e' = e' := by
  apply CrdtObligationEntry.ext
  · simp only [joinEntry]
    rw [hstate]
    rcases hkind with hk | hk
    · rw [hk]
      simp [clash]
    · rw [hk, clash_self, join_unknown]
  · exact hwitnesses
  · apply ext_mem
    intro n
    rw [mem_repairNodes_joinEntry, hrepair, or_self]
  · simp only [joinEntry]
    rcases hkind with hk | hk
    · rw [hk]
      simp
    · rw [hk]
      cases e'.kind <;> simp
  · exact hacquire
  · exact hresolve

theorem mergeInto_counts_self (m : ExtTreeMap NodeId Nat) : mergeInto max 0 m m = m :=
  mergeInto_self Nat.zero_max Nat.max_self m

theorem joinEntry_self (e : CrdtObligationEntry NodeId) : e.joinEntry e = e :=
  joinEntry_eq_right (join_self _) (mergeInto_self unknown_join join_self _) rfl (.inr rfl)
    (mergeInto_counts_self _) (mergeInto_counts_self _)

/-! ## The projection of repaired entries -/

theorem ne_empty_of_mem {nodes : ExtTreeSet NodeId} {n : NodeId} (h : n ∈ nodes) : nodes ≠ ∅ := by
  rintro rfl
  exact not_mem_empty h

theorem repairOwner_eq_min? (e : CrdtObligationEntry NodeId) : e.repairOwner = e.repairNodes.min? :=
  min?_eq_head?_toList.symm

theorem exists_repairOwner (h : e.repairNodes ≠ ∅) : ∃ owner, e.repairOwner = some owner := by
  rw [repairOwner_eq_min?]
  exact Option.ne_none_iff_exists'.mp (mt min?_eq_none_iff.mp h)

theorem normalize_of_empty (h : e.repairNodes = ∅) : e.normalizeRepairTombstone = e := by
  unfold normalizeRepairTombstone
  rw [repairOwner_eq_min?, min?_eq_none_iff.mpr h]

@[simp]
theorem repairNodes_normalize (e : CrdtObligationEntry NodeId) :
    e.normalizeRepairTombstone.repairNodes = e.repairNodes := by
  unfold normalizeRepairTombstone
  split <;> rfl

@[simp]
theorem kind_normalize (e : CrdtObligationEntry NodeId) :
    e.normalizeRepairTombstone.kind = e.kind := by
  unfold normalizeRepairTombstone
  split <;> rfl

/-- The tombstone of a repaired entry is made of its repair marks and its kind. -/
theorem normalize_congr (h : e.repairNodes ≠ ∅) (hrepair : e'.repairNodes = e.repairNodes)
    (hkind : e'.kind = e.kind) :
    e'.normalizeRepairTombstone = e.normalizeRepairTombstone := by
  obtain ⟨owner, howner⟩ := exists_repairOwner h
  have howner' : e'.repairOwner = some owner := by
    unfold repairOwner at howner ⊢
    rw [hrepair, howner]
  unfold normalizeRepairTombstone
  rw [howner, howner', hrepair, hkind]

theorem state_normalize (h : e.repairNodes ≠ ∅) : e.normalizeRepairTombstone.state = .aborted := by
  obtain ⟨owner, howner⟩ := exists_repairOwner h
  unfold normalizeRepairTombstone
  rw [howner]

/-- The entry is its own projection. -/
def Normal (e : CrdtObligationEntry NodeId) : Prop := e.normalizeRepairTombstone = e

theorem normal_normalize (e : CrdtObligationEntry NodeId) : e.normalizeRepairTombstone.Normal := by
  unfold Normal
  by_cases h : e.repairNodes = ∅
  · rw [normalize_of_empty h, normalize_of_empty h]
  · exact normalize_congr h (repairNodes_normalize e) (kind_normalize e)

theorem normal_of_empty (h : e.repairNodes = ∅) : e.Normal :=
  normalize_of_empty h

theorem Normal.repairNodes_eq (h : e.Normal) (hlive : e.isTerminal = false) :
    e.repairNodes = ∅ := by
  by_contra hne
  have hstate : e.state = .aborted := h ▸ state_normalize hne
  unfold isTerminal at hlive
  rw [hstate] at hlive
  cases hlive

/-- Projecting one side first makes no difference to a merge. -/
theorem normalize_joinEntry (e other : CrdtObligationEntry NodeId) :
    (e.normalizeRepairTombstone.joinEntry other).normalizeRepairTombstone =
      (e.joinEntry other).normalizeRepairTombstone := by
  by_cases h : e.repairNodes = ∅
  · rw [normalize_of_empty h]
  have hne : (e.joinEntry other).repairNodes ≠ ∅ := by
    obtain ⟨owner, howner⟩ := exists_repairOwner h
    rw [repairOwner_eq_min?] at howner
    have hmem : owner ∈ e.repairNodes := min?_mem howner
    exact ne_empty_of_mem ((mem_repairNodes_joinEntry e other owner).mpr (.inl hmem))
  refine normalize_congr hne ?_ ?_
  · simp only [joinEntry, repairNodes_normalize]
  · simp only [joinEntry, kind_normalize]

/-! ## The laws of merge -/

theorem mergeEntry_comm (e₁ e₂ : CrdtObligationEntry NodeId) :
    e₁.mergeEntry e₂ = e₂.mergeEntry e₁ := by
  rw [mergeEntry_eq, mergeEntry_eq, joinEntry_comm]

theorem mergeEntry_normalize (e other : CrdtObligationEntry NodeId) :
    e.normalizeRepairTombstone.mergeEntry other = e.mergeEntry other := by
  rw [mergeEntry_eq, mergeEntry_eq, normalize_joinEntry]

theorem mergeEntry_assoc (e₁ e₂ e₃ : CrdtObligationEntry NodeId) :
    (e₁.mergeEntry e₂).mergeEntry e₃ = e₁.mergeEntry (e₂.mergeEntry e₃) := by
  calc (e₁.mergeEntry e₂).mergeEntry e₃
      = (e₁.joinEntry e₂).mergeEntry e₃ := by rw [mergeEntry_eq e₁, mergeEntry_normalize]
    _ = e₁.mergeEntry (e₂.joinEntry e₃) := by
        rw [mergeEntry_eq, mergeEntry_eq, joinEntry_assoc]
    _ = (e₂.joinEntry e₃).mergeEntry e₁ := mergeEntry_comm _ _
    _ = (e₂.mergeEntry e₃).mergeEntry e₁ := by rw [mergeEntry_eq e₂, mergeEntry_normalize]
    _ = e₁.mergeEntry (e₂.mergeEntry e₃) := mergeEntry_comm _ _

theorem Normal.mergeEntry_self (h : e.Normal) : e.mergeEntry e = e := by
  rw [mergeEntry_eq, joinEntry_self]
  exact h

theorem normal_mergeEntry (e other : CrdtObligationEntry NodeId) : (e.mergeEntry other).Normal := by
  exact normal_normalize _

theorem isTerminal_normalize (h : e.isTerminal = true) :
    e.normalizeRepairTombstone.isTerminal = true := by
  by_cases hempty : e.repairNodes = ∅
  · rw [normalize_of_empty hempty]
    exact h
  · unfold isTerminal
    rw [state_normalize hempty]
    rfl

/-- A terminal entry stays terminal in every merge. -/
theorem isTerminal_mergeEntry (h : e.isTerminal = true) (other : CrdtObligationEntry NodeId) :
    (e.mergeEntry other).isTerminal = true := by
  rw [mergeEntry_eq]
  apply isTerminal_normalize
  unfold isTerminal at h ⊢
  simp [joinEntry, isTerminal_join, h]

/-- Compaction puts a terminal entry on the account of the compacting node, or leaves it
alone. -/
theorem Normal.compact_cases (h : e.Normal) (n : NodeId) :
    (e.compact n).2 = e ∨ (e.repairNodes = ∅ ∧ e.isTerminal = true ∧ (e.compact n).2 =
      { e with
        witnesses := (∅ : ExtTreeMap NodeId LatticeState).insert n e.state
        acquireCounts := (∅ : ExtTreeMap NodeId Nat).insert n 1
        resolveCounts := (∅ : ExtTreeMap NodeId Nat).insert n 1 }) := by
  unfold compact
  split
  · rename_i hterminal
    simp only [Bool.and_eq_true] at hterminal
    unfold compactTerminalTombstone
    split
    · exact .inl rfl
    · split
      · exact .inl h
      · rename_i hempty
        exact .inr ⟨by simpa using hempty, hterminal.1.1, rfl⟩
  · exact .inl rfl

/-! ## Local operations go up -/

/-- `e'` is a normal entry above `e` in the merge order. -/
structure Raises (e e' : CrdtObligationEntry NodeId) : Prop where
  normal : e'.Normal
  above : e.mergeEntry e' = e'

theorem Normal.raises_self (h : e.Normal) : Raises e e :=
  ⟨h, h.mergeEntry_self⟩

/-- Raising the fields of an entry that has not been repaired. -/
theorem raises_of_joinEntry (hjoin : e.joinEntry e' = e') (hempty : e'.repairNodes = ∅) :
    Raises e e' := by
  refine ⟨normal_of_empty hempty, ?_⟩
  rw [mergeEntry_eq, hjoin]
  exact normalize_of_empty hempty

theorem mergeInto_joinWitness (m : ExtTreeMap NodeId LatticeState) (n : NodeId) (s : LatticeState) :
    mergeInto join .unknown m (m.insert n ((m.getD n .unknown).join s)) =
      m.insert n ((m.getD n .unknown).join s) :=
  mergeInto_insert unknown_join join_self m (join_join_self _ _)

theorem mergeInto_increment (m : ExtTreeMap NodeId Nat) (n : NodeId) :
    mergeInto max 0 m (m.insert n (m.getD n 0 + 1)) = m.insert n (m.getD n 0 + 1) :=
  mergeInto_insert Nat.zero_max Nat.max_self m (Nat.max_eq_right (Nat.le_succ _))

/-- Counting an acquire raises the entry, also when it is the one that sets the kind. -/
theorem raises_acquired (e : CrdtObligationEntry NodeId) (hempty : e.repairNodes = ∅)
    (localNode : NodeId) (kind : Option ObligationKind) (hkind : e.kind = none ∨ e.kind = kind) :
    Raises e (recordAcquire.acquired localNode { e with kind := kind }) := by
  refine raises_of_joinEntry (joinEntry_eq_right ?_ ?_ rfl hkind ?_ ?_) hempty
  · exact join_join_self _ _
  · exact mergeInto_joinWitness e.witnesses localNode .reserved
  · exact mergeInto_increment e.acquireCounts localNode
  · exact mergeInto_counts_self e.resolveCounts

theorem Normal.raises_recordAcquire (h : e.Normal) (localNode : NodeId) (kind : ObligationKind) :
    Raises e (e.recordAcquire localNode kind) := by
  unfold recordAcquire
  split
  · exact h.raises_self
  rename_i hlive
  have hempty := h.repairNodes_eq (Bool.eq_false_iff.mpr hlive)
  split
  · split
    · refine raises_of_joinEntry (joinEntry_eq_right ?_ ?_ rfl (.inr rfl) ?_ ?_) hempty
      · exact join_join_self _ _
      · exact mergeInto_joinWitness e.witnesses localNode .conflict
      · exact mergeInto_counts_self e.acquireCounts
      · exact mergeInto_counts_self e.resolveCounts
    · exact raises_acquired e hempty localNode e.kind (.inr rfl)
  · rename_i hnone
    exact raises_acquired e hempty localNode (some kind) (.inl hnone)

theorem Normal.raises_recordResolve (h : e.Normal) (localNode : NodeId) (terminal : LatticeState) :
    Raises e (e.recordResolve localNode terminal) := by
  unfold recordResolve
  split
  · exact h.raises_self
  rename_i hrepaired
  have hempty : e.repairNodes = ∅ := by
    simpa using hrepaired
  rw [normalize_of_empty (by exact hempty)]
  refine raises_of_joinEntry (joinEntry_eq_right ?_ ?_ rfl (.inr rfl) ?_ ?_) hempty
  · exact join_join_self _ _
  · exact mergeInto_joinWitness e.witnesses localNode terminal
  · exact mergeInto_counts_self e.acquireCounts
  · exact mergeInto_increment e.resolveCounts localNode

theorem Normal.raises_forceAbortRepair (h : e.Normal) (localNode : NodeId) :
    Raises e (e.forceAbortRepair localNode) := by
  unfold forceAbortRepair
  split
  · exact h.raises_self
  refine ⟨normal_normalize _, ?_⟩
  -- The new mark is in the join already, so the join has the same tombstone.
  let marked : CrdtObligationEntry NodeId :=
    { e with repairNodes := e.repairNodes.insert localNode }
  have hne : marked.repairNodes ≠ ∅ := ne_empty_of_mem ((mem_insert _ _ _).mpr (.inl rfl))
  rw [mergeEntry_comm, mergeEntry_normalize, mergeEntry_eq]
  refine normalize_congr hne ?_ ?_
  · apply ext_mem
    intro n
    rw [mem_repairNodes_joinEntry, OrderedMap.mem_insert]
    exact or_iff_left_of_imp .inr
  · simp only [joinEntry]
    cases e.kind <;> simp

end CrdtObligationEntry

/-! ## The lattice of normal entries -/

/-- An entry that is its own projection. -/
def NormalEntry (NodeId : Type) [LinearOrder NodeId] : Type :=
  { e : CrdtObligationEntry NodeId // e.Normal }

instance : Max (NormalEntry NodeId) :=
  ⟨fun a b => ⟨a.1.mergeEntry b.1, CrdtObligationEntry.normal_mergeEntry _ _⟩⟩

instance : SemilatticeSup (NormalEntry NodeId) :=
  SemilatticeSup.mk'
    (fun a b => Subtype.ext (CrdtObligationEntry.mergeEntry_comm a.1 b.1))
    (fun a b c => Subtype.ext (CrdtObligationEntry.mergeEntry_assoc a.1 b.1 c.1))
    (fun a => Subtype.ext a.2.mergeEntry_self)

/-- The merge order: `a` is below `b` if merging `a` into `b` changes nothing. -/
theorem NormalEntry.le_iff {a b : NormalEntry NodeId} : a ≤ b ↔ a.1.mergeEntry b.1 = b.1 := by
  exact Subtype.ext_iff

def CrdtObligationEntry.toNormal (e : CrdtObligationEntry NodeId) : NormalEntry NodeId :=
  ⟨e.normalizeRepairTombstone, CrdtObligationEntry.normal_normalize e⟩

theorem CrdtObligationEntry.toNormal_mergeEntry (e other : CrdtObligationEntry NodeId) :
    (e.mergeEntry other).toNormal = e.toNormal ⊔ other.toNormal := by
  apply Subtype.ext
  show (e.mergeEntry other).normalizeRepairTombstone =
    e.normalizeRepairTombstone.mergeEntry other.normalizeRepairTombstone
  rw [mergeEntry_normalize, mergeEntry_comm e other.normalizeRepairTombstone,
    mergeEntry_normalize, mergeEntry_comm other e]
  exact normal_mergeEntry e other

theorem CrdtObligationEntry.new_joinEntry (e : CrdtObligationEntry NodeId) :
    new.joinEntry e = e := by
  apply CrdtObligationEntry.ext
  · simp [joinEntry, new, clash]
  · apply ExtTreeMap.ext_getElem?
    simp [joinEntry, new, getElem?_mergeInto _ _ unknown_join]
  · apply ext_mem
    intro n
    rw [mem_repairNodes_joinEntry]
    exact or_iff_right not_mem_empty
  · simp [joinEntry, new]
  all_goals
    apply ExtTreeMap.ext_getElem?
    simp [joinEntry, new, getElem?_mergeInto _ _ Nat.zero_max]

theorem CrdtObligationEntry.Raises.toNormal_le {e e' : CrdtObligationEntry NodeId}
    (h : Raises e e') : e.toNormal ≤ e'.toNormal := by
  rw [NormalEntry.le_iff]
  show e.normalizeRepairTombstone.mergeEntry e'.normalizeRepairTombstone =
    e'.normalizeRepairTombstone
  rw [h.normal, mergeEntry_normalize, h.above]

namespace CrdtObligationLedger

/-- What a ledger says about every obligation; nothing about one it does not have. -/
def view (l : CrdtObligationLedger NodeId) : ObligationId → WithBot (NormalEntry NodeId) :=
  fun id =>
    match l.entries[id]? with
    | some e => e.toNormal
    | none => ⊥

variable {l : CrdtObligationLedger NodeId} {id : ObligationId} {e : CrdtObligationEntry NodeId}
  {l' : CrdtObligationLedger NodeId}

theorem view_of_some (h : l.entries[id]? = some e) : l.view id = e.toNormal := by
  unfold view
  rw [h]

theorem view_of_none (h : l.entries[id]? = none) : l.view id = ⊥ := by
  unfold view
  rw [h]

/-- Every entry is its own projection. -/
def Normal (l : CrdtObligationLedger NodeId) : Prop :=
  ∀ (id : ObligationId) (e : CrdtObligationEntry NodeId), l.entries[id]? = some e → e.Normal

theorem Normal.getElem?_eq (hl : l.Normal) (id : ObligationId) :
    l.entries[id]? = Option.map Subtype.val (l.view id) := by
  cases he : l.entries[id]? with
  | none =>
    rw [view_of_none he]
    rfl
  | some e =>
    rw [view_of_some he]
    exact congrArg some (hl id e he).symm

theorem entries_eq_of_view (hl : l.Normal) (hl' : l'.Normal)
    (h : l.view = l'.view) : l.entries = l'.entries := by
  apply ExtTreeMap.ext_getElem?
  intro id
  rw [hl.getElem?_eq, hl'.getElem?_eq, h]

section

variable {other : CrdtObligationLedger NodeId}

theorem getElem?_merge_none (h : other.entries[id]? = none) :
    (l.merge other).entries[id]? = l.entries[id]? :=
  getElem?_mergeInto_none _ _ h

theorem getElem?_merge_some (h : other.entries[id]? = some e) :
    (l.merge other).entries[id]? = some ((l.entries[id]?.getD .new).mergeEntry e) :=
  getElem?_mergeInto_some _ _ h

end

/-- The merge of two ledgers is the join of what they say. -/
theorem view_merge (l other : CrdtObligationLedger NodeId) :
    (l.merge other).view = l.view ⊔ other.view := by
  funext id
  rw [Pi.sup_apply]
  cases ho : other.entries[id]? with
  | none =>
    rw [view_of_none ho, sup_bot_eq]
    unfold view
    rw [getElem?_merge_none ho]
  | some e' =>
    rw [view_of_some ho, view_of_some (getElem?_merge_some ho)]
    cases hl : l.entries[id]? with
    | none =>
      rw [view_of_none hl, bot_sup_eq, Option.getD_none]
      refine congrArg _ (Subtype.ext ?_)
      rw [mergeEntry_eq, new_joinEntry]
      exact normal_normalize e'
    | some e =>
      rw [view_of_some hl, Option.getD_some, toNormal_mergeEntry]
      rfl

/-! ## Local operations on a ledger -/

theorem getElem?_put (l : CrdtObligationLedger NodeId) (id : ObligationId)
    (e : CrdtObligationEntry NodeId) (a : ObligationId) :
    (l.put id e).entries[a]? = if id = a then some e else l.entries[a]? :=
  getElem?_insert l.entries id a e

theorem entryOrNew_eq (l : CrdtObligationLedger NodeId) (id : ObligationId) :
    l.entryOrNew id = (l.entries[id]?).getD .new :=
  getD_eq l.entries id .new

theorem entryOrNew_of_some (he : l.entries[id]? = some e) : l.entryOrNew id = e := by
  rw [entryOrNew_eq, he, Option.getD_some]

theorem Normal.entryOrNew (hl : l.Normal) (id : ObligationId) : (l.entryOrNew id).Normal := by
  rw [entryOrNew_eq]
  cases he : l.entries[id]? with
  | none => exact normal_of_empty rfl
  | some e => exact hl id e he

/-- `l'` is a normal ledger that says at least what `l` says. -/
structure Raises (l l' : CrdtObligationLedger NodeId) : Prop where
  normal : l'.Normal
  above : l.view ≤ l'.view

theorem Normal.raises_put (hl : l.Normal) (he : (l.entryOrNew id).Raises e) :
    l.Raises (l.put id e) := by
  constructor
  · intro a e' he'
    rw [getElem?_put] at he'
    split at he'
    · cases he'
      exact he.normal
    · exact hl a e' he'
  intro a
  by_cases ha : id = a
  · subst ha
    have hput : (l.put id e).entries[id]? = some e := by
      rw [getElem?_put, if_pos rfl]
    rw [view_of_some hput]
    cases hold : l.entries[id]? with
    | none =>
      rw [view_of_none hold]
      exact bot_le
    | some old =>
      rw [view_of_some hold]
      rw [entryOrNew_eq, hold] at he
      exact WithBot.coe_le_coe.mpr he.toNormal_le
  · have hput : (l.put id e).entries[a]? = l.entries[a]? := by
      rw [getElem?_put, if_neg ha]
    unfold view
    rw [hput]

/-- Every local operation but compaction only adds to what a ledger says. -/
theorem Normal.raises_apply (hl : l.Normal) {op : LedgerOp} (hop : op ≠ .compact) :
    l.Raises (op.apply l) := by
  cases op with
  | acquire id kind => exact hl.raises_put ((hl.entryOrNew id).raises_recordAcquire _ kind)
  | commit id => exact hl.raises_put ((hl.entryOrNew id).raises_recordResolve _ .committed)
  | abort id => exact hl.raises_put ((hl.entryOrNew id).raises_recordResolve _ .aborted)
  | repair id =>
    simp only [LedgerOp.apply, forceAbortRepair]
    split
    · exact ⟨hl, le_rfl⟩
    · rename_i e he
      refine hl.raises_put ?_
      rw [entryOrNew_of_some he]
      exact (hl id e he).raises_forceAbortRepair _
  | compact => exact (hop rfl).elim

theorem Normal.merge {other : CrdtObligationLedger NodeId} (hl : l.Normal) :
    (l.merge other).Normal := by
  intro id e he
  cases ho : other.entries[id]? with
  | none =>
    exact hl id e (getElem?_merge_none ho ▸ he)
  | some e' =>
    rw [getElem?_merge_some ho, Option.some.injEq] at he
    rw [← he]
    exact normal_mergeEntry _ _

theorem getElem?_compact (l : CrdtObligationLedger NodeId) (o : ObligationId) :
    l.compact.2.entries[o]? = (l.entries[o]?).map (fun e => (e.compact l.localNode).2) :=
  ExtTreeMap.getElem?_map

/-- Compacting a ledger keeps its entries normal. -/
theorem Normal.compact (hl : l.Normal) : l.compact.2.Normal := by
  intro id e he
  rw [getElem?_compact, Option.map_eq_some_iff] at he
  obtain ⟨e, hold, rfl⟩ := he
  have hnormal := hl id e hold
  rcases hnormal.compact_cases l.localNode with heq | ⟨hempty, -, heq⟩ <;> rw [heq]
  · exact hnormal
  · exact normal_of_empty hempty

/-- An entry is below the entry of the same obligation in a ledger that says more. -/
theorem Normal.entry_le (hl : l.Normal) (hl' : l'.Normal)
    (h : l.view ≤ l'.view) (he : l.entries[id]? = some e) :
    ∃ e', l'.entries[id]? = some e' ∧ e.mergeEntry e' = e' := by
  have hid := h id
  rw [view_of_some he, WithBot.coe_le_iff] at hid
  obtain ⟨n, hn, hle⟩ := hid
  refine ⟨n.1, by rw [hl'.getElem?_eq, hn]; rfl, ?_⟩
  have hself : e.toNormal.1 = e := hl id e he
  rwa [NormalEntry.le_iff, hself] at hle

theorem Normal.isTerminal_of_raises (hl : l.Normal)
    (h : l.Raises l') (he : l.entries[id]? = some e) (hterminal : e.isTerminal = true) :
    ∃ e', l'.entries[id]? = some e' ∧ e'.isTerminal = true := by
  obtain ⟨e', he', habove⟩ := hl.entry_le h.normal h.above he
  exact ⟨e', he', habove ▸ isTerminal_mergeEntry hterminal e'⟩

end CrdtObligationLedger

/-! ## Whole runs -/

section Runs

variable {ι : Type} [DecidableEq ι]

/-- No replica is compacted. -/
def NoCompact (events : List (Gossip.Event ι LedgerOp)) : Prop :=
  ∀ i, Gossip.Event.update i LedgerOp.compact ∉ events

/-- The ledgers that replicas hold or have published in some run without compaction. -/
def ReachableLedger (node : ι → NodeId) (l : CrdtObligationLedger NodeId) : Prop :=
  ∃ events, NoCompact events ∧ (runCluster node events).Holds l

theorem runCluster_snoc (node : ι → NodeId) (events : List (Gossip.Event ι LedgerOp))
    (event : Gossip.Event ι LedgerOp) :
    runCluster node (events ++ [event]) =
      Gossip.step LedgerOp.apply merge (runCluster node events) event :=
  Gossip.run_snoc _ _ _ _ _

/-- Every ledger of a run is normal. -/
theorem normal_run (node : ι → NodeId) (events : List (Gossip.Event ι LedgerOp)) :
    ∀ l, (runCluster node events).Holds l → l.Normal := by
  induction events using reverseRecOn with
  | nil =>
    rintro l (⟨i, rfl⟩ | hl)
    · intro id e he
      have hnone : (runCluster node []).replica i = .new (node i) := rfl
      rw [hnone] at he
      exact absurd he (by simp [CrdtObligationLedger.new])
    · cases hl
  | append_singleton events event ih =>
    rw [runCluster_snoc]
    refine Gossip.holds_step _ _ (fun i op _ hi => ?_) (fun i k l _ _ hi _ => hi.merge) ih
    by_cases hop : op = .compact
    · rw [hop]
      exact hi.compact
    · exact (hi.raises_apply hop).normal

theorem normal_replica (node : ι → NodeId) (events : List (Gossip.Event ι LedgerOp)) (i : ι) :
    ((runCluster node events).replica i).Normal :=
  normal_run node events _ (.inl ⟨i, rfl⟩)

/-- Whatever happens, compaction included, the terminal entry of a replica stays
terminal. -/
theorem isTerminal_run (node : ι → NodeId) (events more : List (Gossip.Event ι LedgerOp)) {i : ι}
    {id : ObligationId} {e : CrdtObligationEntry NodeId}
    (he : ((runCluster node events).replica i).entries[id]? = some e)
    (hterminal : e.isTerminal = true) :
    ∃ e', ((runCluster node (events ++ more)).replica i).entries[id]? = some e' ∧
      e'.isTerminal = true := by
  induction more using reverseRecOn with
  | nil =>
    rw [append_nil]
    exact ⟨e, he, hterminal⟩
  | append_singleton more event ih =>
    obtain ⟨e₁, he₁, hterminal₁⟩ := ih
    have hn := normal_replica node (events ++ more) i
    rw [← append_assoc, runCluster_snoc]
    rcases Gossip.replica_step_cases LedgerOp.apply merge (runCluster node (events ++ more)) event i
      with heq | ⟨op, -, heq⟩ | ⟨k, l, -, -, heq⟩
    · rw [heq]
      exact ⟨e₁, he₁, hterminal₁⟩
    · rw [heq]
      by_cases hop : op = .compact
      · rw [hop]
        refine ⟨_, (getElem?_compact _ id).trans (congrArg _ he₁), ?_⟩
        dsimp only
        rcases (hn id e₁ he₁).compact_cases _ with heq | ⟨-, -, heq⟩
        all_goals
          rw [heq]
          exact hterminal₁
      · exact hn.isTerminal_of_raises (hn.raises_apply hop) he₁ hterminal₁
    · rw [heq]
      refine hn.isTerminal_of_raises ⟨hn.merge, ?_⟩ he₁ hterminal₁
      rw [view_merge]
      exact le_sup_left

/-- **Convergence of the ledger.**  Over all runs of any number of replicas without
compaction: merge is commutative, associative and idempotent on the entries of reachable
ledgers; every local operation goes up in the merge order; a terminal entry stays
terminal; and replicas that have received the same updates hold the same entries. -/
theorem crdt_convergence (node : ι → NodeId) :
    (∀ l₁ l₂ l₃, ReachableLedger node l₁ → ReachableLedger node l₂ → ReachableLedger node l₃ →
      (l₁.merge l₂).entries = (l₂.merge l₁).entries ∧
        ((l₁.merge l₂).merge l₃).entries = (l₁.merge (l₂.merge l₃)).entries ∧
        (l₁.merge l₁).entries = l₁.entries) ∧
      (∀ events, NoCompact events → ∀ (i : ι) (op : LedgerOp) (id : ObligationId) e,
        op ≠ .compact → ((runCluster node events).replica i).entries[id]? = some e →
          ∃ e', (op.apply ((runCluster node events).replica i)).entries[id]? = some e' ∧
            e.mergeEntry e' = e') ∧
      (∀ events more, NoCompact (events ++ more) → ∀ (i : ι) (id : ObligationId) e,
        ((runCluster node events).replica i).entries[id]? = some e → e.isTerminal = true →
          ∃ e', ((runCluster node (events ++ more)).replica i).entries[id]? = some e' ∧
            e'.isTerminal = true) ∧
      (∀ events, NoCompact events → ∀ i j : ι,
        (Gossip.received events).replica i = (Gossip.received events).replica j →
          ((runCluster node events).replica i).entries =
            ((runCluster node events).replica j).entries) := by
  refine ⟨?_, ?_, ?_, ?_⟩
  · rintro l₁ l₂ l₃ ⟨events₁, -, hl₁⟩ ⟨events₂, -, hl₂⟩ -
    have hn₁ := normal_run node events₁ l₁ hl₁
    have hn₂ := normal_run node events₂ l₂ hl₂
    refine ⟨?_, ?_, ?_⟩
    · apply entries_eq_of_view hn₁.merge hn₂.merge
      rw [view_merge, view_merge, sup_comm]
    · apply entries_eq_of_view hn₁.merge.merge hn₁.merge
      simp only [view_merge, sup_assoc]
    · apply entries_eq_of_view hn₁.merge hn₁
      rw [view_merge, sup_idem]
  · intro events _ i op id e hop he
    have hn := normal_replica node events i
    have hraises := hn.raises_apply hop
    exact hn.entry_le hraises.normal hraises.above he
  · exact fun events more _ i id e he hterminal => isTerminal_run node events more he hterminal
  · intro events h i j hsame
    refine entries_eq_of_view (normal_replica node events i) (normal_replica node events j) ?_
    obtain ⟨post, hpost⟩ := Gossip.exists_posts
      (fun i => funext fun id => view_of_none ExtTreeMap.getElem?_empty) rfl events (by
        rintro before i op after rfl
        refine ((normal_replica node before i).raises_apply ?_).above
        rintro rfl
        exact h i (mem_append_right _ mem_cons_self)) view_merge
    rw [runCluster, hpost.replica i, hpost.replica j, hsame]

/-- One replica acquires and publishes, the other commits and publishes back: both have
received both updates. -/
theorem crdt_convergence_two_replicas :
    ((runCluster (fun i : Fin 2 => i.val)
        [.update 0 (.acquire ⟨⟨1, 0⟩⟩ .lease), .publish 0, .deliver 1 0,
          .update 1 (.commit ⟨⟨1, 0⟩⟩), .publish 1, .deliver 0 1]).replica 0).entries =
      ((runCluster (fun i : Fin 2 => i.val)
        [.update 0 (.acquire ⟨⟨1, 0⟩⟩ .lease), .publish 0, .deliver 1 0,
          .update 1 (.commit ⟨⟨1, 0⟩⟩), .publish 1, .deliver 0 1]).replica 1).entries := by
  refine (crdt_convergence (fun i : Fin 2 => i.val)).2.2.2 _ ?_ 0 1 (by decide)
  intro i
  simp

end Runs

end Asupersync
