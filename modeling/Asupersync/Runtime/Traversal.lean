import Asupersync.Runtime.Invariant

/-!
# The traversal of a subtree

`collect_region_and_descendants_with_depth` walks the subtree of a region with an
explicit stack, and `cancel_request` sorts the result by depth.

**Results.**  `collect_subtree`: in an ownership forest the traversal ends within its
fuel, and after the sort the list holds every region of the subtree once, with its
parent, and every parent before its children (`Subtree`).
-/

namespace Asupersync

open Lib List RuntimeTables
open RuntimeState (CancelRegionNode)

/-- The children that a visit of a region pushes. -/
def RuntimeTables.childrenOf (s : RuntimeTables) (r : RegionId) : List RegionId :=
  match s.region r with
  | some record => record.children
  | none => []

/-- The entries pushed by the visit of a node. -/
def pushedBy (s : RuntimeState) (node : CancelRegionNode) : List CancelRegionNode :=
  (s.childrenOf node.id).map fun child => ⟨child, some node.id, node.depth + 1⟩

/-- Where a traversal from `r` stands, with the visited nodes in `result`. -/
structure Visiting (s : RuntimeState) (r : RegionId) (stack result : List CancelRegionNode) :
    Prop where
  nodup : ((result ++ stack).map (·.id)).Nodup
  start : ⟨r, none, 0⟩ ∈ result ++ stack
  pushed : ∀ n ∈ result ++ stack, n = ⟨r, none, 0⟩ ∨
    ∃ p ∈ result, n.parent = some p.id ∧ n.depth = p.depth + 1 ∧ HasParent s.node n.id p.id
  below : ∀ n ∈ result ++ stack, Below s.node r n.id
  closed : ∀ n ∈ result, ∀ c, HasParent s.node c n.id → c ∈ (result ++ stack).map (·.id)

section Traversal

variable {s : RuntimeState} {r : RegionId}

theorem mem_childrenOf_iff (h : Forest s.node s.owner) (p c : RegionId) :
    c ∈ s.childrenOf p ↔ HasParent s.node c p := by
  rw [← h.links]
  unfold childrenOf ListsChild node
  cases s.region p <;> simp [RegionRecord.node]

theorem childrenOf_nodup (h : Forest s.node s.owner) (p : RegionId) : (s.childrenOf p).Nodup := by
  unfold childrenOf
  cases hp : s.region p with
  | none => exact nodup_nil
  | some record => exact (h.nodup p record.node (s.node_of_region hp)).1

theorem map_id_pushedBy (n : CancelRegionNode) : (pushedBy s n).map (·.id) = s.childrenOf n.id := by
  simp [pushedBy, Function.comp_def]

theorem visiting_start : Visiting s r [⟨r, none, 0⟩] [] where
  nodup := nodup_singleton r
  start := mem_singleton.mpr rfl
  pushed _ hn := .inl (mem_singleton.mp hn)
  below _ hn := (mem_singleton.mp hn) ▸ Relation.ReflTransGen.refl
  closed _ hn := absurd hn not_mem_nil

variable {result stack : List CancelRegionNode}

/-- A visit pushes regions that have not been seen: their parent is only visited now. -/
theorem Visiting.fresh {n : CancelRegionNode} (h : Forest s.node s.owner) (hvisit : Visiting s r (n :: stack) result) {c : RegionId}
    (hc : HasParent s.node c n.id) :
    c ∉ (result ++ n :: stack).map (·.id) := by
  intro hmem
  obtain ⟨m, hm, rfl⟩ := mem_map.mp hmem
  have hn : n ∈ result ++ n :: stack := mem_append_right _ mem_cons_self
  rcases hvisit.pushed m hm with rfl | ⟨p, hp, -, -, hparent⟩
  · exact h.not_below_of_hasParent hc (hvisit.below n hn)
  · have hid : p.id = n.id := hparent.unique hc
    have hnodup := hvisit.nodup
    rw [map_append, nodup_append] at hnodup
    exact hnodup.2.2 p.id (mem_map_of_mem hp) n.id (mem_map_of_mem mem_cons_self) hid

theorem Visiting.visit {n : CancelRegionNode} (h : Forest s.node s.owner) (hvisit : Visiting s r (n :: stack) result) :
    Visiting s r ((pushedBy s n).reverse ++ stack) (result ++ [n]) := by
  have hperm : (result ++ [n] ++ ((pushedBy s n).reverse ++ stack)).Perm
      (result ++ n :: stack ++ pushedBy s n) := by
    have hswap : ((pushedBy s n).reverse ++ stack).Perm (stack ++ pushedBy s n) :=
      perm_append_comm.trans ((reverse_perm _).append_left stack)
    simpa using hswap.append_left (result ++ [n])
  have hmem : ∀ m, m ∈ result ++ [n] ++ ((pushedBy s n).reverse ++ stack) ↔
      m ∈ result ++ n :: stack ∨ m ∈ pushedBy s n := by
    intro m
    rw [hperm.mem_iff, mem_append]
  have hids : ∀ c, c ∈ (result ++ [n] ++ ((pushedBy s n).reverse ++ stack)).map (·.id) ↔
      c ∈ (result ++ n :: stack).map (·.id) ∨ HasParent s.node c n.id := by
    intro c
    rw [(hperm.map _).mem_iff, map_append, mem_append, map_id_pushedBy, mem_childrenOf_iff h]
  have hn : n ∈ result ++ n :: stack := mem_append_right _ mem_cons_self
  have hnew : ∀ m ∈ pushedBy s n, m.parent = some n.id ∧ m.depth = n.depth + 1 ∧
      HasParent s.node m.id n.id := by
    intro m hm
    obtain ⟨c, hc, rfl⟩ := mem_map.mp hm
    exact ⟨rfl, rfl, (mem_childrenOf_iff h n.id c).mp hc⟩
  constructor
  case nodup =>
    rw [(hperm.map _).nodup_iff, map_append, nodup_append, map_id_pushedBy]
    refine ⟨hvisit.nodup, childrenOf_nodup h n.id, fun a ha b hb heq => ?_⟩
    exact hvisit.fresh h ((mem_childrenOf_iff h n.id b).mp hb) (heq ▸ ha)
  case start => exact (hmem _).mpr (.inl hvisit.start)
  case pushed =>
    intro m hm
    rcases (hmem m).mp hm with hold | hpushed
    · rcases hvisit.pushed m hold with rfl | ⟨p, hp, hrest⟩
      · exact .inl rfl
      · exact .inr ⟨p, mem_append_left _ hp, hrest⟩
    · exact .inr ⟨n, mem_append_right _ (mem_singleton.mpr rfl), hnew m hpushed⟩
  case below =>
    intro m hm
    rcases (hmem m).mp hm with hold | hpushed
    · exact hvisit.below m hold
    · exact (hvisit.below n hn).tail (hnew m hpushed).2.2
  case closed =>
    intro m hm c hc
    rw [hids]
    rcases mem_append.mp hm with hm | hm
    · exact .inl (hvisit.closed m hm c hc)
    · rw [mem_singleton.mp hm] at hc
      exact .inr hc

theorem Visiting.length_le {record : RegionRecord}
    (hregion : s.region r = some record) (hvisit : Visiting s r stack result) :
    (result ++ stack).length ≤ s.regions.slots.length := by
  have hinj : Function.Injective fun q : RegionId => q.arenaIndex := by
    intro a b hab
    cases a
    cases hab
    rfl
  have hlive : ∀ i ∈ ((result ++ stack).map (·.id)).map (·.arenaIndex), s.regions.get i ≠ none := by
    intro i hi
    obtain ⟨q, hq, rfl⟩ := mem_map.mp hi
    obtain ⟨n, hn, rfl⟩ := mem_map.mp hq
    rcases hvisit.pushed n hn with rfl | ⟨p, -, -, -, m, hm, -⟩
    · exact fun hnone => absurd (hnone.symm.trans hregion) (Option.some_ne_none record).symm
    · obtain ⟨record', hrecord', -⟩ := Option.map_eq_some_iff.mp hm
      exact fun hnone => absurd (hnone.symm.trans hrecord') (Option.some_ne_none record').symm
  have hle := Arena.length_le_of_live (hvisit.nodup.map hinj) hlive
  simpa using hle

/-- The loop ends: every turn visits a region, and there are at most as many as slots. -/
theorem collectLoop_ends
    {record : RegionRecord}
    (h : Forest s.node s.owner)
    (hregion : s.region r = some record)
    (fuel : Nat) (stack result : List CancelRegionNode)
    (hvisit : Visiting s r stack result)
    (hfuel : result.length + fuel = s.regions.slots.length + 1) :
    ∃ nodes, RuntimeState.collectLoop s fuel stack result = some nodes ∧
      Visiting s r [] nodes := by
  induction fuel generalizing stack result with
  | zero =>
    have hle := hvisit.length_le hregion
    rw [length_append] at hle
    omega
  | succ fuel ih =>
    cases stack with
    | nil => exact ⟨result, rfl, hvisit⟩
    | cons n stack =>
      refine ih _ _ (hvisit.visit h) ?_
      rw [length_append, length_singleton]
      omega

end Traversal

/-- A list of the regions of a subtree, parents first. -/
structure Subtree (s : RuntimeState) (r : RegionId) (nodes : List CancelRegionNode) : Prop where
  nodup : (nodes.map (·.id)).Nodup
  mem : ∀ q, q ∈ nodes.map (·.id) ↔ Below s.node r q
  parent : ∀ n ∈ nodes, n = ⟨r, none, 0⟩ ∨ ∃ p, n.parent = some p ∧ HasParent s.node n.id p
  ordered : ∀ before n after p, nodes = before ++ n :: after → n.parent = some p →
    p ∈ before.map (·.id)

theorem Visiting.subtree {s : RuntimeState} {r : RegionId} {collected : List CancelRegionNode}
    (hvisit : Visiting s r [] collected) :
    Subtree s r (collected.mergeSort fun a b => decide (a.depth ≤ b.depth)) := by
  obtain ⟨hnodup, hstart, hpushed, hbelow, hclosed⟩ := hvisit
  rw [append_nil] at hnodup hstart hpushed hbelow hclosed
  have hperm := mergeSort_perm collected fun a b => decide (a.depth ≤ b.depth)
  have hsorted : (collected.mergeSort fun a b => decide (a.depth ≤ b.depth)).Pairwise
      fun a b => a.depth ≤ b.depth := by
    refine (pairwise_mergeSort (fun a b c hab hbc => ?_) (fun a b => ?_) collected).imp
      fun hle => of_decide_eq_true hle
    · exact decide_eq_true (Nat.le_trans (of_decide_eq_true hab) (of_decide_eq_true hbc))
    · simpa using Nat.le_total a.depth b.depth
  constructor
  case nodup => exact (hperm.map _).nodup_iff.mpr hnodup
  case mem =>
    intro q
    rw [(hperm.map _).mem_iff]
    constructor
    · intro hq
      obtain ⟨n, hn, rfl⟩ := mem_map.mp hq
      exact hbelow n hn
    · intro hq
      induction hq with
      | refl => exact mem_map_of_mem hstart
      | tail _ hlink ih =>
        obtain ⟨n, hn, rfl⟩ := mem_map.mp ih
        exact hclosed n hn _ hlink
  case parent =>
    intro n hn
    rcases hpushed n (hperm.mem_iff.mp hn) with hroot | ⟨p, -, hp, -, hparent⟩
    · exact .inl hroot
    · exact .inr ⟨p.id, hp, hparent⟩
  case ordered =>
    intro before n after p hsplit hp
    have hn : n ∈ collected := hperm.mem_iff.mp (by rw [hsplit]; simp)
    rcases hpushed n hn with rfl | ⟨m, hm, hmp, hdepth, -⟩
    · cases hp
    obtain rfl : m.id = p := Option.some.inj (hmp.symm.trans hp)
    have hmem := hperm.mem_iff.mpr hm
    rw [hsplit] at hmem hsorted
    -- a parent after its child would be at least as deep
    rcases mem_append.mp hmem with hbefore | hafter
    · exact mem_map_of_mem hbefore
    · have hle := (pairwise_cons.mp (pairwise_append.mp hsorted).2.1).1
      rcases mem_cons.mp hafter with rfl | hlater
      · omega
      · have := hle m hlater
        omega

theorem collect_subtree {s : RuntimeState} (r : RegionId) (h : Forest s.node s.owner) :
    ∃ collected, s.collectRegionAndDescendantsWithDepth r = some collected ∧
      Subtree s r (collected.mergeSort fun a b => decide (a.depth ≤ b.depth)) := by
  unfold RuntimeState.collectRegionAndDescendantsWithDepth
  cases hregion : s.region r with
  | some record =>
    obtain ⟨collected, hcollected, hvisit⟩ := collectLoop_ends h hregion
      (s.regions.slots.length + 1) [⟨r, none, 0⟩] [] visiting_start (by simp)
    exact ⟨collected, hcollected, hvisit.subtree⟩
  | none =>
    -- a region that is not there has no children
    have hnone : pushedBy s ⟨r, none, 0⟩ = [] := by
      simp [pushedBy, childrenOf, hregion]
    have hvisit := visiting_start.visit (s := s) (r := r) h
    rw [hnone] at hvisit
    refine ⟨[⟨r, none, 0⟩], ?_, hvisit.subtree⟩
    simp [RuntimeState.collectLoop, hregion]

end Asupersync
