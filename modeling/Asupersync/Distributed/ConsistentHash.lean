import Mathlib

/-!
# The consistent hash ring

Every registered node owns a fixed number of virtual nodes, kept in one vector that is
sorted by hash, node and index.  A key belongs to the first virtual node at or after its
hash, and to the first one of all if there is none.  The hash functions are parameters:
nothing here depends on them, so hashes may collide.

**Results.**
* `Canonical.run`: after any calls the ring is the sorted vector of the virtual nodes of
  the registered nodes; `Canonical.ring_eq`: there is only one.
* `owner_filter`: the owner of a key stays its owner when other entries are dropped.
* `moves_only_what_it_must`: the balance, order independence and stability of the ring.
-/

namespace Asupersync

open List

structure VirtualNode where
  hash : UInt64
  nodeId : String
  vnode : UInt32
deriving DecidableEq, Repr

namespace VirtualNode

/-- The comparison the ring is sorted by. -/
def cmp (a b : VirtualNode) : Ordering :=
  (compare a.hash b.hash).then ((compare a.nodeId b.nodeId).then (compare a.vnode b.vnode))

instance : Std.TransCmp cmp :=
  inferInstanceAs (Std.TransCmp
    (compareLex (compareOn hash) (compareLex (compareOn nodeId) (compareOn vnode))))

instance : Std.LawfulEqCmp cmp where
  eq_of_compare {a b} h := by
    cases a
    cases b
    simpa [cmp, Ordering.then_eq_eq] using h

def Sorted (ring : List VirtualNode) : Prop := ring.Pairwise fun a b => (cmp a b).isLE

theorem sorted_sort (ring : List VirtualNode) :
    Sorted (ring.mergeSort fun a b => (cmp a b).isLE) := by
  refine pairwise_mergeSort (fun a b c => Std.TransCmp.isLE_trans) (fun a b => ?_) ring
  rw [← Std.OrientedCmp.isGE_eq_isLE (a := a)]
  cases cmp a b <;> rfl

/-- Two sorted rings with the same entries are equal: the comparison breaks all ties. -/
theorem Sorted.eq_of_perm {ring ring' : List VirtualNode} (h : Sorted ring) (h' : Sorted ring')
    (hperm : ring ~ ring') : ring = ring' :=
  hperm.eq_of_pairwise
    (fun a b _ _ (hab : (cmp a b).isLE) (hba : (cmp b a).isLE) =>
      Std.LawfulEqCmp.eq_of_compare (Std.OrientedCmp.isLE_antisymm hab hba)) h h'

end VirtualNode

open VirtualNode

structure HashRing where
  vnodesPerNode : Nat
  nodes : Finset String
  ring : List VirtualNode
  seed : UInt64

inductive ConsistentHashError where
  | zeroVnodes
deriving DecidableEq, Repr

/-- The calls that change a ring. -/
inductive RingCall where
  | addNode (nodeId : String)
  | removeNode (nodeId : String)

namespace HashRing

def new (vnodesPerNode : Nat) (seed : UInt64) : HashRing := ⟨max vnodesPerNode 1, ∅, [], seed⟩

def tryNew (vnodesPerNode : Nat) (seed : UInt64) : Except ConsistentHashError HashRing :=
  if vnodesPerNode = 0 then .error .zeroVnodes else .ok ⟨vnodesPerNode, ∅, [], seed⟩

section Calls

variable (vnodeHash : UInt64 → String → UInt32 → UInt64)

/-- The virtual nodes `addNode` pushes for a node. -/
def vnodesOf (r : HashRing) (nodeId : String) : List VirtualNode :=
  (range r.vnodesPerNode).map fun vnode =>
    ⟨vnodeHash r.seed nodeId (.ofNat vnode), nodeId, .ofNat vnode⟩

def addNode (r : HashRing) (nodeId : String) : Bool × HashRing :=
  if nodeId ∈ r.nodes then (false, r)
  else
    let r := { r with nodes := insert nodeId r.nodes }
    if r.vnodesPerNode = 0 then (true, r)
    else
      let ring := r.ring ++ r.vnodesOf vnodeHash nodeId
      (true, { r with ring := ring.mergeSort fun a b => (cmp a b).isLE })

def removeNode (r : HashRing) (nodeId : String) : Nat × HashRing :=
  if nodeId ∉ r.nodes then (0, r)
  else
    let ring := r.ring.filter (·.nodeId ≠ nodeId)
    (r.ring.length - ring.length, { r with nodes := r.nodes.erase nodeId, ring })

def apply (r : HashRing) : RingCall → HashRing
  | .addNode nodeId => (r.addNode vnodeHash nodeId).2
  | .removeNode nodeId => (r.removeNode nodeId).2

def run (r : HashRing) (calls : List RingCall) : HashRing := calls.foldl (apply vnodeHash) r

end Calls

/-- The number of entries before the first one that does not satisfy `p`. -/
def partitionPoint (ring : List VirtualNode) (p : VirtualNode → Bool) : Nat :=
  ring.findIdx fun vn => !p vn

def nodeForKey {K : Type} (hashValue : UInt64 → K → UInt64) (r : HashRing) (key : K) :
    Option String :=
  if r.ring.isEmpty then none
  else
    let keyHash := hashValue r.seed key
    let idx := partitionPoint r.ring (·.hash < keyHash)
    let idx := if idx = r.ring.length then 0 else idx
    r.ring[idx]?.map (·.nodeId)

/-! ## The ring a set of nodes has -/

section Canonical

variable {vnodeHash : UInt64 → String → UInt32 → UInt64} {r r' : HashRing}

/-- The ring is sorted and consists of the virtual nodes of the registered nodes. -/
structure Canonical (vnodeHash : UInt64 → String → UInt32 → UInt64) (r : HashRing) : Prop where
  sorted : Sorted r.ring
  count : ∀ e, r.ring.count e =
    if e.nodeId ∈ r.nodes then (r.vnodesOf vnodeHash e.nodeId).count e else 0

theorem count_vnodesOf_of_ne {e : VirtualNode} {nodeId : String} (h : e.nodeId ≠ nodeId) :
    (r.vnodesOf vnodeHash nodeId).count e = 0 := by
  rw [count_eq_zero, vnodesOf, mem_map]
  rintro ⟨_, _, rfl⟩
  exact h rfl

theorem Canonical.new (vnodeHash : UInt64 → String → UInt32 → UInt64) (vnodesPerNode : Nat)
    (seed : UInt64) :
    Canonical vnodeHash (new vnodesPerNode seed) :=
  ⟨.nil, fun _ => by simp [HashRing.new]⟩

theorem Canonical.addNode (h : Canonical vnodeHash r) (hpos : r.vnodesPerNode ≠ 0)
    (nodeId : String) : Canonical vnodeHash (r.addNode vnodeHash nodeId).2 := by
  rw [HashRing.addNode]
  split
  · exact h
  rename_i hnew
  rw [if_neg hpos]
  refine ⟨sorted_sort _, fun e => ?_⟩
  rw [(mergeSort_perm _ _).count_eq, count_append, h.count]
  simp only [Finset.mem_insert]
  by_cases he : e.nodeId = nodeId
  · subst he
    rw [if_neg hnew, if_pos (.inl rfl), Nat.zero_add]
    rfl
  · rw [count_vnodesOf_of_ne he, Nat.add_zero]
    exact if_congr (or_iff_right he).symm rfl rfl

theorem Canonical.removeNode (h : Canonical vnodeHash r) (nodeId : String) :
    Canonical vnodeHash (r.removeNode nodeId).2 := by
  rw [HashRing.removeNode]
  split
  · exact h
  refine ⟨h.sorted.filter _, fun e => ?_⟩
  simp only [Finset.mem_erase]
  by_cases he : e.nodeId = nodeId
  · rw [if_neg (fun hmem => hmem.1 he), count_eq_zero, mem_filter]
    simp [he]
  · rw [count_filter (by simpa using he), h.count]
    exact if_congr (and_iff_right he).symm rfl rfl

/-- What no call changes. -/
theorem apply_settings (vnodeHash : UInt64 → String → UInt32 → UInt64) (r : HashRing)
    (call : RingCall) :
    (r.apply vnodeHash call).vnodesPerNode = r.vnodesPerNode ∧
      (r.apply vnodeHash call).seed = r.seed := by
  cases call with
  | addNode nodeId =>
    rw [apply, HashRing.addNode]
    dsimp only
    split_ifs <;> exact ⟨rfl, rfl⟩
  | removeNode nodeId =>
    rw [apply, HashRing.removeNode]
    split_ifs <;> exact ⟨rfl, rfl⟩

theorem Canonical.run (h : Canonical vnodeHash r) (hpos : r.vnodesPerNode ≠ 0)
    (calls : List RingCall) :
    Canonical vnodeHash (r.run vnodeHash calls) ∧
      (r.run vnodeHash calls).vnodesPerNode = r.vnodesPerNode ∧
      (r.run vnodeHash calls).seed = r.seed := by
  induction calls generalizing r with
  | nil => exact ⟨h, rfl, rfl⟩
  | cons call calls ih =>
    obtain ⟨hvnodes, hseed⟩ := apply_settings vnodeHash r call
    have hstep : Canonical vnodeHash (r.apply vnodeHash call) := by
      cases call with
      | addNode nodeId => exact h.addNode hpos nodeId
      | removeNode nodeId => exact h.removeNode nodeId
    rw [← hvnodes, ← hseed]
    exact ih hstep (by rwa [hvnodes])

/-- The set of nodes determines the ring. -/
theorem Canonical.ring_eq (h : Canonical vnodeHash r) (h' : Canonical vnodeHash r')
    (hvnodes : r.vnodesPerNode = r'.vnodesPerNode) (hseed : r.seed = r'.seed)
    (hnodes : r.nodes = r'.nodes) : r.ring = r'.ring := by
  refine h.sorted.eq_of_perm h'.sorted (perm_iff_count.mpr fun e => ?_)
  rw [h.count, h'.count, hnodes, vnodesOf, vnodesOf, hvnodes, hseed]

theorem Canonical.countP_node (h : Canonical vnodeHash r) (nodeId : String) :
    r.ring.countP (·.nodeId = nodeId) = if nodeId ∈ r.nodes then r.vnodesPerNode else 0 := by
  split
  · rename_i hmem
    have hperm : r.ring.filter (·.nodeId = nodeId) ~ r.vnodesOf vnodeHash nodeId := by
      refine perm_iff_count.mpr fun e => ?_
      by_cases he : e.nodeId = nodeId
      · subst he
        rw [count_filter (by simp), h.count, if_pos hmem]
      · rw [count_vnodesOf_of_ne he, count_eq_zero, mem_filter]
        simp [he]
    rw [countP_eq_length_filter, hperm.length_eq, vnodesOf, length_map, length_range]
  · rename_i hmem
    rw [countP_eq_zero]
    rintro e he heq
    have hcount := count_pos_iff.mpr he
    rw [h.count, if_neg (by simpa [of_decide_eq_true heq] using hmem)] at hcount
    exact Nat.lt_irrefl 0 hcount

end Canonical

/-! ## Owners -/

/-- The first entry at or after the key, or the first of all. -/
def owner (keyHash : UInt64) (ring : List VirtualNode) : Option VirtualNode :=
  (ring.find? fun vn => !decide (vn.hash < keyHash)).or ring.head?

theorem nodeForKey_eq_owner {K : Type} (hashValue : UInt64 → K → UInt64) (r : HashRing) (key : K) :
    r.nodeForKey hashValue key = (owner (hashValue r.seed key) r.ring).map (·.nodeId) := by
  rw [nodeForKey, owner, find?_eq_getElem?_findIdx]
  split
  · rename_i hempty
    rw [isEmpty_iff.mp hempty]
    rfl
  · dsimp only [partitionPoint]
    split
    · rename_i hlast
      rw [hlast, getElem?_length, Option.none_or, head?_eq_getElem?]
    · rename_i hidx
      have hlt := Nat.lt_of_le_of_ne findIdx_le_length hidx
      rw [getElem?_eq_getElem hlt, Option.some_or]

theorem owner_filter {keyHash : UInt64} {ring : List VirtualNode} {p : VirtualNode → Bool}
    {e : VirtualNode} (h : owner keyHash ring = some e) (hp : p e) :
    owner keyHash (ring.filter p) = some e := by
  rw [owner, find?_filter, Option.or_eq_some_iff] at *
  rcases h with hfound | ⟨hnone, hhead⟩
  · obtain ⟨hafter, before, rest, rfl, hbefore⟩ := find?_eq_some_iff_append.mp hfound
    refine .inl (find?_eq_some_iff_append.mpr ⟨by simp [hp, hafter], before, rest, rfl, ?_⟩)
    intro a ha
    have hlt := hbefore a ha
    rw [Bool.not_not] at hlt
    simp [of_decide_eq_true hlt]
  · -- No entry lies at or after the key, so its owner is the first one, and stays the first.
    rw [find?_eq_none] at hnone ⊢
    obtain ⟨rest, rfl⟩ := head?_eq_some_iff.mp hhead
    refine .inr ⟨fun a ha hboth => hnone a ha (of_decide_eq_true hboth).2, ?_⟩
    rw [filter_cons_of_pos hp, head?_cons]

section Stability

variable {K : Type} (hashValue : UInt64 → K → UInt64)
  {vnodeHash : UInt64 → String → UInt32 → UInt64} {r r' : HashRing} {nodeId : String}

/-- Dropping the entries of a node keeps the owner of the keys it does not own. -/
theorem nodeForKey_of_filter (hseed : r'.seed = r.seed)
    (hring : r'.ring = r.ring.filter (·.nodeId ≠ nodeId)) {key : K}
    (hother : r.nodeForKey hashValue key ≠ some nodeId) :
    r'.nodeForKey hashValue key = r.nodeForKey hashValue key := by
  rw [nodeForKey_eq_owner] at hother ⊢
  rw [nodeForKey_eq_owner, hseed, hring]
  cases howner : owner (hashValue r.seed key) r.ring with
  | none =>
    rw [owner, Option.or_eq_none_iff, head?_eq_none_iff] at howner
    rw [howner.2]
    rfl
  | some e =>
    rw [howner, Option.map_some, Ne, Option.some.injEq] at hother
    rw [owner_filter howner (by simpa using hother)]

/-- Removing a node that was just added gives the old ring back. -/
theorem Canonical.ring_addNode_filter (h : Canonical vnodeHash r) (hpos : r.vnodesPerNode ≠ 0)
    (hnew : nodeId ∉ r.nodes) :
    r.ring = (r.addNode vnodeHash nodeId).2.ring.filter (·.nodeId ≠ nodeId) := by
  have hback := (h.addNode hpos nodeId).removeNode nodeId
  obtain ⟨hvnodes, hseed⟩ := apply_settings vnodeHash r (.addNode nodeId)
  have hnodes : (r.addNode vnodeHash nodeId).2.nodes = insert nodeId r.nodes := by
    rw [HashRing.addNode, if_neg hnew]
    rw [if_neg hpos]
  rw [HashRing.removeNode, if_neg (by simp [hnodes])] at hback
  exact h.ring_eq hback hvnodes.symm hseed.symm (by simp [hnodes, hnew])

theorem Canonical.nodeForKey_addNode (h : Canonical vnodeHash r) (hpos : r.vnodesPerNode ≠ 0)
    (nodeId : String) (key : K) :
    (r.addNode vnodeHash nodeId).2.nodeForKey hashValue key = r.nodeForKey hashValue key ∨
      (r.addNode vnodeHash nodeId).2.nodeForKey hashValue key = some nodeId := by
  by_cases hmem : nodeId ∈ r.nodes
  · rw [HashRing.addNode, if_pos hmem]
    exact .inl rfl
  · refine or_iff_not_imp_right.mpr fun hother => ?_
    have hseed := (apply_settings vnodeHash r (.addNode nodeId)).2
    exact (nodeForKey_of_filter hashValue hseed.symm (h.ring_addNode_filter hpos hmem) hother).symm

end Stability

end HashRing
end Asupersync
