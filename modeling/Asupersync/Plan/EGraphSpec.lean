import Asupersync.Plan.EGraph

/-!
# What the operations of the e-graph do

One specification for each operation, in terms of the representatives of the
classes (`EGraph.root`) and the nodes they hold (`EGraph.Holds`).

**Results.**
* `find_spec`, `canonicalizeEnode_spec`: lookups return and only compress paths.
* `scan_spec`: a pass of the rebuild loop replaces the nodes of every class by
  their canonical forms, and the table and the pairs it collects are those of a
  fold over the classes (`visit`).
* `mergeInternal_spec`: a merge points the larger representative to the smaller
  one and moves its nodes.
-/

namespace Asupersync

open Lib.UnionFind List Option

namespace ENode

def children : ENode → List EClassId
  | .leaf _ => []
  | .join children | .race children => children
  | .timeout child _ => [child]

/-- The node over the representatives of its children. -/
def canon (f : EClassId → EClassId) : ENode → ENode
  | .leaf label => .leaf label
  | .join children => .join ((children.map f).insertionSort (· ≤ ·))
  | .race children => .race ((children.map f).insertionSort (· ≤ ·))
  | .timeout child duration => .timeout (f child) duration

theorem mem_children_canon {f : EClassId → EClassId} {n : ENode} {c : EClassId} :
    c ∈ (n.canon f).children ↔ ∃ d ∈ n.children, f d = c := by
  cases n <;> simp [canon, children, eq_comm]

theorem insertionSort_congr {cs ds : List EClassId} (h : cs.Perm ds) :
    cs.insertionSort (· ≤ ·) = ds.insertionSort (· ≤ ·) :=
  (((perm_insertionSort _ _).trans h).trans (perm_insertionSort _ _).symm).eq_of_pairwise'
    (pairwise_insertionSort _ _) (pairwise_insertionSort _ _)

/-- A coarser choice of representatives absorbs a finer one. -/
theorem canon_canon {f f' : EClassId → EClassId} (h : ∀ c, f' (f c) = f' c) (n : ENode) :
    (n.canon f).canon f' = n.canon f' := by
  have hsort (cs : List EClassId) :
      (((cs.map f).insertionSort (· ≤ ·)).map f').insertionSort (· ≤ ·) =
        (cs.map f').insertionSort (· ≤ ·) := by
    refine insertionSort_congr (((perm_insertionSort _ (cs.map f)).map f').trans ?_)
    rw [List.map_map]
    exact .of_eq (map_congr_left (fun c _ => h c))
  cases n with
  | leaf label => rfl
  | join cs | race cs => simp only [canon, hsort]
  | timeout c d => simp only [canon, h]

end ENode

namespace EGraph

/-- The representative of an id. -/
def root (g : EGraph) (id : EClassId) : EClassId := Lib.UnionFind.root g.parent id

/-- A class holds a node. -/
def Holds (g : EGraph) (r : EClassId) (n : ENode) : Prop :=
  ∃ ni ∈ g.nodeIndices r, g.nodeArena[ni]? = some n

/-- All ids and indices in the graph were issued. -/
structure WellFormed (g : EGraph) : Prop where
  decreasing : Decreasing g.parent
  length_eq : g.parent.length = g.classes.length
  arena : ∀ n ∈ g.nodeArena, ∀ c ∈ n.children, c < g.classes.length
  indices : ∀ r, ∀ ni ∈ g.nodeIndices r, ni < g.nodeArena.length
  hashcons : ∀ p ∈ g.hashcons, p.2 < g.classes.length

/-- Only paths were compressed. -/
structure Compressed (g g' : EGraph) : Prop where
  roots : SameRoots g.parent g'.parent
  nodeArena_eq : g'.nodeArena = g.nodeArena
  classes_eq : g'.classes = g.classes
  hashcons_eq : g'.hashcons = g.hashcons

section Lookups

variable {g g' : EGraph} {id : EClassId}

theorem Compressed.refl (h : g.WellFormed) : Compressed g g := ⟨.refl h.decreasing, rfl, rfl, rfl⟩

theorem Compressed.trans {g'' : EGraph} (h : Compressed g g') (h' : Compressed g' g'') :
    Compressed g g'' :=
  ⟨h.roots.trans h'.roots, h'.nodeArena_eq.trans h.nodeArena_eq,
    h'.classes_eq.trans h.classes_eq, h'.hashcons_eq.trans h.hashcons_eq⟩

theorem Compressed.root_eq (h : Compressed g g') : g'.root = g.root := funext h.roots.root_eq

theorem nodeIndices_congr (h : g'.classes = g.classes) : g'.nodeIndices = g.nodeIndices := by
  unfold nodeIndices
  rw [h]

theorem Compressed.nodeIndices_eq (h : Compressed g g') : g'.nodeIndices = g.nodeIndices :=
  nodeIndices_congr h.classes_eq

theorem Compressed.wellFormed (h : Compressed g g') (hg : g.WellFormed) : g'.WellFormed := by
  obtain ⟨⟩ := g'
  obtain ⟨hroots, rfl, rfl, rfl⟩ := h
  exact ⟨hroots.decreasing, hroots.length_eq.trans hg.length_eq, hg.arena, hg.indices, hg.hashcons⟩

theorem root_lt (h : g.WellFormed) (hid : id < g.classes.length) :
    g.root id < g.classes.length := by
  rw [← h.length_eq] at hid ⊢
  exact Lib.UnionFind.root_lt h.decreasing hid

theorem find_spec (h : g.WellFormed) (hid : id < g.classes.length) :
    ∃ g', g.find id = some (g.root id, g') ∧ Compressed g g' := by
  rw [← h.length_eq] at hid
  obtain ⟨parent, hfind, hroots⟩ := find_eq h.decreasing hid
  refine ⟨{ g with parent := parent }, ?_, hroots, rfl, rfl, rfl⟩
  simp only [find, hfind]
  rfl

theorem findAll_spec (h : g.WellFormed) {cs : List EClassId}
    (hcs : ∀ c ∈ cs, c < g.classes.length) :
    ∃ g', g.findAll cs = some (cs.map g.root, g') ∧ Compressed g g' := by
  induction cs generalizing g with
  | nil => exact ⟨g, rfl, .refl h⟩
  | cons c cs ih =>
    obtain ⟨g₁, hfind, hg₁⟩ := find_spec h (hcs c mem_cons_self)
    obtain ⟨g₂, hrest, hg₂⟩ := ih (hg₁.wellFormed h) (by
      intro d hd
      rw [hg₁.classes_eq]
      exact hcs d (mem_cons_of_mem c hd))
    refine ⟨g₂, ?_, hg₁.trans hg₂⟩
    simp [findAll, hfind, hrest, hg₁.root_eq]

theorem canonicalizeEnode_spec (h : g.WellFormed) {n : ENode}
    (hn : ∀ c ∈ n.children, c < g.classes.length) :
    ∃ g', g.canonicalizeEnode n = some (n.canon g.root, g') ∧ Compressed g g' := by
  cases n with
  | leaf label => exact ⟨g, rfl, .refl h⟩
  | join cs | race cs =>
    have hcs : ∀ c ∈ cs, c < g.classes.length := hn
    obtain ⟨g', hfind, hg'⟩ := findAll_spec h hcs
    exact ⟨g', by simp [canonicalizeEnode, canonicalizeChildren, hfind, ENode.canon], hg'⟩
  | timeout c d =>
    obtain ⟨g', hfind, hg'⟩ := find_spec h (hn c (mem_singleton.mpr rfl))
    exact ⟨g', by simp [canonicalizeEnode, hfind, ENode.canon], hg'⟩

end Lookups

/-! ## A pass over the classes -/

/-- The table and the pairs to merge after one more node of a class. -/
def visit (f : EClassId → EClassId)
    (t : List (ENode × EClassId) × List (EClassId × EClassId)) (v : EClassId × ENode) :
    List (ENode × EClassId) × List (EClassId × EClassId) :=
  match t.1.lookup v.2 with
  | some existing =>
    if f existing ≠ f v.1 then (t.1, t.2 ++ [orderedPair (f existing) (f v.1)]) else t
  | none => ((v.2, v.1) :: t.1, t.2)

/-- The canonical form of the node at an arena index. -/
def canonAt (g : EGraph) (ni : Nat) : ENode :=
  match g.nodeArena[ni]? with
  | none => .leaf ""
  | some n => n.canon g.root

variable {ni : Nat}

variable {g : EGraph}

theorem canonAt_eq {n : ENode} (h : g.nodeArena[ni]? = some n) : g.canonAt ni = n.canon g.root := by
  simp only [canonAt, h]

/-- Some arena nodes were replaced by their canonical forms. -/
structure Refines (g g' : EGraph) : Prop where
  roots : SameRoots g.parent g'.parent
  length_eq : g'.nodeArena.length = g.nodeArena.length
  classes_length : g'.classes.length = g.classes.length
  node : ∀ (ni : Nat) (n : ENode), g.nodeArena[ni]? = some n →
    g'.nodeArena[ni]? = some n ∨ g'.nodeArena[ni]? = some (n.canon g.root)

section Refinement

variable {g g' : EGraph}

section

variable (h : g.WellFormed)

include h

theorem root_root (id : EClassId) : g.root (g.root id) = g.root id :=
  Lib.UnionFind.root_root h.decreasing id

theorem canon_idem (n : ENode) : (n.canon g.root).canon g.root = n.canon g.root :=
  ENode.canon_canon (root_root h) n

theorem canon_canonAt (ni : Nat) : (g.canonAt ni).canon g.root = g.canonAt ni := by
  unfold canonAt
  split
  · rfl
  · exact canon_idem h _

theorem WellFormed.exists_node {r : EClassId} {ni : Nat}
    (hni : ni ∈ g.nodeIndices r) : ∃ n, g.nodeArena[ni]? = some n :=
  ⟨_, getElem?_eq_getElem (h.indices r ni hni)⟩

theorem Refines.refl : Refines g g :=
  ⟨.refl h.decreasing, rfl, rfl, fun _ _ hn => .inl hn⟩

end

theorem Refines.root_eq (h : Refines g g') : g'.root = g.root := funext h.roots.root_eq

theorem Refines.trans {g'' : EGraph} (hg : g.WellFormed) (h : Refines g g')
    (h' : Refines g' g'') : Refines g g'' where
  roots := h.roots.trans h'.roots
  length_eq := h'.length_eq.trans h.length_eq
  classes_length := h'.classes_length.trans h.classes_length
  node := by
    intro ni n hn
    rcases h.node ni n hn with hsame | hcanon
    · rw [← h.root_eq]
      exact h'.node ni n hsame
    · rcases h'.node ni _ hcanon with hsame' | hcanon'
      · exact .inr hsame'
      · rw [h.root_eq, canon_idem hg] at hcanon'
        exact .inr hcanon'

theorem Compressed.refines (h : Compressed g g') : Refines g g' := by
  obtain ⟨⟩ := g'
  obtain ⟨hroots, rfl, rfl, rfl⟩ := h
  exact ⟨hroots, rfl, rfl, fun _ _ hn => .inl hn⟩

theorem Refines.canonAt_eq (hg : g.WellFormed) (h : Refines g g') (ni : Nat) :
    g'.canonAt ni = g.canonAt ni := by
  unfold canonAt
  cases hn : g.nodeArena[ni]? with
  | none =>
    have hlength : g.nodeArena.length ≤ ni := getElem?_eq_none_iff.mp hn
    rw [getElem?_eq_none (by rw [h.length_eq]; exact hlength)]
  | some n =>
    rcases h.node ni n hn with hsame | hcanon
    · simp only [hsame, h.root_eq]
    · simp only [hcanon, h.root_eq, canon_idem hg]

/-- A canonical node stays where it is. -/
theorem Refines.canonical_stays (h : Refines g g') {ni : Nat} {n : ENode}
    (hn : g.nodeArena[ni]? = some n) (hcanon : n.canon g.root = n) :
    g'.nodeArena[ni]? = some n := by
  rcases h.node ni n hn with hsame | hchanged
  · exact hsame
  · rwa [hcanon] at hchanged

theorem Refines.arena (hg : g.WellFormed) (h : Refines g g') :
    ∀ n ∈ g'.nodeArena, ∀ c ∈ n.children, c < g'.classes.length := by
  intro n hn c hc
  obtain ⟨ni, hni⟩ := mem_iff_getElem?.mp hn
  have hlt : ni < g.nodeArena.length := by
    rw [← h.length_eq]
    exact (List.getElem?_eq_some_iff.mp hni).1
  have hold : g.nodeArena[ni]? = some g.nodeArena[ni] := List.getElem?_eq_getElem hlt
  have hchildren := hg.arena g.nodeArena[ni] (getElem_mem hlt)
  rw [h.classes_length]
  rcases h.node ni _ hold with hsame | hcanon
  · cases hni.symm.trans hsame
    exact hchildren c hc
  · cases hni.symm.trans hcanon
    obtain ⟨d, hd, rfl⟩ := ENode.mem_children_canon.mp hc
    exact root_lt hg (hchildren d hd)

end Refinement

variable {id : EClassId}

theorem mem_of_lookup {t : List (ENode × EClassId)} {n : ENode} (h : t.lookup n = some id) :
    (n, id) ∈ t := by
  obtain ⟨front, back, rfl, -⟩ := lookup_eq_some_iff.mp h
  simp

variable {g' : EGraph}

/-- Writing a canonical form into the arena. -/
theorem refines_setArena (hg' : Compressed g g') (hni : ni < g.nodeArena.length) :
    Refines g { g' with nodeArena := g'.nodeArena.set ni (g.canonAt ni) } where
  roots := hg'.roots
  length_eq := by
    rw [← hg'.nodeArena_eq]
    exact length_set
  classes_length := congrArg length hg'.classes_eq
  node := by
    intro nj n hn
    rw [hg'.nodeArena_eq, getElem?_set]
    by_cases heq : ni = nj
    · subst heq
      rw [if_pos rfl, if_pos hni, canonAt_eq hn]
      exact .inr rfl
    · rw [if_neg heq]
      exact .inl hn

/-- A refinement that leaves the classes alone and knows only issued ids is well formed. -/
theorem Refines.wellFormed (hg : g.WellFormed) (h : Refines g g')
    (hindices : ∀ r, ∀ ni ∈ g'.nodeIndices r, ni ∈ g.nodeIndices r)
    (hhashcons : ∀ p ∈ g'.hashcons, p.2 < g'.classes.length) : g'.WellFormed where
  decreasing := h.roots.decreasing
  length_eq := by rw [h.roots.length_eq, h.classes_length, hg.length_eq]
  arena := h.arena hg
  indices := by
    intro r ni hni
    rw [h.length_eq]
    exact hg.indices r ni (hindices r ni hni)
  hashcons := hhashcons

theorem enterNode_spec (h : g.WellFormed) (hid : id < g.classes.length)
    (canonical : ENode) (merges : List (EClassId × EClassId)) :
    ∃ g', enterNode id canonical merges g =
        some ((visit g.root (g.hashcons, merges) (id, canonical)).2, g') ∧
      g'.hashcons = (visit g.root (g.hashcons, merges) (id, canonical)).1 ∧
      g'.classes = g.classes ∧ g'.nodeArena = g.nodeArena ∧ SameRoots g.parent g'.parent := by
  unfold enterNode visit
  cases hlookup : g.hashcons.lookup canonical with
  | none => exact ⟨_, rfl, rfl, rfl, rfl, .refl h.decreasing⟩
  | some existing =>
    obtain ⟨g₁, hfind₁, hg₁⟩ := find_spec h (h.hashcons _ (mem_of_lookup hlookup))
    have hid₁ : id < g₁.classes.length := by rwa [hg₁.classes_eq]
    obtain ⟨g₂, hfind₂, hg₂⟩ := find_spec (hg₁.wellFormed h) hid₁
    rw [hg₁.root_eq] at hfind₂
    have hg := hg₁.trans hg₂
    refine ⟨g₂, ?_, ?_, hg.classes_eq, hg.nodeArena_eq, hg.roots⟩
    · simp only [hfind₁, hfind₂, bind_eq_bind, bind_some]
      split <;> rfl
    · rw [hg.hashcons_eq]
      dsimp only
      split <;> rfl

/-- One node of a class. -/
theorem scanNode_spec (h : g.WellFormed) (hid : id < g.classes.length) (s : Scan)
    (hni : ni < g.nodeArena.length) :
    ∃ g', scanNode id (s, g) ni = some (⟨(keepIndex (s.seen, s.rebuiltIndices) ni (g.canonAt ni)).1,
          (keepIndex (s.seen, s.rebuiltIndices) ni (g.canonAt ni)).2,
          (visit g.root (g.hashcons, s.merges) (id, g.canonAt ni)).2⟩, g') ∧
      g'.hashcons = (visit g.root (g.hashcons, s.merges) (id, g.canonAt ni)).1 ∧
      g'.classes = g.classes ∧ Refines g g' ∧
      g'.nodeArena[ni]? = some (g.canonAt ni) := by
  have hnode : g.nodeArena[ni]? = some g.nodeArena[ni] := getElem?_eq_getElem hni
  obtain ⟨g₁, hcanon, hg₁⟩ :=
    canonicalizeEnode_spec h (h.arena g.nodeArena[ni] (getElem_mem hni))
  rw [← canonAt_eq hnode] at hcanon
  let g₂ : EGraph := { g₁ with nodeArena := g₁.nodeArena.set ni (g.canonAt ni) }
  have hg₂ : Refines g g₂ := refines_setArena hg₁ hni
  have hclasses : g₂.classes = g.classes := hg₁.classes_eq
  have hhashcons : g₂.hashcons = g.hashcons := hg₁.hashcons_eq
  have hwf : g₂.WellFormed := by
    refine hg₂.wellFormed h ?_ ?_
    · intro r nj hnj
      unfold nodeIndices at hnj ⊢
      rwa [hclasses] at hnj
    · rw [hhashcons, hclasses]
      exact h.hashcons
  obtain ⟨g₃, henter, htable, hclasses₃, harena₃, hroots₃⟩ :=
    enterNode_spec hwf (hclasses ▸ hid) (g.canonAt ni) s.merges
  rw [hg₂.root_eq, hhashcons] at henter htable
  refine ⟨g₃, ?_, htable, hclasses₃.trans hclasses, ?_, ?_⟩
  · simp only [scanNode, hnode, hcanon, bind_eq_bind, bind_some]
    rw [henter]
    rfl
  · refine hg₂.trans h ⟨hroots₃, congrArg length harena₃, congrArg length hclasses₃, ?_⟩
    intro nj n hn
    rw [harena₃]
    exact .inl hn
  · rw [harena₃]
    have hlt : ni < g₁.nodeArena.length := by rwa [hg₁.nodeArena_eq]
    rw [getElem?_set, if_pos rfl, if_pos hlt]

/-! ### All nodes of a class -/

variable {p : ENode × EClassId} {t : List (ENode × EClassId) × List (EClassId × EClassId)}
  {f : EClassId → EClassId}

theorem mem_visit {v : EClassId × ENode} (h : p ∈ (visit f t v).1) : p ∈ t.1 ∨ p = (v.2, v.1) := by
  unfold visit at h
  split at h
  · split at h <;> exact .inl h
  · rcases mem_cons.mp h with hnew | hold
    · exact .inr hnew
    · exact .inl hold

theorem mem_foldl_visit {vs : List (EClassId × ENode)} (h : p ∈ (vs.foldl (visit f) t).1) :
    p ∈ t.1 ∨ (p.2, p.1) ∈ vs := by
  induction vs generalizing t with
  | nil => exact .inl h
  | cons v vs ih =>
    rcases ih h with hold | hlater
    · rcases mem_visit hold with hold | rfl
      · exact .inl hold
      · exact .inr mem_cons_self
    · exact .inr (mem_cons_of_mem v hlater)

/-- The visits of a class, in the order of its indices. -/
def visitsAt (g : EGraph) (id : EClassId) (indices : List Nat) : List (EClassId × ENode) :=
  indices.map (fun ni => (id, g.canonAt ni))

/-- The nodes seen and the indices kept after a list of indices. -/
def keepIndices (g : EGraph) (seen : List ENode × List Nat) (indices : List Nat) :
    List ENode × List Nat :=
  indices.foldl (fun seen ni => keepIndex seen ni (g.canonAt ni)) seen

variable {indices : List Nat} {seen : List ENode × List Nat}

theorem foldlM_scanNode_spec (h : g.WellFormed) (hid : id < g.classes.length)
    (s : Scan) (hindices : ∀ ni ∈ indices, ni < g.nodeArena.length) :
    ∃ g', indices.foldlM (scanNode id) (s, g) =
        some (⟨(g.keepIndices (s.seen, s.rebuiltIndices) indices).1,
          (g.keepIndices (s.seen, s.rebuiltIndices) indices).2,
          ((g.visitsAt id indices).foldl (visit g.root) (g.hashcons, s.merges)).2⟩, g') ∧
      g'.hashcons = ((g.visitsAt id indices).foldl (visit g.root) (g.hashcons, s.merges)).1 ∧
      g'.classes = g.classes ∧ Refines g g' ∧
      ∀ ni ∈ indices, g'.nodeArena[ni]? = some (g.canonAt ni) := by
  induction indices generalizing g s with
  | nil => exact ⟨g, rfl, rfl, rfl, .refl h, by simp⟩
  | cons ni indices ih =>
    obtain ⟨g₁, hscan, htable, hclasses, hrefines, hslot⟩ :=
      scanNode_spec h hid s (hindices ni mem_cons_self)
    have hwf : g₁.WellFormed := by
      refine hrefines.wellFormed h ?_ ?_
      · intro r nj hnj
        rwa [nodeIndices_congr hclasses] at hnj
      · intro p hp
        rw [htable] at hp
        rw [hclasses]
        rcases mem_visit hp with hold | rfl
        · exact h.hashcons p hold
        · exact hid
    have hcanonAt : g₁.canonAt = g.canonAt := funext (hrefines.canonAt_eq h)
    obtain ⟨g₂, hrest, htable₂, hclasses₂, hrefines₂, hslots⟩ :=
      ih hwf (hclasses ▸ hid)
        ⟨(keepIndex (s.seen, s.rebuiltIndices) ni (g.canonAt ni)).1,
          (keepIndex (s.seen, s.rebuiltIndices) ni (g.canonAt ni)).2,
          (visit g.root (g.hashcons, s.merges) (id, g.canonAt ni)).2⟩ (by
        intro nj hnj
        rw [hrefines.length_eq]
        exact hindices nj (mem_cons_of_mem ni hnj))
    simp only [keepIndices, visitsAt, hcanonAt, hrefines.root_eq, htable] at hrest htable₂ hslots
    refine ⟨g₂, ?_, htable₂, hclasses₂.trans hclasses, hrefines.trans h hrefines₂, ?_⟩
    · rw [foldlM_cons, hscan]
      exact hrest
    · intro nj hnj
      rcases mem_cons.mp hnj with rfl | hlater
      · refine hrefines₂.canonical_stays hslot ?_
        rw [hrefines.root_eq, canon_canonAt h]
      · exact hslots nj hlater

/-! ### One class -/

@[simp]
theorem nodeIndices_setNodeIndices (g : EGraph) (id : EClassId) (indices : List Nat)
    (hid : id < g.classes.length) (r : EClassId) :
    (g.setNodeIndices id indices).nodeIndices r = if r = id then indices else g.nodeIndices r := by
  unfold setNodeIndices nodeIndices
  simp only [getElem?_modify]
  by_cases hr : r = id
  · subst hr
    rw [if_pos rfl, getElem?_eq_getElem hid]
    simp
  · rw [if_neg hr]
    cases g.classes[r]? <;> simp [Ne.symm hr]

/-- The indices a pass keeps of a class. -/
def keptIndices (g : EGraph) (r : EClassId) : List Nat :=
  (g.keepIndices ([], []) (g.nodeIndices r)).2

/-- The visits of a class; a class that is not a representative is skipped. -/
def classVisits (g : EGraph) (r : EClassId) : List (EClassId × ENode) :=
  if g.root r = r then g.visitsAt r (g.nodeIndices r) else []

theorem mem_keepIndices (h : ni ∈ (g.keepIndices seen indices).2) : ni ∈ seen.2 ∨ ni ∈ indices := by
  induction indices generalizing seen with
  | nil => exact .inl h
  | cons nj indices ih =>
    rcases ih h with hseen | hlater
    · change ni ∈ (keepIndex seen nj (g.canonAt nj)).2 at hseen
      unfold keepIndex at hseen
      split at hseen
      · exact .inl hseen
      · rcases mem_append.mp hseen with hold | hnew
        · exact .inl hold
        · rw [mem_singleton.mp hnew]
          exact .inr mem_cons_self
    · exact .inr (mem_cons_of_mem nj hlater)

/-- Every node that was dropped has a kept one with the same canonical form. -/
theorem exists_mem_keepIndices (hseen : ∀ c ∈ seen.1, ∃ ni ∈ seen.2, g.canonAt ni = c) :
    ∀ c, (c ∈ seen.1 ∨ ∃ ni ∈ indices, g.canonAt ni = c) →
      ∃ ni ∈ (g.keepIndices seen indices).2, g.canonAt ni = c := by
  induction indices generalizing seen with
  | nil =>
    rintro c (hc | ⟨ni, hni, -⟩)
    · exact hseen c hc
    · cases hni
  | cons nj indices ih =>
    have hstep : (∀ c ∈ (keepIndex seen nj (g.canonAt nj)).1,
        ∃ ni ∈ (keepIndex seen nj (g.canonAt nj)).2, g.canonAt ni = c) ∧
        ∀ c, c ∈ seen.1 ∨ g.canonAt nj = c → c ∈ (keepIndex seen nj (g.canonAt nj)).1 := by
      unfold keepIndex
      split
      next hold => exact ⟨hseen, fun c hc => hc.elim id fun heq => heq ▸ hold⟩
      next =>
        refine ⟨fun c hc => ?_, fun c hc => mem_cons.mpr (hc.symm.imp_left Eq.symm)⟩
        rcases mem_cons.mp hc with rfl | hold
        · exact ⟨nj, by simp, rfl⟩
        · obtain ⟨ni, hni, heq⟩ := hseen c hold
          exact ⟨ni, mem_append_left _ hni, heq⟩
    rintro c (hc | ⟨ni, hni, heq⟩)
    · exact ih hstep.1 c (.inl (hstep.2 c (.inl hc)))
    · rcases mem_cons.mp hni with rfl | hlater
      · exact ih hstep.1 c (.inl (hstep.2 c (.inr heq)))
      · exact ih hstep.1 c (.inr ⟨ni, hlater, heq⟩)

variable {r : EClassId} {c : ENode}

theorem mem_keptIndices (h : ni ∈ g.keptIndices r) : ni ∈ g.nodeIndices r := by
  rcases mem_keepIndices h with hnil | hmem
  · cases hnil
  · exact hmem

theorem Refines.setNodeIndices (h : Refines g g') (id : EClassId)
    (indices : List Nat) : Refines g (g'.setNodeIndices id indices) where
  roots := h.roots
  length_eq := h.length_eq
  classes_length := by
    unfold EGraph.setNodeIndices
    rw [length_modify]
    exact h.classes_length
  node := h.node

theorem scanClass_spec (h : g.WellFormed) {idx : EClassId}
    (hidx : idx < g.classes.length) (merges : List (EClassId × EClassId)) :
    ∃ g', scanClass (merges, g) idx =
        some (((g.classVisits idx).foldl (visit g.root) (g.hashcons, merges)).2, g') ∧
      g'.hashcons = ((g.classVisits idx).foldl (visit g.root) (g.hashcons, merges)).1 ∧
      Refines g g' ∧
      (∀ r, g'.nodeIndices r =
        if r = idx ∧ g.root idx = idx then g.keptIndices idx else g.nodeIndices r) ∧
      (g.root idx = idx → ∀ ni ∈ g.nodeIndices idx, g'.nodeArena[ni]? = some (g.canonAt ni)) := by
  obtain ⟨g₁, hfind, hg₁⟩ := find_spec h hidx
  have hidx₁ : idx < g₁.classes.length := by rwa [hg₁.classes_eq]
  by_cases hroot : g.root idx = idx
  · -- The class is a representative: its nodes are taken out, visited and put back.
    let g₂ := g₁.setNodeIndices idx []
    have hg₂ : Refines g g₂ := hg₁.refines.setNodeIndices idx []
    have hindices₂ (r : EClassId) : g₂.nodeIndices r = if r = idx then [] else g.nodeIndices r := by
      rw [nodeIndices_setNodeIndices g₁ idx [] hidx₁, hg₁.nodeIndices_eq]
    have hidx₂ : idx < g₂.classes.length := by
      rw [hg₂.classes_length]
      exact hidx
    have hwf₂ : g₂.WellFormed := by
      refine hg₂.wellFormed h ?_ ?_
      · intro r ni hni
        rw [hindices₂] at hni
        split at hni
        · cases hni
        · exact hni
      · intro p hp
        rw [hg₂.classes_length]
        exact h.hashcons p (hg₁.hashcons_eq ▸ hp)
    have hcanonAt : g₂.canonAt = g.canonAt := funext (hg₂.canonAt_eq h)
    obtain ⟨g₃, hscan, htable, hclasses, hg₃, hslots⟩ :=
      foldlM_scanNode_spec hwf₂ hidx₂ ⟨[], [], merges⟩ (by
        intro ni hni
        rw [hg₂.length_eq]
        exact h.indices idx ni hni)
    have hhashcons₂ : g₂.hashcons = g.hashcons := hg₁.hashcons_eq
    simp only [visitsAt, keepIndices, hcanonAt, hg₂.root_eq, hhashcons₂] at hscan htable hslots
    have hvisits : g.classVisits idx =
        (g.nodeIndices idx).map (fun ni => (idx, g.canonAt ni)) := if_pos hroot
    have hidx₃ : idx < g₃.classes.length := by
      rw [hclasses]
      exact hidx₂
    refine ⟨g₃.setNodeIndices idx (g.keptIndices idx), ?_, ?_, ?_, ?_, ?_⟩
    · simp only [scanClass, hfind, bind_eq_bind, bind_some, hroot, ne_eq,
        not_true_eq_false, if_false, hg₁.nodeIndices_eq, hvisits]
      rw [hscan]
      rfl
    · rw [hvisits]
      exact htable
    · exact (hg₂.trans h hg₃).setNodeIndices idx _
    · intro r
      rw [nodeIndices_setNodeIndices g₃ idx _ hidx₃, nodeIndices_congr hclasses, hindices₂]
      by_cases hr : r = idx
      · rw [if_pos hr, if_pos ⟨hr, hroot⟩]
      · rw [if_neg hr, if_neg hr, if_neg (fun hand => hr hand.1)]
    · intro _ ni hni
      exact hslots ni hni
  · have hvisits : g.classVisits idx = [] := if_neg hroot
    refine ⟨g₁, ?_, ?_, hg₁.refines, ?_, fun hcontra => (hroot hcontra).elim⟩
    · simp [scanClass, hfind, hroot, hvisits]
    · rw [hvisits, hg₁.hashcons_eq]
      rfl
    · intro r
      rw [if_neg (fun hand => hroot hand.2), hg₁.nodeIndices_eq]

/-! ### The whole pass -/

/-- The visits of the first classes. -/
def visitsBelow (g : EGraph) (k : Nat) : List (EClassId × ENode) :=
  (List.range k).flatMap g.classVisits

theorem mem_classVisits :
    (id, c) ∈ g.classVisits r ↔
      id = r ∧ g.root r = r ∧ ∃ ni ∈ g.nodeIndices r, g.canonAt ni = c := by
  unfold classVisits visitsAt
  split
  · rename_i hroot
    simp only [List.mem_map, Prod.mk.injEq, hroot, true_and]
    constructor
    · rintro ⟨ni, hni, rfl, hc⟩
      exact ⟨rfl, ni, hni, hc⟩
    · rintro ⟨rfl, ni, hni, hc⟩
      exact ⟨ni, hni, rfl, hc⟩
  · rename_i hroot
    simp [hroot]

variable {k : Nat}

theorem mem_visitsBelow :
    (id, c) ∈ g.visitsBelow k ↔
      id < k ∧ g.root id = id ∧ ∃ ni ∈ g.nodeIndices id, g.canonAt ni = c := by
  simp [visitsBelow, mem_classVisits]

/-- The state of a pass after its first `k` classes. -/
structure ScannedBelow (g : EGraph) (k : Nat) (merges : List (EClassId × EClassId))
    (g' : EGraph) : Prop where
  refines : Refines g g'
  table : (g'.hashcons, merges) = (g.visitsBelow k).foldl (visit g.root) ([], [])
  nodeIndices : ∀ r, g'.nodeIndices r =
    if r < k ∧ g.root r = r then g.keptIndices r else g.nodeIndices r
  slots : ∀ r < k, g.root r = r → ∀ ni ∈ g.nodeIndices r, g'.nodeArena[ni]? = some (g.canonAt ni)

variable {merges : List (EClassId × EClassId)}

section

variable (h : ScannedBelow g k merges g')

include h

theorem ScannedBelow.mem_nodeIndices (hni : ni ∈ g'.nodeIndices r) : ni ∈ g.nodeIndices r := by
  rw [h.nodeIndices] at hni
  split at hni
  · exact mem_keptIndices hni
  · exact hni

theorem ScannedBelow.mem_hashcons (hp : p ∈ g'.hashcons) : (p.2, p.1) ∈ g.visitsBelow k := by
  have htable : g'.hashcons = ((g.visitsBelow k).foldl (visit g.root) ([], [])).1 :=
    congrArg Prod.fst h.table
  rw [htable] at hp
  rcases mem_foldl_visit hp with hnil | hvisit
  · cases hnil
  · exact hvisit

theorem ScannedBelow.wellFormed (hg : g.WellFormed) (hk : k ≤ g.classes.length) :
    g'.WellFormed := by
  refine h.refines.wellFormed hg (fun r ni hni => h.mem_nodeIndices hni) ?_
  intro p hp
  rw [h.refines.classes_length]
  exact Nat.lt_of_lt_of_le (mem_visitsBelow.mp (h.mem_hashcons hp)).1 hk

end

theorem foldlM_scanClass_spec (h : g.WellFormed) (hk : k ≤ g.classes.length) :
    ∃ merges g', (range k).foldlM scanClass ([], { g with hashcons := [] }) =
        some (merges, g') ∧ ScannedBelow g k merges g' := by
  induction k with
  | zero =>
    exact ⟨[], { g with hashcons := [] }, rfl,
      ⟨.refl h.decreasing, rfl, rfl, fun _ _ hn => .inl hn⟩, rfl, fun _ => rfl, nofun⟩
  | succ k ih =>
    obtain ⟨merges, g₁, hrun, hg₁⟩ := ih (by omega)
    have hwf := hg₁.wellFormed h (by omega)
    have hcanonAt : g₁.canonAt = g.canonAt := funext (hg₁.refines.canonAt_eq h)
    have hroot : g₁.root = g.root := hg₁.refines.root_eq
    have hindices : g₁.nodeIndices k = g.nodeIndices k := by
      rw [hg₁.nodeIndices, if_neg (fun hand => Nat.lt_irrefl k hand.1)]
    have hvisits : g₁.classVisits k = g.classVisits k := by
      unfold classVisits visitsAt
      rw [hroot, hindices, hcanonAt]
    have hkept : g₁.keptIndices k = g.keptIndices k := by
      unfold keptIndices keepIndices
      rw [hindices, hcanonAt]
    obtain ⟨g₂, hclass, htable, hg₂, hindices₂, hslots⟩ :=
      scanClass_spec hwf (hg₁.refines.classes_length ▸ hk) merges
    have hbelow : g.visitsBelow (k + 1) = g.visitsBelow k ++ g.classVisits k := by
      unfold visitsBelow
      rw [range_succ, flatMap_append, flatMap_singleton]
    rw [hvisits, hroot, hg₁.table, ← foldl_append, ← hbelow] at hclass htable
    refine ⟨((g.visitsBelow (k + 1)).foldl (visit g.root) ([], [])).2, g₂, ?_,
      hg₁.refines.trans h hg₂, Prod.ext htable rfl, ?_, ?_⟩
    · rw [range_succ, foldlM_append, hrun]
      simp only [bind_eq_bind, bind_some, foldlM_cons, foldlM_nil, hclass]
      rfl
    · intro r
      rw [hindices₂, hroot, hkept, hg₁.nodeIndices]
      by_cases hr : r = k
      · subst hr
        by_cases hself : g.root r = r
        · rw [if_pos ⟨rfl, hself⟩, if_pos ⟨Nat.lt_succ_self r, hself⟩]
        · rw [if_neg (fun hand => hself hand.2), if_neg (fun hand => hself hand.2),
            if_neg (fun hand => hself hand.2)]
      · rw [if_neg (fun hand => hr hand.1)]
        have hiff : r < k ↔ r < k + 1 :=
          ⟨Nat.lt_succ_of_lt, fun hlt => Nat.lt_of_le_of_ne (Nat.le_of_lt_succ hlt) hr⟩
        simp only [hiff]
    · intro r hr hself ni hni
      rcases Nat.lt_or_ge r k with hlt | hge
      · -- Canonical nodes of earlier classes stay in place.
        have hslot := hg₁.slots r hlt hself ni hni
        refine hg₂.canonical_stays hslot ?_
        rw [hroot, canon_canonAt h]
      · obtain rfl : r = k := Nat.le_antisymm (Nat.le_of_lt_succ hr) hge
        rw [← hcanonAt]
        exact hslots (by rw [hroot]; exact hself) ni (by rw [hindices]; exact hni)

/-- A pass over all classes. -/
theorem scan_spec (h : g.WellFormed) :
    ∃ merges g', g.scan = some (merges, g') ∧ ScannedBelow g g.classes.length merges g' :=
  foldlM_scanClass_spec h (le_refl _)

section Scanned

variable {g g' : EGraph} {merges : List (EClassId × EClassId)}

variable {r : EClassId}

/-- A pass invents no nodes. -/
theorem ScannedBelow.holds_old {k : Nat} (h : ScannedBelow g k merges g') (hg : g.WellFormed)
    {n' : ENode} (hn' : g'.Holds r n') :
    ∃ n, g.Holds r n ∧ (n' = n ∨ n' = n.canon g.root) := by
  obtain ⟨ni, hni, hslot⟩ := hn'
  have hold := h.mem_nodeIndices hni
  obtain ⟨n, hn⟩ := hg.exists_node hold
  refine ⟨n, ⟨ni, hold, hn⟩, ?_⟩
  rcases h.refines.node ni n hn with hsame | hcanon
  · exact .inl (some.inj (hslot.symm.trans hsame))
  · exact .inr (some.inj (hslot.symm.trans hcanon))

/-- A pass loses no node of a representative, up to canonical forms, and makes all of
them canonical. -/
theorem ScannedBelow.holds_canon (h : ScannedBelow g g.classes.length merges g')
    (hr : r < g.classes.length) (hroot : g.root r = r) {n : ENode} (hn : g.Holds r n) :
    g'.Holds r (n.canon g.root) := by
  obtain ⟨ni, hni, hslot⟩ := hn
  obtain ⟨nj, hnj, heq⟩ : ∃ nj ∈ g.keptIndices r, g.canonAt nj = g.canonAt ni :=
    exists_mem_keepIndices (by simp) _ (.inr ⟨ni, hni, rfl⟩)
  refine ⟨nj, ?_, ?_⟩
  · rw [h.nodeIndices, if_pos ⟨hr, hroot⟩]
    exact hnj
  · rw [h.slots r hr hroot nj (mem_keptIndices hnj), heq, canonAt_eq hslot]

theorem ScannedBelow.canonical (h : ScannedBelow g g.classes.length merges g') (hg : g.WellFormed)
    (hr : r < g.classes.length) (hroot : g.root r = r) {n : ENode} (hn : g'.Holds r n) :
    n.canon g.root = n := by
  obtain ⟨ni, hni, hslot⟩ := hn
  have hold := h.mem_nodeIndices hni
  rw [h.slots r hr hroot ni hold] at hslot
  rw [← some.inj hslot, canon_canonAt hg]

theorem mem_visits_iff (hg : g.WellFormed) {id : EClassId} :
    (id, c) ∈ g.visitsBelow g.classes.length ↔
      id < g.classes.length ∧ g.root id = id ∧ ∃ n, g.Holds id n ∧ n.canon g.root = c := by
  rw [mem_visitsBelow]
  refine and_congr_right (fun _ => and_congr_right (fun _ => ?_))
  constructor
  · rintro ⟨ni, hni, rfl⟩
    obtain ⟨n, hn⟩ := hg.exists_node hni
    exact ⟨n, ⟨ni, hni, hn⟩, (canonAt_eq hn).symm⟩
  · rintro ⟨n, ⟨ni, hni, hn⟩, rfl⟩
    exact ⟨ni, hni, canonAt_eq hn⟩

end Scanned

/-! ## Merging -/

/-- One representative was pointed to a smaller one. -/
structure Linked (g : EGraph) (winner loser : EClassId) (g' : EGraph) : Prop where
  lt : winner < loser
  loser_lt : loser < g.classes.length
  root_winner : g.root winner = winner
  root_loser : g.root loser = loser
  root_eq : ∀ j, g'.root j = if g.root j = loser then winner else g.root j
  decreasing : Decreasing g'.parent
  length_eq : g'.parent.length = g.parent.length
  rootCount_lt : rootCount g'.parent < rootCount g.parent
  nodeArena_eq : g'.nodeArena = g.nodeArena
  classes_length : g'.classes.length = g.classes.length
  nodeIndices : ∀ r, g'.nodeIndices r =
    if r = winner then g.nodeIndices winner ++ g.nodeIndices loser
    else if r = loser then [] else g.nodeIndices r
  hashcons_eq : g'.hashcons = g.hashcons

section Merging

variable {g g' : EGraph} {winner loser : EClassId}

/-- A class of the merged graph holds what some class with the same new representative
held. -/
theorem Linked.mem_nodeIndices (h : Linked g winner loser g') {r : EClassId} {ni : Nat}
    (hni : ni ∈ g'.nodeIndices r) :
    ni ∈ g.nodeIndices r ∨ (r = winner ∧ ni ∈ g.nodeIndices loser) := by
  rw [h.nodeIndices] at hni
  split at hni
  · rename_i hr
    rcases mem_append.mp hni with hw | hl
    · exact .inl (hr ▸ hw)
    · exact .inr ⟨hr, hl⟩
  · split at hni
    · cases hni
    · exact .inl hni

theorem Linked.wellFormed (h : Linked g winner loser g') (hg : g.WellFormed) : g'.WellFormed where
  decreasing := h.decreasing
  length_eq := by rw [h.length_eq, h.classes_length, hg.length_eq]
  arena := by
    rw [h.nodeArena_eq, h.classes_length]
    exact hg.arena
  indices := by
    intro r ni hni
    rw [h.nodeArena_eq]
    rcases h.mem_nodeIndices hni with hold | ⟨-, hold⟩
    · exact hg.indices r ni hold
    · exact hg.indices loser ni hold
  hashcons := by
    rw [h.hashcons_eq, h.classes_length]
    exact hg.hashcons

theorem linked_of_roots {g₁ : EGraph} (h : g.WellFormed) (hg₁ : Compressed g g₁)
    (hwinner : g.root winner = winner) (hloser : g.root loser = loser) (hlt : winner < loser)
    (hvalid : loser < g.classes.length) :
    let g₂ := { g₁ with parent := g₁.parent.set loser winner }
    let g₃ := g₂.setNodeIndices loser []
    Linked g winner loser
      (g₃.setNodeIndices winner (g₃.nodeIndices winner ++ g₂.nodeIndices loser)) := by
  obtain ⟨_, _, parent, _⟩ := g₁
  obtain ⟨hroots, rfl, rfl, rfl⟩ := hg₁
  intro g₂ g₃
  have hlength : parent.length = g.classes.length := hroots.length_eq.trans h.length_eq
  have hisRoot {r : EClassId} (hr : r < g.classes.length) (hroot : g.root r = r) :
      IsRoot parent r := by
    refine (isRoot_iff hroots.decreasing (hlength ▸ hr)).mpr ?_
    exact (hroots.root_eq r).trans hroot
  have hw := hisRoot (hlt.trans hvalid) hwinner
  have hl := hisRoot hvalid hloser
  have hwinner₃ : winner < g₃.classes.length :=
    (hlt.trans hvalid).trans_eq (length_modify ..).symm
  have hindices₃ (r : EClassId) :
      g₃.nodeIndices r = if r = loser then [] else g.nodeIndices r :=
    nodeIndices_setNodeIndices g₂ loser [] hvalid r
  refine ⟨hlt, hvalid, hwinner, hloser, ?_, decreasing_set hroots.decreasing hlt.le,
    length_set.trans hroots.length_eq, ?_, rfl, (length_modify ..).trans (length_modify ..), ?_, rfl⟩
  · intro j
    refine (root_link hroots.decreasing hw hl hlt j).trans ?_
    rw [hroots.root_eq]
    rfl
  · rw [← hroots.rootCount_eq]
    exact rootCount_link hroots.decreasing hw hl hlt
  · intro r
    rw [nodeIndices_setNodeIndices g₃ winner _ hwinner₃, hindices₃, hindices₃, if_neg hlt.ne]
    rfl

theorem mergeInternal_spec (h : g.WellFormed) {a b : EClassId} (ha : a < g.classes.length)
    (hb : b < g.classes.length) :
    ∃ winner changed g', g.mergeInternal a b = some ((winner, changed), g') ∧
      ((g.root a = g.root b ∧ Compressed g g') ∨
        ∃ loser, Linked g winner loser g' ∧
          ((winner = g.root a ∧ loser = g.root b) ∨ (winner = g.root b ∧ loser = g.root a))) := by
  obtain ⟨g₁, hfind₁, hg₁⟩ := find_spec h ha
  have hb₁ : b < g₁.classes.length := by rwa [hg₁.classes_eq]
  obtain ⟨g₂, hfind₂, hg₂⟩ := find_spec (hg₁.wellFormed h) hb₁
  rw [hg₁.root_eq] at hfind₂
  have hg := hg₁.trans hg₂
  by_cases heq : g.root a = g.root b
  · refine ⟨g.root a, false, g₂, ?_, .inl ⟨heq, hg⟩⟩
    simp [mergeInternal, hfind₁, hfind₂, heq]
  have hrun : g.mergeInternal a b =
      let p := if g.root a ≤ g.root b then (g.root a, g.root b) else (g.root b, g.root a)
      let g₃ := { g₂ with parent := g₂.parent.set p.2 p.1 }
      let g₄ := g₃.setNodeIndices p.2 []
      some ((p.1, true),
        g₄.setNodeIndices p.1 (g₄.nodeIndices p.1 ++ g₃.nodeIndices p.2)) := by
    simp [mergeInternal, hfind₁, hfind₂, heq]
  rcases Nat.lt_or_gt_of_ne heq with hlt | hgt
  · rw [if_pos hlt.le] at hrun
    exact ⟨g.root a, true, _, hrun, .inr ⟨g.root b,
      linked_of_roots h hg (root_root h a) (root_root h b) hlt (root_lt h hb),
      .inl ⟨rfl, rfl⟩⟩⟩
  · rw [if_neg (Nat.not_le_of_lt hgt)] at hrun
    exact ⟨g.root b, true, _, hrun, .inr ⟨g.root a,
      linked_of_roots h hg (root_root h b) (root_root h a) hgt (root_lt h ha),
      .inr ⟨rfl, rfl⟩⟩⟩

end Merging

end EGraph

end Asupersync
